import StackListing.Token.Scan
import StackListing.Proofs.Lexing.Munching

/-!
# Lossless scanning

The tokens and complaints of a source, and their places, are read off its cut into pieces
(`Scan.ofSegments_pieces`).  The places come in order (`located_pairwise`), and an unclosed string
is the last piece that there can be.
-/

namespace StackListing

/-! ### Tokens and complaints of the pieces -/

/-- A word is an identifier or a keyword. -/
theorem Kind.ofWord_ne {k : Kind} (word : String) (hk : k ≠ .identifier)
    (hkeywords : k ∉ Kind.keywords.map Prod.snd) : Kind.ofWord word ≠ k := by
  unfold Kind.ofWord Kind.ofKeyword?
  cases h : Kind.keywords.lookup word with
  | none => exact hk.symm
  | some kind =>
    obtain ⟨before, after, hsplit, -⟩ := List.lookup_eq_some_iff.mp h
    rintro rfl
    exact hkeywords (List.mem_map.mpr ⟨(word, _), hsplit ▸ by simp, rfl⟩)

theorem Segment.value_of_ne {kind : Kind} (w : List Char) (h : kind ≠ .stringLiteral) :
    Segment.value ⟨.token kind, w⟩ = String.ofList w := by
  cases kind <;> first | rfl | exact absurd rfl h

theorem place_concat (before : List Char) (c : Char) :
    place (before ++ [c]) = (place before).next c := by
  unfold place Position.next
  by_cases hc : c = '\n'
  · simp [hc]
    omega
  · simp [hc]
    omega

theorem place_append (before w : List Char) : place (before ++ w) = (place before).advance w := by
  induction w generalizing before with
  | nil => rw [List.append_nil, Position.advance_nil]
  | cons c w ih =>
    rw [← List.singleton_append, ← List.append_assoc, ih, place_concat, List.singleton_append,
      Position.advance_cons]

/-- What one piece adds to the scan. -/
theorem Scan.ofSegments_cons {x : Piece} {rest : List Char} (hx : x.Fits rest) (start : Position)
    (segments : List Segment) :
    Scan.ofSegments start (x.segment :: segments) =
      ⟨(x.token? start).toList ++ (Scan.ofSegments (start.advance x.text) segments).tokens,
        (x.error? start).toList ++ (Scan.ofSegments (start.advance x.text) segments).errors⟩ := by
  cases hx with
  | @lexeme p w _ hp h =>
    cases p with
    | word =>
      have hvalue : (Piece.lexeme .word w).segment.value = String.ofList w :=
        Segment.value_of_ne w (Kind.ofWord_ne _ (by decide) (by decide))
      show Scan.mk (⟨_, _, _⟩ :: _) _ = _
      rw [hvalue]
      rfl
    | sign kind =>
      have hne : kind ≠ .stringLiteral := by
        rintro rfl
        cases h.matched
      have hvalue : (Piece.lexeme (.sign kind) w).segment.value = String.ofList w :=
        Segment.value_of_ne w hne
      show Scan.mk (⟨_, _, _⟩ :: _) _ = _
      rw [hvalue]
      rfl
    | quote => exact absurd rfl hp
    | float => rfl
    | integer => rfl
    | newline => rfl
    | blanks => rfl
    | string => rfl
    | comment => rfl
  | stray h => rfl
  | unclosed h => rfl

/-- **The scan of a cut.**  Tokens and complaints are those of the pieces, each with the place of
its piece. -/
theorem Scan.ofSegments_pieces (before : List Char) (pieces : List Piece)
    (hfits : ∀ x ∈ pieces, ∃ rest, x.Fits rest) :
    Scan.ofSegments (place before) (pieces.map Piece.segment) =
      ⟨(located before pieces).filterMap (fun y => y.2.token? y.1) ++
          [⟨.endOfInput, "", place (before ++ pieces.flatMap Piece.text)⟩],
        (located before pieces).filterMap fun y => y.2.error? y.1⟩ := by
  induction pieces generalizing before with
  | nil => simp [Scan.ofSegments, located]
  | cons x pieces ih =>
    have htail := ih (before ++ x.text) fun y hy => hfits y (List.mem_cons_of_mem x hy)
    rw [place_append] at htail
    obtain ⟨rest, hx⟩ := hfits x List.mem_cons_self
    have hcons {α : Type} (f : Position × Piece → Option α) :
        (located before (x :: pieces)).filterMap f =
          (f (place before, x)).toList ++ (located (before ++ x.text) pieces).filterMap f := by
      rw [located, List.filterMap_cons]
      cases f (place before, x) <;> rfl
    rw [List.map_cons, Scan.ofSegments_cons hx, htail, hcons, hcons, List.flatMap_cons]
    simp only [List.append_assoc]

/-! ### The order of places -/

namespace Position

theorem Before.trans {p q r : Position} (h : p.Before q) (h' : q.Before r) : p.Before r := by
  unfold Before at *
  omega

instance : Trans Before Before Before := ⟨Before.trans⟩

theorem before_advance (p : Position) {w : List Char} (hw : w ≠ []) : p.Before (p.advance w) := by
  have hnext (p : Position) (c : Char) : p.Before (p.next c) := by
    unfold Before next
    split_ifs
    · exact .inl (Int.lt_succ p.line)
    · exact .inr ⟨rfl, Int.lt_succ p.column⟩
  induction w generalizing p with
  | nil => exact absurd rfl hw
  | cons c w ih =>
    rw [advance_cons]
    by_cases hnil : w = []
    · rw [hnil, advance_nil]
      exact hnext p c
    · exact (hnext p c).trans (ih (p.next c) hnil)

end Position

/-- The pieces of a cut and the end of the text stand one behind the other. -/
theorem located_pairwise (before : List Char) {pieces : List Piece}
    (hne : ∀ x ∈ pieces, x.text ≠ []) :
    ((located before pieces).map Prod.fst ++
      [place (before ++ pieces.flatMap Piece.text)]).Pairwise Position.Before := by
  rw [← List.isChain_iff_pairwise]
  induction pieces generalizing before with
  | nil => exact .singleton _
  | cons x pieces ih =>
    have htail := ih (before ++ x.text) fun y hy => hne y (List.mem_cons_of_mem x hy)
    have hstep : (place before).Before (place (before ++ x.text)) := by
      rw [place_append]
      exact Position.before_advance _ (hne x List.mem_cons_self)
    rw [List.append_assoc, ← List.flatMap_cons] at htail
    cases pieces with
    | nil =>
      simpa [located] using hstep
    | cons y pieces => exact .cons_cons hstep htail

theorem sublist_filterMap {α : Type} (f : Position × Piece → Option α) (pos : α → Position)
    (hf : ∀ y a, f y = some a → pos a = y.1) (l : List (Position × Piece)) :
    ((l.filterMap f).map pos).Sublist (l.map Prod.fst) := by
  induction l with
  | nil => exact .slnil
  | cons y l ih =>
    rw [List.filterMap_cons]
    cases h : f y with
    | none => exact ih.cons _
    | some a =>
      show (pos a :: _).Sublist _
      rw [hf y a h]
      exact ih.cons_cons _

theorem Piece.position_token? {pos : Position} {x : Piece} {t : Token} (h : x.token? pos = some t) :
    t.position = pos := by
  cases x with
  | lexeme p w => cases p <;> cases h <;> rfl
  | stray c => cases h
  | unclosed w => cases h

theorem Piece.position_error? {pos : Position} {x : Piece} {d : Diagnostic}
    (h : x.error? pos = some d) : d.position = pos := by
  cases x <;> cases h <;> rfl

/-- An unclosed string is the last piece. -/
theorem IsCut.eq_nil_of_unclosed {cs w : List Char} {pieces : List Piece}
    (h : IsCut cs (.unclosed w :: pieces)) : pieces = [] := by
  have hhead := h.head
  generalize hrest : pieces.flatMap Piece.text = rest at hhead
  cases hhead
  cases pieces with
  | nil => rfl
  | cons y pieces => exact absurd (List.append_eq_nil_iff.mp hrest).1 (h.nonempty y (by simp))

/-- An unclosed string is the last piece, so the complaint about it is the last. -/
theorem IsCut.unterminated_last {cs : List Char} {pieces : List Piece} (h : IsCut cs pieces)
    (before : List Char) :
    ∀ d ∈ ((located before pieces).filterMap fun y => y.2.error? y.1).dropLast,
      d.cause ≠ .unterminatedString := by
  induction pieces generalizing cs before with
  | nil => simp [located]
  | cons x pieces ih =>
    have htail := ih h.tail (before ++ x.text)
    cases x with
    | lexeme p w => exact htail
    | stray c =>
      intro d hd
      change d ∈ (_ :: ((located (before ++ [c]) pieces).filterMap _)).dropLast at hd
      by_cases hnil : (located (before ++ [c]) pieces).filterMap (fun y => y.2.error? y.1) = []
      · rw [hnil] at hd
        simp at hd
      · rw [List.dropLast_cons_of_ne_nil hnil, List.mem_cons] at hd
        rcases hd with rfl | hd
        · simp
        · exact htail d hd
    | unclosed w =>
      obtain rfl := h.eq_nil_of_unclosed
      simp [located, Piece.error?]

/-- The scan of a source is that of its cut. -/
theorem exists_tokenize_eq (source : String) :
    ∃ pieces, IsCut source.toList pieces ∧
      (∀ before p w after, pieces = before ++ Piece.lexeme p w :: after →
        p.FirstAt (w ++ after.flatMap Piece.text)) ∧
      tokenize source =
        ⟨(located [] pieces).filterMap (fun y => y.2.token? y.1) ++
            [⟨.endOfInput, "", place source.toList⟩],
          (located [] pieces).filterMap fun y => y.2.error? y.1⟩ := by
  obtain ⟨pieces, hcut, hmap, hfirst⟩ := exists_cut source.toList
  have hscan := Scan.ofSegments_pieces [] pieces fun x hx => hcut.exists_fits hx
  rw [hmap, List.nil_append, hcut.whole] at hscan
  exact ⟨pieces, hcut, hfirst, hscan⟩

/-- **Lossless maximal-munch scanning.**  A source has exactly one cut into pieces: texts that no
pattern could make longer, characters with which nothing begins, and at the end perhaps an unclosed
string.  A piece of a pattern is of the first pattern in the order that has a text there.  The
tokens are those of the pieces, in their order, and then one end marker; the complaints are one for
every stray character and one for an unclosed string, which is the last; and each has the place of
its piece.  These places come one behind the other. -/
theorem tokenize_munches (source : String) :
    ∃ pieces, IsCut source.toList pieces ∧
      (∀ other, IsCut source.toList other → other = pieces) ∧
      (∀ before p w after, pieces = before ++ Piece.lexeme p w :: after →
        p.FirstAt (w ++ after.flatMap Piece.text)) ∧
      (tokenize source).tokens = (located [] pieces).filterMap (fun y => y.2.token? y.1) ++
        [⟨.endOfInput, "", place source.toList⟩] ∧
      (tokenize source).errors = ((located [] pieces).filterMap fun y => y.2.error? y.1) ∧
      (∀ d ∈ (tokenize source).errors.dropLast, d.cause ≠ .unterminatedString) ∧
      ((located [] pieces).map Prod.fst ++ [place source.toList]).Pairwise Position.Before ∧
      ((tokenize source).tokens.map Token.position).Pairwise Position.Before ∧
      ((tokenize source).errors.map Diagnostic.position).Pairwise Position.Before := by
  obtain ⟨pieces, hcut, hfirst, hscan⟩ := exists_tokenize_eq source
  have htokens : (tokenize source).tokens = _ := congrArg Scan.tokens hscan
  have herrors : (tokenize source).errors = _ := congrArg Scan.errors hscan
  have hplaces := located_pairwise [] hcut.nonempty
  rw [List.nil_append, hcut.whole] at hplaces
  refine ⟨pieces, hcut, fun other h => h.unique hcut, hfirst, htokens, herrors, ?_, hplaces, ?_, ?_⟩
  · rw [herrors]
    exact hcut.unterminated_last []
  · rw [htokens, List.map_append]
    exact hplaces.sublist
      ((sublist_filterMap _ _ (fun y t h => Piece.position_token? h) _).append (.refl _))
  · rw [herrors]
    exact (List.pairwise_append.mp hplaces).1.sublist
      (sublist_filterMap _ _ (fun y d h => Piece.position_error? h) _)

end StackListing
