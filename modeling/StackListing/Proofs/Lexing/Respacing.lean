import StackListing.Proofs.Lexing.Blanks

/-!
# Words one by one

The tokens of a source can be written down again, each as the source has it, with one space between
any two.  The layout is gone, and so are comments and stray characters, but the scan of this text
finds the same words (`tokenize_respaced`).

A token comes from a piece of the source, and the text of that piece is how the token is written
(`Piece.Writes`).  At the end of a text, where nothing can be longer, and before a blank, which ends
every word, the piece fits again.  So the scan of the written tokens takes them one by one
(`ofSegments_spaced`).
-/

namespace StackListing

/-- The token as a source writes it: a string literal stands in its quotes. -/
def Token.written (t : Token) : String :=
  if t.kind = .stringLiteral then "\"" ++ t.value ++ "\"" else t.value

/-- What a token is, wherever it stands. -/
def Token.word (t : Token) : Kind × String := (t.kind, t.value)

/-- **The tokens of a source with one space between any two,** without the end marker. -/
def respaced (source : String) : String :=
  " ".intercalate (((tokenize source).tokens.filter (·.kind ≠ .endOfInput)).map Token.written)

/-! ### Pieces of tokens -/

/-- The piece is how the token is written, and it fits at the end of a text and before a blank. -/
structure Piece.Writes (x : Piece) (t : Token) : Prop where
  kind : t.kind ≠ .endOfInput
  text : t.written.toList = x.text
  token : ∀ pos, x.token? pos = some { t with position := pos }
  atEnd : x.Fits []
  beforeBlank : ∀ rest, x.Fits (' ' :: rest)

/-- At the end of a text nothing is longer. -/
theorem Pattern.Matches.longest_nil {p : Pattern} {w : List Char} (h : p.Matches w) :
    p.Longest w [] where
  matched := h
  longest q v _ hpre := by
    rw [List.append_nil] at hpre
    exact hpre.length_le

/-- The text of a pattern that makes a token is how that token is written. -/
theorem Pattern.Matches.written {p : Pattern} {w : List Char} {pos : Position} {t : Token}
    (h : p.Matches w) (ht : (Piece.lexeme p w).token? pos = some t) :
    t.kind ≠ .endOfInput ∧ t.written.toList = w := by
  have hplain {kind : Kind} (hend : kind ≠ .endOfInput) (hstring : kind ≠ .stringLiteral) :
      kind ≠ .endOfInput ∧ (Token.mk kind (String.ofList w) pos).written.toList = w := by
    rw [Token.written, if_neg hstring, String.toList_ofList]
    exact ⟨hend, rfl⟩
  cases p with
  | word =>
    cases ht
    exact hplain (Kind.ofWord_ne _ (by decide) (by decide)) (Kind.ofWord_ne _ (by decide) (by decide))
  | sign kind =>
    cases ht
    have hsign (k : Kind) (hk : k.sign? = none) : kind ≠ k := by
      rintro rfl
      cases hk.symm.trans h
    exact hplain (hsign _ rfl) (hsign _ rfl)
  | string =>
    cases ht
    obtain ⟨cs, rfl, -⟩ := h
    exact ⟨nofun, by simp [Token.written]⟩
  | float | integer | newline =>
    cases ht
    exact hplain nofun nofun
  | blanks | quote | comment => cases ht

/-- **The piece of a token writes it.** -/
theorem Piece.Fits.writes {x : Piece} {rest : List Char} {pos : Position} {t : Token}
    (hx : x.Fits rest) (ht : x.token? pos = some t) : x.Writes t := by
  cases hx with
  | @lexeme p w _ hquote h =>
    have hblanks : p ≠ .blanks := by
      rintro rfl
      cases ht
    have hcomment : p ≠ .comment := by
      rintro rfl
      cases ht
    obtain ⟨hkind, hwritten⟩ := h.matched.written ht
    have hlast := h.matched.longest_nil
    refine ⟨hkind, hwritten, ?_, .lexeme hquote hlast, fun r => .lexeme hquote ?_⟩
    · intro pos'
      cases p <;> cases ht <;> rfl
    · exact Pattern.Longest.before_blank (u := []) (r := []) hlast hquote hblanks
        (fun heq => absurd heq hcomment) r
  | stray h => cases ht
  | unclosed h => cases ht

theorem Piece.error?_of_token? {x : Piece} {pos : Position} {t : Token}
    (h : x.token? pos = some t) : x.error? pos = none := by
  cases x with
  | lexeme p w => rfl
  | stray c => cases h
  | unclosed w => cases h

/-! ### The scan -/

/-- What one written token adds to the scan of a text. -/
theorem Piece.Writes.ofSegments_eq {x : Piece} {t : Token} (h : x.Writes t) {rest : List Char}
    (hx : x.Fits rest) (pos : Position) :
    Scan.ofSegments pos (Segment.split (t.written.toList ++ rest)) =
      ⟨{ t with position := pos } ::
          (Scan.ofSegments (pos.advance t.written.toList) (Segment.split rest)).tokens,
        (Scan.ofSegments (pos.advance t.written.toList) (Segment.split rest)).errors⟩ := by
  rw [h.text, hx.ofSegments_eq, h.token, Piece.error?_of_token? (h.token pos)]
  rfl

/-- **Written tokens are read one by one.** -/
theorem ofSegments_spaced {ts : List Token} (hts : ∀ t ∈ ts, ∃ x : Piece, x.Writes t)
    (pos : Position) :
    let scan := Scan.ofSegments pos
      (Segment.split ([' '].intercalate (ts.map fun t => t.written.toList)))
    scan.errors = [] ∧ scan.tokens.map Token.word = ts.map Token.word ++ [(.endOfInput, "")] := by
  induction ts generalizing pos with
  | nil => exact ⟨by simp [Scan.ofSegments], by simp [Scan.ofSegments, Token.word]⟩
  | cons t ts ih =>
    obtain ⟨⟨x, hx⟩, hts⟩ := List.forall_mem_cons.mp hts
    cases ts with
    | nil =>
      obtain ⟨herrors, htokens⟩ := ih hts (pos.advance t.written.toList)
      have hscan := hx.ofSegments_eq hx.atEnd pos
      rw [List.append_nil] at hscan
      simp only [List.map_cons, List.map_nil, List.intercalate_singleton, hscan]
      exact ⟨herrors, congrArg (t.word :: ·) htokens⟩
    | cons t' ts =>
      obtain ⟨herrors, htokens⟩ := ih hts ((pos.advance t.written.toList).next ' ')
      rw [List.map_cons, List.map_cons, List.intercalate_cons_cons, List.append_assoc,
        List.singleton_append, hx.ofSegments_eq (hx.beforeBlank _), ofSegments_blank (.inl rfl)]
      exact ⟨herrors, congrArg (t.word :: ·) htokens⟩

/-- The tokens of a source and its end marker. -/
theorem exists_tokens_eq (source : String) : ∃ ts pos, (∀ t ∈ ts, ∃ x : Piece, x.Writes t) ∧
    (tokenize source).tokens = ts ++ [⟨.endOfInput, "", pos⟩] := by
  obtain ⟨pieces, hcut, -, hscan⟩ := exists_tokenize_eq source
  refine ⟨_, _, fun t ht => ?_, congrArg Scan.tokens hscan⟩
  obtain ⟨y, hy, htoken⟩ := List.mem_filterMap.mp ht
  have hmem : y.2 ∈ pieces := by
    rw [← map_snd_located [] pieces]
    exact List.mem_map_of_mem hy
  obtain ⟨rest, hfits⟩ := hcut.exists_fits hmem
  exact ⟨y.2, hfits.writes htoken⟩

/-- **Tokens survive respacing.**  The tokens of a source, written down with one space between any
two, are scanned without complaint to the same kinds and texts in the same order. -/
theorem tokenize_respaced (source : String) :
    (tokenize (respaced source)).errors = [] ∧
      (tokenize (respaced source)).tokens.map Token.word =
        (tokenize source).tokens.map Token.word := by
  obtain ⟨ts, pos, hts, htokens⟩ := exists_tokens_eq source
  have hfilter : (tokenize source).tokens.filter (·.kind ≠ .endOfInput) = ts := by
    rw [htokens, List.filter_append, List.filter_eq_self.mpr fun t ht => ?_]
    · simp
    · obtain ⟨x, hx⟩ := hts t ht
      exact decide_eq_true hx.kind
  have htext : (respaced source).toList = [' '].intercalate (ts.map fun t => t.written.toList) := by
    rw [respaced, hfilter, String.toList_intercalate, List.map_map]
    rfl
  obtain ⟨herrors, hwords⟩ := ofSegments_spaced hts Position.start
  rw [← htext] at herrors hwords
  refine ⟨herrors, hwords.trans ?_⟩
  rw [htokens, List.map_append]
  rfl

end StackListing
