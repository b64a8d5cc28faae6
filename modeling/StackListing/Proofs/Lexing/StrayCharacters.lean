import StackListing.Proofs.Lexing.Blanks

/-!
# Stray characters are blanks

A character with which no word begins is reported and skipped.  It could as well be a blank: the
text in which all such characters are replaced by spaces has the same tokens at the same places, and
of the complaints only the one about an unclosed string is left (`tokenize_blanked`).

The replaced text is said without the scanner, from the places in the complaints (`blankOut`).  It
is the text of the pieces with every stray one made a space (`blankOut_located`).  Its cut is another
one, since blanks that were apart may now stand together.  But each piece that is a word or a comment
still fits where it stands (`IsCut.fits_blanked`): up to the first replaced character behind it
nothing has changed, and that one has become a blank.
-/

namespace StackListing

/-! ### Replaced characters -/

/-- The text at `pos` with a space for every character that is reported as unexpected. -/
def blankOut (reported : Diagnostics) (pos : Position) : List Char → List Char
  | [] => []
  | c :: cs =>
    (if ⟨.unexpectedCharacter c, pos⟩ ∈ reported then ' ' else c) ::
      blankOut reported (pos.next c) cs

/-- **The source with a space for every unexpected character.** -/
def blanked (source : String) : String :=
  String.ofList (blankOut (tokenize source).errors Position.start source.toList)

theorem blankOut_append (reported : Diagnostics) (pos : Position) (cs ds : List Char) :
    blankOut reported pos (cs ++ ds) =
      blankOut reported pos cs ++ blankOut reported (pos.advance cs) ds := by
  induction cs generalizing pos with
  | nil => rfl
  | cons c cs ih => rw [List.cons_append, blankOut, ih, blankOut, List.cons_append,
      Position.advance_cons]

/-- A text in which nothing is reported stays as it is. -/
theorem blankOut_eq_self {reported : Diagnostics} {pos : Position} {cs : List Char}
    (h : ∀ u c v, cs = u ++ c :: v → ⟨.unexpectedCharacter c, pos.advance u⟩ ∉ reported) :
    blankOut reported pos cs = cs := by
  induction cs generalizing pos with
  | nil => rfl
  | cons c cs ih =>
    have hc : ⟨.unexpectedCharacter c, pos⟩ ∉ reported := h [] c cs rfl
    rw [blankOut, if_neg hc, ih fun u d v huv => ?_]
    exact h (c :: u) d v (by rw [huv, List.cons_append])

/-- The text of a piece with a space for a stray character. -/
def Piece.blanked : Piece → List Char
  | .lexeme _ w => w
  | .stray _ => [' ']
  | .unclosed w => w

/-- The complaints about pieces behind a text. -/
def complaintsAt (before : List Char) (pieces : List Piece) : Diagnostics :=
  (located before pieces).filterMap fun y => y.2.error? y.1

theorem complaintsAt_cons (before : List Char) (x : Piece) (pieces : List Piece) :
    complaintsAt before (x :: pieces) =
      (x.error? (place before)).toList ++ complaintsAt (before ++ x.text) pieces := by
  rw [complaintsAt, located, List.filterMap_cons]
  cases x.error? (place before) <;> rfl

theorem Position.not_advance_before (p : Position) (w : List Char) : ¬ (p.advance w).Before p := by
  intro h
  by_cases hw : w = []
  · rw [hw, advance_nil] at h
    unfold Before at h
    omega
  · have hcycle := (p.before_advance hw).trans h
    unfold Before at hcycle
    omega

/-- No complaint about pieces is about a place before them. -/
theorem not_before_of_mem_complaintsAt {before : List Char} {pieces : List Piece}
    (hne : ∀ x ∈ pieces, x.text ≠ []) {d : Diagnostic} (hd : d ∈ complaintsAt before pieces) :
    ¬ d.position.Before (place before) := by
  induction pieces generalizing before with
  | nil => cases hd
  | cons x pieces ih =>
    obtain ⟨hx, hne⟩ := List.forall_mem_cons.mp hne
    rw [complaintsAt_cons] at hd
    intro hearly
    rcases List.mem_append.mp hd with hd | hd
    · rw [Piece.position_error? (Option.mem_toList.mp hd)] at hearly
      exact (place before).not_advance_before [] hearly
    · refine ih hne hd (hearly.trans ?_)
      rw [place_append]
      exact (place before).before_advance hx

/-- Within a piece only that piece is complained about. -/
theorem error_eq_of_within {before : List Char} {x : Piece} {pieces : List Piece}
    {earlier : Diagnostics} (hearlier : ∀ d ∈ earlier, d.position.Before (place before))
    (hne : ∀ y ∈ pieces, y.text ≠ []) {u v : List Char} {c : Char} (htext : x.text = u ++ c :: v)
    {cause : Cause}
    (hd : ⟨cause, (place before).advance u⟩ ∈ earlier ++ complaintsAt before (x :: pieces)) :
    x.error? (place before) = some ⟨cause, (place before).advance u⟩ := by
  rw [complaintsAt_cons] at hd
  rcases List.mem_append.mp hd with hd | hd
  · exact absurd (hearlier _ hd) ((place before).not_advance_before u)
  rcases List.mem_append.mp hd with hd | hd
  · exact Option.mem_toList.mp hd
  · refine absurd ?_ (not_before_of_mem_complaintsAt hne hd)
    rw [place_append, htext, Position.advance_append]
    exact Position.before_advance _ (List.cons_ne_nil c v)

/-- **The places in the complaints tell the stray characters.** -/
theorem blankOut_located {before : List Char} {pieces : List Piece} {earlier : Diagnostics}
    (hne : ∀ x ∈ pieces, x.text ≠ []) (hearlier : ∀ d ∈ earlier, d.position.Before (place before)) :
    blankOut (earlier ++ complaintsAt before pieces) (place before) (pieces.flatMap Piece.text) =
      pieces.flatMap Piece.blanked := by
  induction pieces generalizing before earlier with
  | nil => rfl
  | cons x pieces ih =>
    obtain ⟨hx, hpieces⟩ := List.forall_mem_cons.mp hne
    have hfirst : blankOut (earlier ++ complaintsAt before (x :: pieces)) (place before) x.text =
        x.blanked := by
      cases x with
      | stray c =>
        have hmem : ⟨.unexpectedCharacter c, place before⟩ ∈
            earlier ++ complaintsAt before (.stray c :: pieces) :=
          List.mem_append_right _ (complaintsAt_cons .. ▸ List.mem_cons_self)
        exact congrArg (· :: []) (if_pos hmem)
      | lexeme p w =>
        refine blankOut_eq_self fun u c v htext hmem => ?_
        cases error_eq_of_within (x := .lexeme p w) hearlier hpieces htext hmem
      | unclosed w =>
        refine blankOut_eq_self fun u c v htext hmem => ?_
        cases error_eq_of_within (x := .unclosed w) hearlier hpieces htext hmem
    have hlater : ∀ d ∈ earlier ++ (x.error? (place before)).toList,
        d.position.Before (place (before ++ x.text)) := by
      intro d hd
      rw [place_append]
      rcases List.mem_append.mp hd with hd | hd
      · exact (hearlier d hd).trans ((place before).before_advance hx)
      · rw [Piece.position_error? (Option.mem_toList.mp hd)]
        exact (place before).before_advance hx
    have htail := ih hpieces hlater
    rw [List.append_assoc, ← complaintsAt_cons, place_append] at htail
    rw [List.flatMap_cons, blankOut_append, hfirst, htail, List.flatMap_cons]

/-! ### Pieces before replaced characters -/

/-- The second text is the first, or it goes like the first up to a blank, and there the first has a
character with which nothing begins. -/
def UpToStray (cs ds : List Char) : Prop :=
  ds = cs ∨ ∃ u c r r', cs = u ++ c :: r ∧ ds = u ++ ' ' :: r' ∧ ∀ p : Pattern, ¬ p.Begins (c :: r)

theorem UpToStray.append {cs ds : List Char} (h : UpToStray cs ds) (w : List Char) :
    UpToStray (w ++ cs) (w ++ ds) := by
  rcases h with rfl | ⟨u, c, r, r', rfl, rfl, hnone⟩
  · exact .inl rfl
  · exact .inr ⟨w ++ u, c, r, r', by rw [List.append_assoc], by rw [List.append_assoc], hnone⟩

/-- Up to the first stray character nothing is replaced. -/
theorem IsCut.upToStray_blanked {cs : List Char} {xs : List Piece} (h : IsCut cs xs) :
    UpToStray cs (xs.flatMap Piece.blanked) := by
  induction xs generalizing cs with
  | nil => exact .inl h.whole
  | cons x xs ih =>
    have hhead := h.head
    have htail := ih h.tail
    obtain rfl : x.text ++ xs.flatMap Piece.text = cs := h.whole
    rw [List.flatMap_cons]
    cases x with
    | lexeme p w => exact htail.append w
    | unclosed w => exact htail.append w
    | stray c =>
      cases hhead with
      | stray hnone => exact .inr ⟨[], c, _, _, rfl, rfl, hnone⟩

/-- **A word or a comment still fits when what follows it is blanked.** -/
theorem IsCut.fits_blanked {cs w : List Char} {p : Pattern} {xs : List Piece}
    (h : IsCut cs (.lexeme p w :: xs)) (hp : p ≠ .blanks) :
    (Piece.lexeme p w).Fits (xs.flatMap Piece.blanked) := by
  cases h.head with
  | lexeme hquote hlongest =>
    rcases h.tail.upToStray_blanked with heq | ⟨u, c, r, r', htext, hblanked, hnone⟩
    · rw [heq]
      exact .lexeme hquote hlongest
    rw [htext] at hlongest
    rw [hblanked]
    refine .lexeme hquote (hlongest.before_blank hquote hp ?_ r')
    rintro rfl
    cases u with
    | nil =>
      obtain rfl := hlongest.comment_stops
      exact absurd ⟨['\n'], rfl, r, rfl⟩ (hnone .newline)
    | cons d u =>
      obtain rfl := hlongest.comment_stops
      exact List.mem_cons_self

/-- A stray character is no newline. -/
theorem Piece.Fits.next_eq {c : Char} {rest : List Char} (h : (Piece.stray c).Fits rest)
    (pos : Position) : pos.next ' ' = pos.next c := by
  cases h with
  | stray hnone =>
    have hc : c ≠ '\n' := by
      rintro rfl
      exact hnone .newline ⟨['\n'], rfl, rest, rfl⟩
    rw [Position.next, Position.next, if_neg (by decide), if_neg hc]

/-! ### The scan -/

/-- **Blanking keeps the tokens and the complaint about an unclosed string.** -/
theorem IsCut.ofSegments_blanked {cs : List Char} {xs : List Piece} (h : IsCut cs xs)
    (pos : Position) :
    Scan.ofSegments pos (Segment.split (xs.flatMap Piece.blanked)) =
      ⟨(Scan.ofSegments pos (Segment.split cs)).tokens,
        (Scan.ofSegments pos (Segment.split cs)).errors.filter (·.cause = .unterminatedString)⟩ := by
  induction xs generalizing cs pos with
  | nil =>
    obtain rfl : [] = cs := h.whole
    simp [Scan.ofSegments]
  | cons x xs ih =>
    have htail := ih h.tail (pos.advance x.text)
    have hscan := h.head.ofSegments_eq pos
    obtain rfl : x.text ++ xs.flatMap Piece.text = cs := h.whole
    rw [hscan, List.flatMap_cons]
    cases x with
    | lexeme p w =>
      by_cases hp : p = .blanks
      · subst hp
        cases h.head with
        | lexeme _ hlongest => exact (ofSegments_blank_append hlongest.matched.2 pos _).trans htail
      · exact ((h.fits_blanked hp).ofSegments_eq pos).trans (by rw [htail]; rfl)
    | stray c =>
      rw [Piece.blanked, List.singleton_append, ofSegments_blank (.inl rfl), h.head.next_eq]
      exact htail
    | unclosed w =>
      obtain rfl := h.eq_nil_of_unclosed
      exact (h.head.ofSegments_eq pos).trans (by simp [Piece.error?, Scan.ofSegments])

/-- **Stray characters are blanks.**  If every character that is reported as unexpected is replaced
by a space, then the tokens stay the same, with their places, and so does the complaint about an
unclosed string; the other complaints disappear. -/
theorem tokenize_blanked (source : String) :
    tokenize (blanked source) = ⟨(tokenize source).tokens,
      (tokenize source).errors.filter (·.cause = .unterminatedString)⟩ := by
  obtain ⟨pieces, hcut, -, hscan⟩ := exists_tokenize_eq source
  have herrors : (tokenize source).errors = complaintsAt [] pieces := congrArg Scan.errors hscan
  have htext : (blanked source).toList = pieces.flatMap Piece.blanked := by
    have hblanked : blankOut ([] ++ complaintsAt [] pieces) (place [])
        (pieces.flatMap Piece.text) = _ := blankOut_located hcut.nonempty nofun
    rw [List.nil_append, hcut.whole] at hblanked
    rw [blanked, String.toList_ofList, herrors]
    exact hblanked
  rw [tokenize, htext, hcut.ofSegments_blanked]
  rfl

end StackListing
