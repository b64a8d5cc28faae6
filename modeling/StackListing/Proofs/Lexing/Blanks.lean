import StackListing.Proofs.Lexing.MaximalMunch

/-!
# Blanks between words

A blank is skipped, and it never matters how many stand together: a scan begun before a blank goes
on as if the text began behind it (`ofSegments_blank`).  Nor does a blank join what stands before
it: blanks and newlines occur in no text of a pattern but in blanks, strings and comments
(`Pattern.Matches.of_separator`).  So the longest text at a place stays the longest when the text
behind it is cut and goes on with a blank (`Pattern.Longest.before_blank`), unless it consists of
blanks itself or is a comment that would go on.
-/

namespace StackListing

/-! ### Skipping -/

/-- The scanner takes a segment from the head of a text and goes on behind it. -/
theorem split_of_first {c : Char} {cs rest : List Char} {cls : SegmentClass}
    (h : Segment.first c (cs ++ rest) = ⟨cls, c :: cs⟩) :
    Segment.split (c :: cs ++ rest) = ⟨cls, c :: cs⟩ :: Segment.split rest := by
  rw [List.cons_append, Segment.split_cons, h]
  simp

/-- Blanks disappear: the scan goes on behind them. -/
theorem ofSegments_blanks (pos : Position) (cs : List Char) :
    Scan.ofSegments pos (Segment.split cs) =
      Scan.ofSegments (pos.advance (cs.takeWhile Segment.isSpace))
        (Segment.split (cs.dropWhile Segment.isSpace)) := by
  cases cs with
  | nil => rfl
  | cons c cs =>
    by_cases hc : Segment.isSpace c = true
    · have hfirst : Segment.first c (cs.takeWhile Segment.isSpace ++ cs.dropWhile Segment.isSpace) =
          ⟨.skipped, c :: cs.takeWhile Segment.isSpace⟩ := by
        rw [List.takeWhile_append_dropWhile]
        rcases Segment.isSpace_iff.mp hc with rfl | rfl | rfl <;> rfl
      have hsplit := split_of_first hfirst
      rw [List.cons_append, List.takeWhile_append_dropWhile] at hsplit
      rw [hsplit, List.takeWhile_cons_of_pos hc, List.dropWhile_cons_of_pos hc]
      rfl
    · rw [List.takeWhile_cons_of_neg hc, List.dropWhile_cons_of_neg hc]
      rfl

/-- **One blank disappears,** whether or not more of them follow. -/
theorem ofSegments_blank {c : Char} (hc : Blank c) (pos : Position) (cs : List Char) :
    Scan.ofSegments pos (Segment.split (c :: cs)) =
      Scan.ofSegments (pos.next c) (Segment.split cs) := by
  have hspace : Segment.isSpace c = true := Segment.isSpace_iff.mpr hc
  rw [ofSegments_blanks pos, ofSegments_blanks (pos.next c), List.takeWhile_cons_of_pos hspace,
    List.dropWhile_cons_of_pos hspace, Position.advance_cons]

theorem ofSegments_blank_append {w : List Char} (hw : ∀ c ∈ w, Blank c) (pos : Position)
    (cs : List Char) :
    Scan.ofSegments pos (Segment.split (w ++ cs)) =
      Scan.ofSegments (pos.advance w) (Segment.split cs) := by
  induction w generalizing pos with
  | nil => rfl
  | cons c w ih =>
    obtain ⟨hc, hw⟩ := List.forall_mem_cons.mp hw
    rw [List.cons_append, ofSegments_blank hc, ih hw, Position.advance_cons]

/-! ### Pieces -/

variable {x : Piece} {rest : List Char}

/-- The scanner takes the piece that fits and goes on behind it. -/
theorem Piece.Fits.split_eq (hx : x.Fits rest) :
    Segment.split (x.text ++ rest) = x.segment :: Segment.split rest := by
  obtain ⟨ys, hys, hmap, -⟩ := exists_cut rest
  obtain ⟨zs, hzs, hmap', -⟩ := exists_cut (x.text ++ rest)
  obtain rfl : zs = x :: ys := hzs.unique (hys.cons hx)
  rw [← hmap', ← hmap, List.map_cons]

/-- What the scan of a text begins with. -/
theorem Piece.Fits.ofSegments_eq (hx : x.Fits rest) (pos : Position) :
    Scan.ofSegments pos (Segment.split (x.text ++ rest)) =
      ⟨(x.token? pos).toList ++
          (Scan.ofSegments (pos.advance x.text) (Segment.split rest)).tokens,
        (x.error? pos).toList ++
          (Scan.ofSegments (pos.advance x.text) (Segment.split rest)).errors⟩ := by
  rw [hx.split_eq, Scan.ofSegments_cons hx]

/-! ### Texts before a blank -/

/-- What begins a text ends before a given place or goes beyond it. -/
theorem prefix_or_reaches {v cs rest : List Char} {c : Char} (h : v <+: cs ++ c :: rest) :
    v <+: cs ∨ cs ++ [c] <+: v := by
  rcases List.prefix_or_prefix_of_prefix h (List.prefix_append cs _) with hv | ⟨w, rfl⟩
  · exact .inl hv
  · cases w with
    | nil => exact .inl ⟨[], by simp⟩
    | cons d w =>
      obtain ⟨rfl, -⟩ := List.cons_prefix_cons.mp ((List.prefix_append_right_inj cs).mp h)
      exact .inr ⟨w, by simp⟩

namespace Pattern

variable {p : Pattern} {c : Char} {v w u r cs : List Char}

/-- **Characters that separate words** stand in a newline, in blanks, in strings and in comments
only. -/
theorem Matches.of_separator (h : p.Matches w) (hc : Blank c ∨ c = '\n') (hw : c ∈ w) :
    p = .newline ∨ p = .blanks ∨ p = .string ∨ p = .comment := by
  have hletter : ¬ Letter c := by rcases hc with (rfl | rfl | rfl) | rfl <;> decide
  have hdigit : ¬ Digit c := by rcases hc with (rfl | rfl | rfl) | rfl <;> decide
  cases p with
  | newline => exact .inl rfl
  | blanks => exact .inr (.inl rfl)
  | string => exact .inr (.inr (.inl rfl))
  | comment => exact .inr (.inr (.inr rfl))
  | word =>
    obtain ⟨d, ds, rfl, hd, hds⟩ := h
    rcases List.mem_cons.mp hw with rfl | hmem
    · exact absurd hd hletter
    · exact ((hds _ hmem).elim hletter hdigit).elim
  | float =>
    obtain ⟨ds, es, rfl, hds, hes⟩ := h
    rcases List.mem_append.mp hw with hmem | hmem
    · exact absurd (hds.2 _ hmem) hdigit
    · rcases List.mem_cons.mp hmem with rfl | hmem
      · exact absurd hc (by decide)
      · exact absurd (hes.2 _ hmem) hdigit
  | integer => exact absurd (h.2 _ hw) hdigit
  | quote =>
    obtain rfl := List.mem_singleton.mp (h ▸ hw)
    exact absurd hc (by decide)
  | sign kind =>
    have hnone : ∀ d ∈ w, ¬ (Blank d ∨ d = '\n') := by cases kind <;> cases h <;> decide
    exact absurd hc (hnone c hw)

/-- Two strings at one place are the same: both end at the first quote. -/
theorem string_unique (hv : Matches .string v) (hw : Matches .string w) (hpre : v <+: cs)
    (hpre' : w <+: cs) : v = w := by
  have hends {u : List Char} (hu : '"' ∉ u) (hpre : '"' :: u ++ ['"'] <+: cs) :
      cs.tail.takeWhile (· ≠ '"') = u := by
    obtain ⟨r, rfl⟩ := hpre
    refine takeWhile_of_ends (c := '"') ⟨r, rfl⟩ (fun d hd => ?_) (by decide)
    exact decide_eq_true fun heq => hu (heq ▸ hd)
  obtain ⟨u, rfl, hu⟩ := hv
  obtain ⟨u', rfl, hu'⟩ := hw
  rw [← hends hu hpre, ← hends hu' hpre']

/-- A string at the place of another text is that text, if that is not just a quote. -/
theorem Matches.length_string_le (h : p.Matches w) (hp : p ≠ .quote) (hv : Matches .string v)
    (hpre : v <+: w ++ r) : v.length ≤ w.length := by
  obtain ⟨c, cs, rfl, hc⟩ := h.opens
  have hopens : Pattern.string.Opens c := Begins.opens ⟨v, hv, hpre⟩
  have hgroup : p.group = 4 := hc.group_eq.trans hopens.group_eq.symm
  rcases eq_quoted_of_group hgroup with rfl | rfl
  · exact (congrArg List.length (string_unique hv h hpre (List.prefix_append _ r))).le
  · exact absurd rfl hp

/-- A comment goes on up to the end of its line. -/
theorem Longest.comment_stops (h : Longest .comment w (c :: r)) : c = '\n' := by
  by_contra hc
  obtain ⟨cs, rfl, hcs⟩ := h.matched
  have hlonger : Matches .comment ('/' :: '/' :: (cs ++ [c])) := by
    refine ⟨cs ++ [c], rfl, fun hmem => ?_⟩
    rcases List.mem_append.mp hmem with hmem | hmem
    · exact hcs hmem
    · exact hc (List.mem_singleton.mp hmem).symm
  have hle := h.longest _ _ hlonger ⟨r, by simp⟩
  simp only [List.length_cons, List.length_append] at hle
  omega

/-- Where a sign is the longest text no comment begins, and a blank does not make it begin. -/
theorem Longest.not_comment {kind : Kind} (h : Longest (.sign kind) w (u ++ r))
    (hv : Matches .comment v) : ¬ w ++ u ++ [' '] <+: v := by
  intro hpre
  obtain ⟨cs, rfl, -⟩ := hv
  have hsign : kind.sign? = some w := h.matched
  cases w with
  | nil => exact h.matched.ne_nil rfl
  | cons c w =>
    obtain ⟨rfl, htail⟩ := List.cons_prefix_cons.mp hpre
    obtain rfl : w = [] := by
      cases kind <;> cases hsign
      rfl
    cases u with
    | nil => exact absurd (List.cons_prefix_cons.mp htail).1 (by decide)
    | cons d u =>
      obtain ⟨rfl, -⟩ := List.cons_prefix_cons.mp htail
      have hle := h.longest .comment ['/', '/'] ⟨[], rfl, List.not_mem_nil⟩ ⟨u ++ r, rfl⟩
      exact absurd hle (by decide)

/-- **The longest text stays the longest where the text behind it is cut short by a blank.**  Blanks
would go on, and so would a comment whose line has not ended. -/
theorem Longest.before_blank (h : p.Longest w (u ++ r)) (hp : p ≠ .quote) (hblanks : p ≠ .blanks)
    (hcomment : p = .comment → '\n' ∈ u) (r' : List Char) : p.Longest w (u ++ ' ' :: r') where
  matched := h.matched
  longest q v hv hpre := by
    have hsplit : v <+: (w ++ u) ++ ' ' :: r' := by rwa [List.append_assoc]
    rcases prefix_or_reaches hsplit with hshort | hreach
    · refine h.longest q v hv (hshort.trans ?_)
      rw [← List.append_assoc]
      exact List.prefix_append _ r
    have hgroup : q.group = p.group := by
      obtain ⟨c, cs, rfl, hc⟩ := h.matched.opens
      rw [(Begins.opens ⟨v, hv, hpre⟩ : q.Opens c).group_eq, hc.group_eq]
    rcases hv.of_separator (.inl (.inl rfl)) (hreach.subset (by simp)) with rfl | rfl | rfl | rfl
    · exact absurd (hreach.subset (by simp : ' ' ∈ _)) (by rw [show v = ['\n'] from hv]; decide)
    · exact absurd (eq_blanks_of_group hgroup.symm) hblanks
    · exact h.matched.length_string_le hp hv hpre
    · rcases eq_sign_of_group hgroup.symm with rfl | ⟨kind, rfl⟩
      · obtain ⟨cs, rfl, hcs⟩ := hv
        have hline : '\n' ∈ '/' :: '/' :: cs := hreach.subset (by simp [hcomment rfl])
        simp only [List.mem_cons, hcs, or_false] at hline
        exact absurd hline (by decide)
      · exact absurd hreach (h.not_comment hv)

end Pattern

end StackListing
