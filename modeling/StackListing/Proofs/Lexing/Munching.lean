import StackListing.Token.Segment
import StackListing.Proofs.Lexing.Patterns
import Mathlib.Data.List.TakeWhile

/-!
# The scanner takes the longest match

The scanner looks at the first character and decides what to read; the grammar of words asks for the
longest text of any pattern.  The two agree: at every place the scanner takes the one piece that
fits there (`Segment.munched_first`), and its pattern is the first in the order that has a text
there, so that trying the patterns in order never finds a shorter word.  Hence the segments of a
text are those of a cut (`exists_cut`).

Patterns whose texts begin with different characters never compete, so each kind of first character
is a case of its own, and within it only the patterns of one group are compared.
-/

namespace StackListing

/-! ### Characters -/

theorem Segment.isLetter_iff {c : Char} : Segment.isLetter c = true ↔ Letter c := by
  have halpha : c.isAlpha = (c.isUpper || c.isLower) := rfl
  have hupper : c.isUpper = decide ('A' ≤ c ∧ c ≤ 'Z') := rfl
  have hlower : c.isLower = (decide ('a' ≤ c) && decide (c ≤ 'z')) := rfl
  simp only [Segment.isLetter, halpha, hupper, hlower, Bool.or_eq_true, Bool.and_eq_true,
    decide_eq_true_eq, Letter]
  tauto

theorem isDigit_iff {c : Char} : c.isDigit = true ↔ Digit c := by
  simp [Char.isDigit, Digit, Char.le_def]

theorem Segment.isWordChar_iff {c : Char} :
    Segment.isWordChar c = true ↔ Letter c ∨ Digit c := by
  rw [← Segment.isLetter_iff, ← isDigit_iff]
  simp only [Segment.isWordChar, Segment.isLetter, Char.isAlphanum, Bool.or_eq_true]
  tauto

theorem Segment.isSpace_iff {c : Char} : Segment.isSpace c = true ↔ Blank c := by
  simp [Segment.isSpace, Blank, or_assoc]

/-- A run of characters at the head of a text is no longer than the longest such run. -/
theorem length_le_takeWhile {P : Char → Bool} {v cs : List Char} (hpre : v <+: cs)
    (hv : ∀ c ∈ v, P c = true) : v.length ≤ (cs.takeWhile P).length := by
  obtain ⟨r, rfl⟩ := hpre
  rw [List.takeWhile_append_of_pos hv, List.length_append]
  exact Nat.le_add_right _ _

/-- A run up to a character that ends it is the longest run. -/
theorem takeWhile_of_ends {P : Char → Bool} {v cs : List Char} {c : Char}
    (hpre : v ++ [c] <+: cs) (hv : ∀ d ∈ v, P d = true) (hc : P c = false) :
    cs.takeWhile P = v := by
  obtain ⟨r, rfl⟩ := hpre
  rw [List.append_assoc, List.takeWhile_append_of_pos hv, List.singleton_append,
    List.takeWhile_cons_of_neg (by simp [hc]), List.append_nil]

/-! ### What the scanner takes -/

/-- The class of the segment that a text of the pattern is. -/
def Pattern.cls : Pattern → List Char → SegmentClass
  | .word, w => .token (Kind.ofWord (String.ofList w))
  | .float, _ => .token .floatLiteral
  | .integer, _ => .token .integerLiteral
  | .newline, _ => .token .newline
  | .blanks, _ | .comment, _ => .skipped
  | .string, _ => .token .stringLiteral
  | .quote, _ => .unclosed
  | .sign kind, _ => .token kind

/-- The segment that a piece is. -/
def Piece.segment : Piece → Segment
  | .lexeme p w => ⟨p.cls w, w⟩
  | .stray c => ⟨.stray c, [c]⟩
  | .unclosed w => ⟨.unclosed, w⟩

theorem Piece.text_segment (x : Piece) : x.segment.text = x.text := by cases x <;> rfl

namespace Segment

/-- The segment is the piece that fits at the head of `cs`; if it is of a pattern, then of the first
that has a text there. -/
def Munched (s : Segment) (cs : List Char) : Prop :=
  ∃ x rest, Piece.segment x = s ∧ cs = x.text ++ rest ∧ x.Fits rest ∧
    ∀ p w, x = .lexeme p w → p.FirstAt cs

/-- A text of a pattern is taken if it is as long as those of the patterns that begin alike, and if
no earlier one of them has a text there. -/
theorem Munched.of_group {p : Pattern} {w rest cs : List Char} (htext : w ++ rest = cs)
    (hp : p ≠ .quote) (hm : p.Matches w)
    (hlongest : ∀ (q : Pattern) v, q.group = p.group → q.Matches v → v <+: cs → v.length ≤ w.length)
    (earlier later : List Pattern) (horder : Pattern.order = earlier ++ p :: later)
    (hfirst : ∀ q ∈ earlier, q.group = p.group → ¬ q.Begins cs) : Munched ⟨p.cls w, w⟩ cs := by
  subst htext
  have hgroup (q : Pattern) (hq : q.Begins (w ++ rest)) : q.group = p.group := by
    obtain ⟨c, cs, rfl, hc⟩ := hm.opens
    rw [hq.opens.group_eq, hc.group_eq]
  refine ⟨.lexeme p w, rest, rfl, rfl, .lexeme hp ⟨hm, ?_⟩, ?_⟩
  · intro q v hv hpre
    exact hlongest q v (hgroup q ⟨v, hv, hpre⟩) hv hpre
  · intro q v h
    cases h
    refine ⟨⟨w, hm, List.prefix_append w rest⟩, earlier, later, horder, fun q hq hbegins => ?_⟩
    exact hfirst q hq (hgroup q hbegins) hbegins

variable {c : Char} {cs : List Char}

theorem munched_word (hc : Letter c) : Munched (word c cs) (c :: cs) := by
  have hm : Pattern.word.Matches (c :: cs.takeWhile isWordChar) :=
    ⟨c, _, rfl, hc, fun d hd => isWordChar_iff.mp (List.mem_takeWhile_imp hd)⟩
  refine .of_group (congrArg (c :: ·) List.takeWhile_append_dropWhile) (by decide) hm ?_ [] _ rfl
    (by simp)
  intro q v hq hv hpre
  obtain rfl := Pattern.eq_word_of_group hq
  obtain ⟨d, ds, rfl, -, hds⟩ := hv
  have hle := length_le_takeWhile (List.cons_prefix_cons.mp hpre).2 fun e he =>
    isWordChar_iff.mpr (hds e he)
  simpa using hle

theorem munched_newline : Munched ⟨.token .newline, ['\n']⟩ ('\n' :: cs) := by
  refine .of_group (p := .newline) List.singleton_append (by decide) rfl ?_
    [.word, .float, .integer] _ rfl (by simp [Pattern.group])
  intro q v hq hv hpre
  obtain rfl := Pattern.eq_newline_of_group hq
  exact le_of_eq (congrArg List.length hv)

theorem munched_blanks (hc : Blank c) :
    Munched ⟨.skipped, c :: cs.takeWhile isSpace⟩ (c :: cs) := by
  have hm : Pattern.blanks.Matches (c :: cs.takeWhile isSpace) :=
    ⟨List.cons_ne_nil _ _, List.forall_mem_cons.mpr
      ⟨hc, fun d hd => isSpace_iff.mp (List.mem_takeWhile_imp hd)⟩⟩
  refine .of_group (p := .blanks) (congrArg (c :: ·) List.takeWhile_append_dropWhile) (by decide) hm
    ?_ [.word, .float, .integer, .newline] _ rfl (by simp [Pattern.group])
  intro q v hq hv hpre
  obtain rfl := Pattern.eq_blanks_of_group hq
  have hle := length_le_takeWhile hpre fun e he => isSpace_iff.mpr (hv.2 e he)
  rwa [List.takeWhile_cons_of_pos (isSpace_iff.mpr hc)] at hle

theorem munched_string : Munched (string cs) ('"' :: cs) := by
  unfold string
  by_cases hquote : '"' ∈ cs
  · rw [if_pos (List.contains_iff_mem.mpr hquote)]
    obtain ⟨body, rest, rfl, hbody⟩ := List.eq_append_cons_of_mem hquote
    have hends {v : List Char} (hpre : v ++ ['"'] <+: body ++ '"' :: rest) (hv : '"' ∉ v) :
        (body ++ '"' :: rest).takeWhile (· ≠ '"') = v := by
      refine takeWhile_of_ends hpre (fun d hd => ?_) (by simp)
      exact decide_eq_true fun heq => hv (heq ▸ hd)
    rw [hends ⟨rest, by simp⟩ hbody]
    refine .of_group (p := .string) (by simp : _ ++ rest = _) (by decide) ⟨body, rfl, hbody⟩ ?_
      [.word, .float, .integer, .newline, .blanks] _ rfl (by simp [Pattern.group])
    intro q v hq hv hpre
    rcases Pattern.eq_quoted_of_group hq with rfl | rfl
    · -- another string at the same place ends at the same quote
      obtain ⟨cs, rfl, hcs⟩ := hv
      have heq := hends (List.cons_prefix_cons.mp hpre).2 hcs
      rw [← heq, hends ⟨rest, by simp⟩ hbody]
    · rw [congrArg List.length hv]
      simp
  · rw [if_neg (fun h => hquote (List.contains_iff_mem.mp h))]
    refine ⟨.unclosed ('"' :: cs), [], rfl, (List.append_nil _).symm, .unclosed hquote, ?_⟩
    intro p w h
    cases h

theorem length_sign_le {kind : Kind} {w : List Char} (h : kind.sign? = some w) : w.length ≤ 2 := by
  cases kind <;> cases h <;> decide

theorem munched_comment :
    Munched ⟨.skipped, '/' :: ('/' :: cs).takeWhile (· ≠ '\n')⟩ ('/' :: '/' :: cs) := by
  rw [List.takeWhile_cons_of_pos (by decide)]
  refine .of_group (p := .comment)
    (congrArg ('/' :: '/' :: ·) (List.takeWhile_append_dropWhile (l := cs))) (by decide)
    ⟨_, rfl, fun h => by simpa using List.mem_takeWhile_imp h⟩ ?_
    [.word, .float, .integer, .newline, .blanks, .string, .quote] _ rfl (by simp [Pattern.group])
  intro q v hq hv hpre
  rcases Pattern.eq_sign_of_group hq with rfl | ⟨kind, rfl⟩
  · obtain ⟨ds, rfl, hds⟩ := hv
    have hpre' := (List.cons_prefix_cons.mp (List.cons_prefix_cons.mp hpre).2).2
    have hle := length_le_takeWhile (P := (· ≠ '\n')) hpre' fun d hd =>
      decide_eq_true fun heq => hds (heq ▸ hd)
    simpa using hle
  · have hle := length_sign_le hv
    simp only [List.length_cons]
    omega

/-! Numbers: a point belongs to a number exactly if a digit follows it, and then the digits before
it are all the digits there are. -/

/-- What stands behind the digits where a text begins with a number that has a point. -/
theorem dropWhile_of_float {ds es : List Char} (hpre : ds ++ '.' :: es <+: cs) (hds : Digits ds) :
    cs.takeWhile Char.isDigit = ds ∧ ∃ rest, cs.dropWhile Char.isDigit = '.' :: (es ++ rest) := by
  obtain ⟨rest, rfl⟩ := hpre
  have hdigit : ∀ d ∈ ds, d.isDigit = true := fun d hd => isDigit_iff.mpr (hds.2 d hd)
  have hsplit : ds ++ '.' :: es ++ rest = ds ++ '.' :: (es ++ rest) := by simp
  constructor
  · exact takeWhile_of_ends (c := '.') ⟨es ++ rest, by simp⟩ hdigit (by decide)
  · refine ⟨rest, ?_⟩
    rw [hsplit, List.dropWhile_append_of_pos hdigit, List.dropWhile_cons_of_neg (by decide)]

theorem digits_takeWhile (hc : Digit c) : Digits (c :: cs.takeWhile Char.isDigit) :=
  ⟨List.cons_ne_nil _ _, List.forall_mem_cons.mpr
    ⟨hc, fun _ hd => isDigit_iff.mp (List.mem_takeWhile_imp hd)⟩⟩

/-- No run of digits is longer than the one that the scanner takes. -/
theorem length_le_of_digits (hc : Digit c) {v : List Char} (hpre : v <+: c :: cs) (hv : Digits v) :
    v.length ≤ (c :: cs.takeWhile Char.isDigit).length := by
  have hle := length_le_takeWhile hpre fun e he => isDigit_iff.mpr (hv.2 e he)
  rwa [List.takeWhile_cons_of_pos (isDigit_iff.mpr hc)] at hle

theorem munched_integer (hc : Digit c)
    (hnone : ∀ d ds, cs.dropWhile Char.isDigit = '.' :: d :: ds → ¬ Digit d) :
    Munched ⟨.token .integerLiteral, c :: cs.takeWhile Char.isDigit⟩ (c :: cs) := by
  have hfloat : ¬ Pattern.float.Begins (c :: cs) := by
    rintro ⟨v, ⟨ds, es, rfl, hds, hes⟩, hpre⟩
    obtain ⟨-, rest, hdrop⟩ := dropWhile_of_float hpre hds
    obtain ⟨e, es, rfl⟩ := List.exists_cons_of_ne_nil hes.1
    rw [List.dropWhile_cons_of_pos (isDigit_iff.mpr hc)] at hdrop
    exact hnone e (es ++ rest) hdrop (hes.2 e List.mem_cons_self)
  refine .of_group (p := .integer) (congrArg (c :: ·) List.takeWhile_append_dropWhile) (by decide)
    (digits_takeWhile hc) ?_ [.word, .float] _ rfl (by simp [Pattern.group, hfloat])
  intro q v hq hv hpre
  rcases Pattern.eq_number_of_group hq with rfl | rfl
  · exact absurd ⟨v, hv, hpre⟩ hfloat
  · exact length_le_of_digits hc hpre hv

theorem munched_float (hc : Digit c) {d : Char} {ds : List Char} (hd : Digit d)
    (hdrop : cs.dropWhile Char.isDigit = '.' :: d :: ds) :
    Munched ⟨.token .floatLiteral,
      c :: cs.takeWhile Char.isDigit ++ '.' :: d :: ds.takeWhile Char.isDigit⟩ (c :: cs) := by
  have htext : (c :: cs.takeWhile Char.isDigit ++ '.' :: d :: ds.takeWhile Char.isDigit) ++
      ds.dropWhile Char.isDigit = c :: cs := by
    have hcs := List.takeWhile_append_dropWhile (p := Char.isDigit) (l := cs)
    rw [hdrop] at hcs
    have hds := List.takeWhile_append_dropWhile (p := Char.isDigit) (l := ds)
    simp only [List.cons_append, List.append_assoc, hds, hcs]
  refine .of_group (p := .float) htext (by decide)
    ⟨_, _, rfl, digits_takeWhile hc, digits_takeWhile hd⟩ ?_ [.word] _ rfl
    (by simp [Pattern.group])
  intro q v hq hv hpre
  rcases Pattern.eq_number_of_group hq with rfl | rfl
  · obtain ⟨ds', es, rfl, hds', hes⟩ := hv
    obtain ⟨hwhole, rest, hdrop'⟩ := dropWhile_of_float hpre hds'
    rw [List.takeWhile_cons_of_pos (isDigit_iff.mpr hc)] at hwhole
    rw [List.dropWhile_cons_of_pos (isDigit_iff.mpr hc), hdrop] at hdrop'
    have hle := length_le_of_digits hd ⟨rest, (List.cons.inj hdrop').2.symm⟩ hes
    rw [← hwhole]
    simp only [List.length_append, List.length_cons] at hle ⊢
    omega
  · have hle := length_le_of_digits hc hpre hv
    simp only [List.length_append, List.length_cons] at hle ⊢
    omega

theorem munched_number (hc : Digit c) : Munched (number c cs) (c :: cs) := by
  unfold number
  dsimp only
  split
  · rename_i d ds hdrop
    split_ifs with hd
    · exact munched_float hc (isDigit_iff.mp hd) hdrop
    · refine munched_integer hc fun d' ds' hdrop' hd' => hd ?_
      rw [hdrop] at hdrop'
      cases hdrop'
      exact isDigit_iff.mpr hd'
  · rename_i hnone
    exact munched_integer hc fun d ds hdrop _ => hnone d ds hdrop

/-! Punctuation: in the table every mark stands before those that it goes on from, and so the first
entry that stands in the text is the longest. -/

theorem mem_marks_iff {kind : Kind} {w : List Char} :
    (w, kind) ∈ marks ↔ kind.sign? = some w := by
  constructor
  · have hall : ∀ m ∈ marks, m.2.sign? = some m.1 := by decide
    exact hall (w, kind)
  · intro h
    cases kind <;> cases h <;> decide

theorem order_eq : Pattern.order =
    [.word, .float, .integer, .newline, .blanks, .string, .quote, .comment] ++
      marks.map fun m => .sign m.2 := rfl

/-- No mark is the beginning of one behind it. -/
theorem marks_pairwise : marks.Pairwise fun a b => a.1.isPrefixOf b.1 = false := by decide

section Mark

variable {w : List Char} {kind : Kind} {before after : List (List Char × Kind)}
  (hmarks : marks = before ++ (w, kind) :: after) (hpre : w <+: c :: cs)
  (hbefore : ∀ m ∈ before, ¬ m.1 <+: c :: cs)
include hmarks hpre hbefore

theorem length_le_of_mark {v : List Char} {other : Kind} (hv : other.sign? = some v)
    (hprev : v <+: c :: cs) : v.length ≤ w.length := by
  have hmem : (v, other) ∈ marks := mem_marks_iff.mpr hv
  rw [hmarks, List.mem_append, List.mem_cons] at hmem
  rcases hmem with hmem | heq | hmem
  · exact absurd hprev (hbefore _ hmem)
  · cases heq
    rfl
  · have hpair := marks_pairwise
    rw [hmarks, List.pairwise_append, List.pairwise_cons] at hpair
    have hnot := hpair.2.1.1 _ hmem
    rcases List.prefix_or_prefix_of_prefix hprev hpre with h | h
    · exact h.length_le
    · rw [List.isPrefixOf_iff_prefix.mpr h] at hnot
      exact absurd hnot (by decide)

theorem munched_sign (hcomment : ¬ Pattern.comment.Begins (c :: cs)) :
    Munched ⟨.token kind, w⟩ (c :: cs) := by
  have hsign : kind.sign? = some w := mem_marks_iff.mp (hmarks ▸ by simp)
  obtain ⟨rest, htext⟩ := id hpre
  refine .of_group (p := .sign kind) htext (by simp) hsign ?_
    ([.word, .float, .integer, .newline, .blanks, .string, .quote, .comment] ++
      before.map fun m => .sign m.2) (after.map fun m => .sign m.2) ?_ ?_
  · intro q v hq hv hprev
    rcases Pattern.eq_sign_of_group hq with rfl | ⟨other, rfl⟩
    · exact absurd ⟨v, hv, hprev⟩ hcomment
    · exact length_le_of_mark hmarks hpre hbefore hv hprev
  · rw [order_eq, hmarks]
    simp
  · intro q hq hgroup
    rcases List.mem_append.mp hq with hq | hq
    · rcases Pattern.eq_sign_of_group hgroup with rfl | ⟨other, rfl⟩
      · exact hcomment
      · simp at hq
    · obtain ⟨m, hm, rfl⟩ := List.mem_map.mp hq
      rintro ⟨v, hv, hprev⟩
      have hm' : m ∈ marks := hmarks ▸ List.mem_append_left _ hm
      have heq : m.2.sign? = some m.1 := mem_marks_iff.mp hm'
      obtain rfl := Option.some.inj (hv.symm.trans heq)
      exact hbefore m hm hprev

end Mark

theorem munched_mark (hgroup : Pattern.groupOf c = 5)
    (hcomment : ¬ Pattern.comment.Begins (c :: cs)) : Munched (mark c cs) (c :: cs) := by
  unfold mark
  cases hfind : marks.find? (·.1.isPrefixOf (c :: cs)) with
  | none =>
    refine ⟨.stray c, cs, rfl, rfl, .stray fun p hp => ?_, fun p w h => by cases h⟩
    have hp5 : p.group = 5 := hp.opens.group_eq.trans hgroup
    rcases Pattern.eq_sign_of_group hp5 with rfl | ⟨kind, rfl⟩
    · exact hcomment hp
    · obtain ⟨w, hw, hpre⟩ := hp
      exact List.find?_eq_none.mp hfind _ (mem_marks_iff.mpr hw)
        (List.isPrefixOf_iff_prefix.mpr hpre)
  | some m =>
    obtain ⟨hpre, before, after, hmarks, hbefore⟩ := List.find?_eq_some_iff_append.mp hfind
    refine munched_sign hmarks (List.isPrefixOf_iff_prefix.mp hpre) (fun m hm hprem => ?_) hcomment
    have hnot := hbefore m hm
    rw [List.isPrefixOf_iff_prefix.mpr hprem] at hnot
    exact absurd hnot (by decide)

/-- **The scanner takes the piece that fits.** -/
theorem munched_first (c : Char) (cs : List Char) : Munched (first c cs) (c :: cs) := by
  unfold first
  by_cases hletter : isLetter c = true
  · rw [if_pos hletter]
    exact munched_word (isLetter_iff.mp hletter)
  rw [if_neg hletter]
  by_cases hdigit : c.isDigit = true
  · rw [if_pos hdigit]
    exact munched_number (isDigit_iff.mp hdigit)
  rw [if_neg hdigit]
  by_cases hline : c = '\n'
  · rw [if_pos hline, hline]
    exact munched_newline
  rw [if_neg hline]
  by_cases hblank : isSpace c = true
  · rw [if_pos hblank]
    exact munched_blanks (isSpace_iff.mp hblank)
  rw [if_neg hblank]
  by_cases hquote : c = '"'
  · rw [if_pos hquote, hquote]
    exact munched_string
  rw [if_neg hquote]
  by_cases hcomment : c = '/' ∧ cs.head? = some '/'
  · rw [if_pos hcomment]
    obtain ⟨rfl, hhead⟩ := hcomment
    obtain ⟨ds, rfl⟩ := List.head?_eq_some_iff.mp hhead
    exact munched_comment
  rw [if_neg hcomment]
  refine munched_mark ?_ ?_
  · rw [isLetter_iff] at hletter
    rw [isDigit_iff] at hdigit
    rw [isSpace_iff] at hblank
    simp [Pattern.groupOf, hletter, hdigit, hline, hblank, hquote]
  · rintro ⟨v, ⟨ds, rfl, -⟩, rest, htext⟩
    cases htext
    exact hcomment ⟨rfl, rfl⟩

end Segment

/-! ### The cut of a text -/

/-- The pieces whose segments the scanner finds are a cut, and they are of first patterns. -/
theorem exists_cut (cs : List Char) :
    ∃ pieces, IsCut cs pieces ∧ pieces.map Piece.segment = Segment.split cs ∧
      ∀ before p w after, pieces = before ++ Piece.lexeme p w :: after →
        p.FirstAt (w ++ after.flatMap Piece.text) := by
  induction h : cs.length using Nat.strong_induction_on generalizing cs with
  | _ n ih =>
    subst h
    cases cs with
    | nil => exact ⟨[], .nil, Segment.split_nil.symm, fun before p w after h => by simp at h⟩
    | cons c cs =>
      obtain ⟨x, rest, hsegment, htext, hfits, hfirst⟩ := Segment.munched_first c cs
      have hrest : cs.drop ((Segment.first c cs).text.length - 1) = rest := by
        rw [← hsegment, Piece.text_segment]
        obtain ⟨d, ds, hx⟩ := List.exists_cons_of_ne_nil hfits.ne_nil
        rw [hx] at htext ⊢
        obtain ⟨rfl, rfl⟩ := List.cons.inj htext
        simp
      have hlt : rest.length < (c :: cs).length := by
        rw [htext, List.length_append]
        have := List.length_pos_iff.mpr hfits.ne_nil
        omega
      obtain ⟨pieces, hcut, hmap, hall⟩ := ih rest.length hlt rest rfl
      refine ⟨x :: pieces, htext ▸ .cons hfits hcut, ?_, ?_⟩
      · rw [Segment.split_cons, hrest, List.map_cons, hmap, hsegment]
      · intro before p w after heq
        cases before with
        | nil =>
          obtain ⟨rfl, rfl⟩ := List.cons.inj heq
          have := hfirst p w rfl
          rwa [htext, ← hcut.whole] at this
        | cons y before => exact hall before p w after (List.cons.inj heq).2

end StackListing
