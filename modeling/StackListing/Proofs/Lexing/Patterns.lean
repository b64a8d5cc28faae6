import StackListing.Diagnostic
import StackListing.Token
import Mathlib.Data.List.Infix

/-!
# The patterns of the language's words

The lexical grammar, said without a scanner.  A `Pattern` is a set of texts, and a text is cut into
pieces by *maximal munch*: every piece is the longest text of any pattern that stands at its place,
or a single character with which no text of a pattern begins, or everything from a quote on that has
no partner.

* `Pattern.Matches`: the texts of a pattern.
* `Pattern.Longest`: a text at the head of another that is as long as any match there.
* `IsCut`: the cut of a text into pieces.
* `place`: the line and the column behind a text.

A text belongs to one pattern only (`Pattern.Matches.unique`), and so there is one cut of a text at
most (`IsCut.unique`).
-/

namespace StackListing

section Decidable

variable {P : Char → Prop} [DecidablePred P] (w : List Char)

/- What holds of the characters of a text is decided along the text.  Said here, since a property of
all characters may be decidable too, by going through every one that there is. -/

instance decidableForallMem : Decidable (∀ c ∈ w, P c) := List.decidableBAll P w

instance decidableExistsMem : Decidable (∃ c ∈ w, P c) := List.decidableBEx P w

end Decidable

/-- A letter of a word. -/
def Letter (c : Char) : Prop := c = '_' ∨ ('a' ≤ c ∧ c ≤ 'z') ∨ ('A' ≤ c ∧ c ≤ 'Z')

/-- A decimal digit. -/
def Digit (c : Char) : Prop := '0' ≤ c ∧ c ≤ '9'

/-- A character that separates words on one line. -/
def Blank (c : Char) : Prop := c = ' ' ∨ c = '\t' ∨ c = '\r'

instance (c : Char) : Decidable (Letter c) := inferInstanceAs (Decidable (_ ∨ _))

instance (c : Char) : Decidable (Digit c) := inferInstanceAs (Decidable (_ ∧ _))

instance (c : Char) : Decidable (Blank c) := inferInstanceAs (Decidable (_ ∨ _))

theorem Letter.not_digit {c : Char} (h : Letter c) : ¬ Digit c := by
  rintro ⟨-, h9⟩
  rcases h with rfl | ⟨ha, -⟩ | ⟨hA, -⟩
  · exact absurd h9 (by decide)
  · exact absurd (Char.le_trans ha h9) (by decide)
  · exact absurd (Char.le_trans hA h9) (by decide)

/-- One or more digits. -/
def Digits (w : List Char) : Prop := w ≠ [] ∧ ∀ c ∈ w, Digit c

instance (w : List Char) : Decidable (Digits w) := inferInstanceAs (Decidable (_ ∧ _))

/-- The punctuation that a kind of token is written with. -/
def Kind.sign? : Kind → Option (List Char)
  | .openBracket => some ['[']
  | .closeBracket => some [']']
  | .openCurly => some ['\x7b']
  | .closeCurly => some ['\x7d']
  | .openParen => some ['(']
  | .closeParen => some [')']
  | .equal => some ['=', '=']
  | .notEqual => some ['!', '=']
  | .bang => some ['!']
  | .assign => some ['=']
  | .lessEqual => some ['<', '=']
  | .less => some ['<']
  | .greaterEqual => some ['>', '=']
  | .greater => some ['>']
  | .barBar => some ['|', '|']
  | .ampAmp => some ['&', '&']
  | .semicolon => some [';']
  | .comma => some [',']
  | .plus => some ['+']
  | .dash => some ['-']
  | .slash => some ['/']
  | .star => some ['*']
  | .percent => some ['%']
  | _ => none

theorem Kind.sign?_injective {k k' : Kind} {w : List Char} (h : k.sign? = some w)
    (h' : k'.sign? = some w) : k = k' := by
  have hall : ∀ k ∈ Kind.all, ∀ k' ∈ Kind.all, k.sign? = k'.sign? → k.sign?.isSome → k = k' := by
    decide +kernel
  exact hall k k.mem_all k' k'.mem_all (h.trans h'.symm) (by rw [h]; rfl)

/-- The classes of texts that the language knows. -/
inductive Pattern where
  | word
  | float
  | integer
  | newline
  | blanks
  | string
  /-- A quote by itself. -/
  | quote
  | comment
  | sign (kind : Kind)
deriving DecidableEq

namespace Pattern

/-- The texts of a pattern. -/
def Matches : Pattern → List Char → Prop
  | .word, w => ∃ c cs, w = c :: cs ∧ Letter c ∧ ∀ d ∈ cs, Letter d ∨ Digit d
  | .float, w => ∃ ds es, w = ds ++ '.' :: es ∧ Digits ds ∧ Digits es
  | .integer, w => Digits w
  | .newline, w => w = ['\n']
  | .blanks, w => w ≠ [] ∧ ∀ c ∈ w, Blank c
  | .string, w => ∃ cs, w = '"' :: cs ++ ['"'] ∧ '"' ∉ cs
  | .quote, w => w = ['"']
  | .comment, w => ∃ cs, w = '/' :: '/' :: cs ∧ '\n' ∉ cs
  | .sign kind, w => kind.sign? = some w

/-- Digits around a point are told by the first character that is no digit. -/
theorem float_matches_iff {w : List Char} :
    Matches .float w ↔ Digits (w.takeWhile (Digit ·)) ∧
      (w.dropWhile (Digit ·)).head? = some '.' ∧ Digits (w.dropWhile (Digit ·)).tail := by
  constructor
  · rintro ⟨ds, es, rfl, hds, hes⟩
    have hdigit : ∀ d ∈ ds, decide (Digit d) = true := fun d hd => decide_eq_true (hds.2 d hd)
    rw [List.takeWhile_append_of_pos hdigit, List.dropWhile_append_of_pos hdigit,
      List.takeWhile_cons_of_neg (by decide), List.dropWhile_cons_of_neg (by decide),
      List.append_nil]
    exact ⟨hds, rfl, hes⟩
  · rintro ⟨hds, hpoint, hes⟩
    obtain ⟨es, hdrop⟩ := List.head?_eq_some_iff.mp hpoint
    rw [hdrop] at hes
    refine ⟨w.takeWhile (Digit ·), es, ?_, hds, hes⟩
    rw [← hdrop, List.takeWhile_append_dropWhile]

theorem string_matches_iff {w : List Char} :
    Matches .string w ↔ w = '"' :: w.tail.dropLast ++ ['"'] ∧ '"' ∉ w.tail.dropLast := by
  constructor
  · rintro ⟨cs, rfl, hcs⟩
    simpa using hcs
  · rintro ⟨hw, hcs⟩
    exact ⟨_, hw, hcs⟩

theorem comment_matches_iff {w : List Char} :
    Matches .comment w ↔ w = '/' :: '/' :: w.drop 2 ∧ '\n' ∉ w.drop 2 := by
  constructor
  · rintro ⟨cs, rfl, hcs⟩
    exact ⟨rfl, hcs⟩
  · rintro ⟨hw, hcs⟩
    exact ⟨_, hw, hcs⟩

theorem word_matches_cons {c : Char} {cs : List Char} :
    Matches .word (c :: cs) ↔ Letter c ∧ ∀ d ∈ cs, Letter d ∨ Digit d := by
  constructor
  · rintro ⟨_, _, h, hword⟩
    cases h
    exact hword
  · exact fun h => ⟨c, cs, rfl, h⟩

instance : (p : Pattern) → (w : List Char) → Decidable (p.Matches w)
  | .word, [] => isFalse nofun
  | .word, _ :: _ => decidable_of_iff _ word_matches_cons.symm
  | .float, _ => decidable_of_iff _ float_matches_iff.symm
  | .integer, w => inferInstanceAs (Decidable (Digits w))
  | .newline, w => inferInstanceAs (Decidable (w = ['\n']))
  | .blanks, w => inferInstanceAs (Decidable (w ≠ [] ∧ ∀ c ∈ w, Blank c))
  | .string, _ => decidable_of_iff _ string_matches_iff.symm
  | .quote, w => inferInstanceAs (Decidable (w = ['"']))
  | .comment, _ => decidable_of_iff _ comment_matches_iff.symm
  | .sign kind, w => inferInstanceAs (Decidable (kind.sign? = some w))

/-- The patterns in the order in which they are tried. -/
def order : List Pattern :=
  [.word, .float, .integer, .newline, .blanks, .string, .quote, .comment, .sign .openBracket,
    .sign .closeBracket, .sign .openCurly, .sign .closeCurly, .sign .openParen, .sign .closeParen,
    .sign .equal, .sign .notEqual, .sign .bang, .sign .assign, .sign .lessEqual, .sign .less,
    .sign .greaterEqual, .sign .greater, .sign .barBar, .sign .ampAmp, .sign .semicolon,
    .sign .comma, .sign .plus, .sign .dash, .sign .slash, .sign .star, .sign .percent]

/-- A text of the pattern stands at the head of `cs`. -/
def Begins (p : Pattern) (cs : List Char) : Prop := ∃ w, p.Matches w ∧ w <+: cs

/-- `w` is of the pattern, and where `rest` follows it no pattern has a longer text. -/
structure Longest (p : Pattern) (w rest : List Char) : Prop where
  matched : p.Matches w
  longest : ∀ q v, Matches q v → v <+: w ++ rest → v.length ≤ w.length

/-- The pattern is the first in the order that has a text at the head of `cs`. -/
def FirstAt (p : Pattern) (cs : List Char) : Prop :=
  p.Begins cs ∧ ∃ earlier later, order = earlier ++ p :: later ∧ ∀ q ∈ earlier, ¬ q.Begins cs

/-! ### The first character of a text -/

/-- The characters with which the texts of a pattern begin. -/
def Opens : Pattern → Char → Prop
  | .word, c => Letter c
  | .float, c | .integer, c => Digit c
  | .newline, c => c = '\n'
  | .blanks, c => Blank c
  | .string, c | .quote, c => c = '"'
  | .comment, c => c = '/'
  | .sign kind, c => ∃ cs, kind.sign? = some (c :: cs)

variable {p q : Pattern} {c : Char} {w rest : List Char}

/-- A text of a pattern is not empty, and it begins as texts of the pattern do. -/
theorem Matches.opens (h : p.Matches w) : ∃ c cs, w = c :: cs ∧ p.Opens c := by
  cases p with
  | word =>
    obtain ⟨c, cs, rfl, hc, -⟩ := h
    exact ⟨c, cs, rfl, hc⟩
  | float =>
    obtain ⟨ds, es, rfl, ⟨hne, hd⟩, -⟩ := h
    obtain ⟨d, ds, rfl⟩ := List.exists_cons_of_ne_nil hne
    exact ⟨d, ds ++ '.' :: es, rfl, hd d List.mem_cons_self⟩
  | integer =>
    obtain ⟨d, ds, rfl⟩ := List.exists_cons_of_ne_nil h.1
    exact ⟨d, ds, rfl, h.2 d List.mem_cons_self⟩
  | newline => exact ⟨'\n', [], h, rfl⟩
  | blanks =>
    obtain ⟨c, cs, rfl⟩ := List.exists_cons_of_ne_nil h.1
    exact ⟨c, cs, rfl, h.2 c List.mem_cons_self⟩
  | string =>
    obtain ⟨cs, rfl, -⟩ := h
    exact ⟨'"', cs ++ ['"'], rfl, rfl⟩
  | quote => exact ⟨'"', [], h, rfl⟩
  | comment =>
    obtain ⟨cs, rfl, -⟩ := h
    exact ⟨'/', '/' :: cs, rfl, rfl⟩
  | sign kind =>
    cases w with
    | nil => cases kind <;> cases h
    | cons c cs => exact ⟨c, cs, rfl, cs, h⟩

theorem Matches.ne_nil (h : p.Matches w) : w ≠ [] := by
  obtain ⟨c, cs, rfl, -⟩ := h.opens
  exact List.cons_ne_nil c cs

/-- Where a pattern has a text, the first character is one that its texts begin with. -/
theorem Begins.opens {cs : List Char} (h : p.Begins (c :: cs)) : p.Opens c := by
  obtain ⟨w, hw, hpre⟩ := h
  obtain ⟨d, ds, rfl, hd⟩ := hw.opens
  obtain ⟨rfl, -⟩ := List.cons_prefix_cons.mp hpre
  exact hd

/-- Punctuation begins with none of the characters that other words begin with. -/
theorem Opens.of_sign {kind : Kind} (h : (sign kind).Opens c) :
    ¬ Letter c ∧ ¬ Digit c ∧ c ≠ '\n' ∧ ¬ Blank c ∧ c ≠ '"' := by
  obtain ⟨cs, h⟩ := h
  cases kind <;> cases h <;> decide

/-- The group of a pattern: where the texts of two patterns begin alike, their groups are one. -/
def group : Pattern → Nat
  | .word => 0
  | .float | .integer => 1
  | .newline => 2
  | .blanks => 3
  | .string | .quote => 4
  | .comment | .sign _ => 5

/-- The group of the patterns whose texts begin with a character. -/
def groupOf (c : Char) : Nat :=
  if Letter c then 0 else if Digit c then 1 else if c = '\n' then 2 else if Blank c then 3
  else if c = '"' then 4 else 5

theorem Opens.group_eq (h : p.Opens c) : p.group = groupOf c := by
  cases p with
  | word => exact (if_pos h).symm
  | float => exact ((if_neg fun hl => Letter.not_digit hl h).trans (if_pos h)).symm
  | integer => exact ((if_neg fun hl => Letter.not_digit hl h).trans (if_pos h)).symm
  | newline => subst h; decide
  | blanks => rcases h with rfl | rfl | rfl <;> decide
  | string => subst h; decide
  | quote => subst h; decide
  | comment => subst h; decide
  | sign kind =>
    obtain ⟨hletter, hdigit, hline, hblank, hquote⟩ := h.of_sign
    simp [group, groupOf, hletter, hdigit, hline, hblank, hquote]

theorem eq_word_of_group (h : p.group = 0) : p = .word := by
  cases p <;> simp [group] at h ⊢

theorem eq_number_of_group (h : p.group = 1) : p = .float ∨ p = .integer := by
  cases p <;> simp [group] at h ⊢

theorem eq_newline_of_group (h : p.group = 2) : p = .newline := by
  cases p <;> simp [group] at h ⊢

theorem eq_blanks_of_group (h : p.group = 3) : p = .blanks := by
  cases p <;> simp [group] at h ⊢

theorem eq_quoted_of_group (h : p.group = 4) : p = .string ∨ p = .quote := by
  cases p <;> simp [group] at h ⊢

theorem eq_sign_of_group (h : p.group = 5) : p = .comment ∨ ∃ kind, p = .sign kind := by
  cases p <;> simp [group] at h ⊢

/-! ### One pattern for a text -/

theorem not_integer_of_float (h : Matches .float w) : ¬ Matches .integer w := by
  obtain ⟨ds, es, rfl, -⟩ := h
  rintro ⟨-, hdigits⟩
  exact absurd (hdigits '.' (by simp)) (by decide)

theorem not_quote_of_string (h : Matches .string w) : ¬ Matches .quote w := by
  obtain ⟨cs, rfl, -⟩ := h
  simp [Matches]

theorem not_sign_of_comment {kind : Kind} (h : Matches .comment w) : ¬ Matches (.sign kind) w := by
  obtain ⟨cs, rfl, -⟩ := h
  intro hsign
  cases kind <;> cases hsign

/-- **A text belongs to one pattern only.** -/
theorem Matches.unique (hp : p.Matches w) (hq : q.Matches w) : p = q := by
  obtain ⟨c, cs, rfl, hpc⟩ := hp.opens
  have hqc : q.Opens c := Begins.opens ⟨_, hq, List.prefix_rfl⟩
  have hgroup : q.group = p.group := hqc.group_eq.trans hpc.group_eq.symm
  cases p with
  | word => exact (eq_word_of_group hgroup).symm
  | newline => exact (eq_newline_of_group hgroup).symm
  | blanks => exact (eq_blanks_of_group hgroup).symm
  | float =>
    rcases eq_number_of_group hgroup with rfl | rfl
    · rfl
    · exact absurd hq (not_integer_of_float hp)
  | integer =>
    rcases eq_number_of_group hgroup with rfl | rfl
    · exact absurd hp (not_integer_of_float hq)
    · rfl
  | string =>
    rcases eq_quoted_of_group hgroup with rfl | rfl
    · rfl
    · exact absurd hq (not_quote_of_string hp)
  | quote =>
    rcases eq_quoted_of_group hgroup with rfl | rfl
    · exact absurd hp (not_quote_of_string hq)
    · rfl
  | comment =>
    rcases eq_sign_of_group hgroup with rfl | ⟨kind, rfl⟩
    · rfl
    · exact absurd hq (not_sign_of_comment hp)
  | sign kind =>
    rcases eq_sign_of_group hgroup with rfl | ⟨kind', rfl⟩
    · exact absurd hp (not_sign_of_comment hq)
    · exact congrArg sign (Kind.sign?_injective hp hq)

theorem Longest.begins (h : p.Longest w rest) : p.Begins (w ++ rest) :=
  ⟨w, h.matched, List.prefix_append w rest⟩

end Pattern

/-! ### Cuts -/

/-- A piece of a text. -/
inductive Piece where
  /-- A text of a pattern. -/
  | lexeme (p : Pattern) (w : List Char)
  /-- A character with which nothing begins. -/
  | stray (c : Char)
  /-- A quote without a partner, and the rest of the text. -/
  | unclosed (w : List Char)
deriving DecidableEq

namespace Piece

/-- The text that a piece takes. -/
def text : Piece → List Char
  | lexeme _ w => w
  | stray c => [c]
  | unclosed w => w

/-- **The rule of maximal munch:** the piece is what must be taken where `rest` follows it. -/
inductive Fits : Piece → List Char → Prop
  | lexeme {p : Pattern} {w rest : List Char} (hp : p ≠ .quote) (h : p.Longest w rest) :
    Fits (lexeme p w) rest
  | stray {c : Char} {rest : List Char} (h : ∀ p : Pattern, ¬ p.Begins (c :: rest)) :
    Fits (stray c) rest
  | unclosed {w : List Char} (h : '"' ∉ w) : Fits (unclosed ('"' :: w)) []

variable {x y : Piece} {rest rest' : List Char}

theorem Fits.ne_nil (h : x.Fits rest) : x.text ≠ [] := by
  cases h with
  | lexeme hp h => exact h.matched.ne_nil
  | stray h => exact List.cons_ne_nil _ _
  | unclosed h => exact List.cons_ne_nil _ _

/-- Only the lone quote has a text where a quote has no partner. -/
theorem eq_quote_of_begins {p : Pattern} {w : List Char} (hw : '"' ∉ w)
    (h : p.Begins ('"' :: w)) : p = .quote := by
  have hgroup : p.group = 4 := h.opens.group_eq
  rcases Pattern.eq_quoted_of_group hgroup with rfl | rfl
  · obtain ⟨v, ⟨cs, rfl, -⟩, hpre⟩ := h
    obtain ⟨-, hpre⟩ := List.cons_prefix_cons.mp hpre
    exact absurd (hpre.subset (by simp)) hw
  · rfl

theorem quote_begins (w : List Char) : Pattern.quote.Begins ('"' :: w) :=
  ⟨['"'], rfl, w, rfl⟩

/-- **At one place one piece fits.** -/
theorem Fits.unique (hx : x.Fits rest) (hy : y.Fits rest')
    (h : x.text ++ rest = y.text ++ rest') : x = y := by
  cases hx with
  | @lexeme p w _ hp hw =>
    have hbegins := hw.begins
    cases hy with
    | @lexeme q v _ hq hv =>
      simp only [text] at h
      have hle := hw.longest q v hv.matched (h ▸ List.prefix_append v rest')
      have hge := hv.longest p w hw.matched (h ▸ List.prefix_append w rest)
      obtain rfl := List.append_inj_left h (Nat.le_antisymm hge hle)
      rw [hw.matched.unique hv.matched]
    | stray hnone =>
      simp only [text, List.singleton_append] at h
      exact absurd (h ▸ hbegins) (hnone p)
    | unclosed hquote =>
      simp only [text, List.append_nil] at h
      exact absurd (eq_quote_of_begins hquote (h ▸ hbegins)) hp
  | @stray c _ hnone =>
    simp only [text, List.singleton_append] at h
    cases hy with
    | @lexeme q v _ hq hv => exact absurd (h ▸ hv.begins) (hnone q)
    | stray hnone' => rw [(List.cons.inj h).1]
    | unclosed hquote =>
      obtain ⟨rfl, -⟩ := List.cons.inj h
      exact absurd (quote_begins rest) (hnone .quote)
  | @unclosed w hquote =>
    simp only [text, List.append_nil] at h
    cases hy with
    | lexeme hq hv => exact absurd (eq_quote_of_begins hquote (h ▸ hv.begins)) hq
    | stray hnone =>
      obtain ⟨rfl, -⟩ := List.cons.inj h
      exact absurd (quote_begins rest') (hnone .quote)
    | unclosed hquote' => rw [h, List.append_nil]

end Piece

/-- **A cut of a text:** consecutive pieces that make up the text, each of them the one that fits
where it stands. -/
structure IsCut (cs : List Char) (pieces : List Piece) : Prop where
  whole : pieces.flatMap Piece.text = cs
  nonempty : ∀ x ∈ pieces, x.text ≠ []
  fits : ∀ before x after, pieces = before ++ x :: after → x.Fits (after.flatMap Piece.text)

namespace IsCut

variable {x : Piece} {cs : List Char} {xs ys : List Piece}

theorem nil : IsCut [] [] where
  whole := rfl
  nonempty := fun x hx => absurd hx List.not_mem_nil
  fits := fun before x after h => by simp at h

theorem cons (hx : x.Fits cs) (hxs : IsCut cs xs) : IsCut (x.text ++ cs) (x :: xs) where
  whole := by rw [List.flatMap_cons, hxs.whole]
  nonempty := List.forall_mem_cons.mpr ⟨hx.ne_nil, hxs.nonempty⟩
  fits := by
    intro before y after h
    cases before with
    | nil =>
      obtain ⟨rfl, rfl⟩ := List.cons.inj h
      rw [hxs.whole]
      exact hx
    | cons z before => exact hxs.fits before y after (List.cons.inj h).2

theorem exists_fits (h : IsCut cs xs) (hx : x ∈ xs) : ∃ rest, x.Fits rest := by
  obtain ⟨before, after, hsplit⟩ := List.append_of_mem hx
  exact ⟨_, h.fits before x after hsplit⟩

theorem head (h : IsCut cs (x :: xs)) : x.Fits (xs.flatMap Piece.text) := h.fits [] x xs rfl

theorem tail (h : IsCut cs (x :: xs)) : IsCut (xs.flatMap Piece.text) xs where
  whole := rfl
  nonempty := fun y hy => h.nonempty y (List.mem_cons_of_mem x hy)
  fits := fun before y after heq => h.fits (x :: before) y after (by rw [heq]; rfl)

/-- **A text has one cut at most.** -/
theorem unique (hx : IsCut cs xs) (hy : IsCut cs ys) : xs = ys := by
  induction xs generalizing cs ys with
  | nil =>
    cases ys with
    | nil => rfl
    | cons y ys =>
      have hempty : (y :: ys).flatMap Piece.text = [] := hy.whole.trans hx.whole.symm
      exact absurd (List.append_eq_nil_iff.mp hempty).1 (hy.nonempty y List.mem_cons_self)
  | cons x xs ih =>
    cases ys with
    | nil =>
      have hempty : (x :: xs).flatMap Piece.text = [] := hx.whole.trans hy.whole.symm
      exact absurd (List.append_eq_nil_iff.mp hempty).1 (hx.nonempty x List.mem_cons_self)
    | cons y ys =>
      have hboth : x.text ++ xs.flatMap Piece.text = y.text ++ ys.flatMap Piece.text :=
        hx.whole.trans hy.whole.symm
      obtain rfl := hx.head.unique hy.head hboth
      have hrest := List.append_cancel_left hboth
      rw [ih hx.tail (hrest ▸ hy.tail)]

end IsCut

/-! ### Places -/

/-- The line and the column behind a text: one more than its newlines, and one more than the
characters behind the last of them. -/
def place (before : List Char) : Position :=
  ⟨1 + before.count '\n', 1 + (before.reverse.takeWhile (· ≠ '\n')).length⟩

/-- The pieces with the places where they begin, the first behind the text `before`. -/
def located (before : List Char) : List Piece → List (Position × Piece)
  | [] => []
  | x :: xs => (place before, x) :: located (before ++ x.text) xs

theorem map_snd_located (before : List Char) (xs : List Piece) :
    (located before xs).map Prod.snd = xs := by
  induction xs generalizing before with
  | nil => rfl
  | cons x xs ih => rw [located, List.map_cons, ih]

/-- The token that a piece at a place is: a word is a keyword or an identifier, and a string goes
without its quotes.  Blanks and comments are none. -/
def Piece.token? (pos : Position) : Piece → Option Token
  | .lexeme .word w => some ⟨Kind.ofWord (String.ofList w), String.ofList w, pos⟩
  | .lexeme .float w => some ⟨.floatLiteral, String.ofList w, pos⟩
  | .lexeme .integer w => some ⟨.integerLiteral, String.ofList w, pos⟩
  | .lexeme .newline w => some ⟨.newline, String.ofList w, pos⟩
  | .lexeme .string w => some ⟨.stringLiteral, String.ofList w.tail.dropLast, pos⟩
  | .lexeme (.sign kind) w => some ⟨kind, String.ofList w, pos⟩
  | _ => none

/-- The complaint about a piece at a place. -/
def Piece.error? (pos : Position) : Piece → Option Diagnostic
  | .lexeme _ _ => none
  | .stray c => some ⟨.unexpectedCharacter c, pos⟩
  | .unclosed _ => some ⟨.unterminatedString, pos⟩

/-- The order of places in a text. -/
def Position.Before (p q : Position) : Prop :=
  p.line < q.line ∨ (p.line = q.line ∧ p.column < q.column)

end StackListing
