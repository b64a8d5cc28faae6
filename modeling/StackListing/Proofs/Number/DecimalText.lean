import StackListing.Number.Reading
import StackListing.Proofs.Number.Rounding

/-!
# Decimal texts

The text of a number writes a decimal number, in one of four layouts.  `decimalValue` is that number
without any rounding, and it is the same for all layouts of the same digits.  It rounds to the
number that was printed, so different numbers of the format have different texts
(`magnitudeText_injective`).
-/

namespace StackListing

namespace Number

/-! ### The number that a text writes -/

/-- The digits behind a point, and the text behind them. -/
def fraction : List Char → List Char × List Char
  | '.' :: cs => (cs.takeWhile Char.isDigit, cs.dropWhile Char.isDigit)
  | cs => ([], cs)

/-- **The number that a decimal text writes,** as it stands. -/
def decimalValue (cs : List Char) : ℚ :=
  let after := (fraction (cs.dropWhile Char.isDigit)).1
  let rest := (fraction (cs.dropWhile Char.isDigit)).2
  value (cs.takeWhile Char.isDigit ++ after) * 10 ^ ((exponent? rest).getD 0 - after.length)

theorem value_zeros_append (n : Nat) (cs : List Char) :
    value (List.replicate n '0' ++ cs) = value cs := by
  show Nat.ofDigitChars 10 _ 0 = Nat.ofDigitChars 10 _ 0
  rw [Nat.ofDigitChars_append, Nat.ofDigitChars_replicate_zero, Nat.mul_zero]

theorem value_append_zeros (cs : List Char) (n : Nat) :
    value (cs ++ List.replicate n '0') = 10 ^ n * value cs := by
  show Nat.ofDigitChars 10 _ 0 = _ * Nat.ofDigitChars 10 _ 0
  rw [Nat.ofDigitChars_append, Nat.ofDigitChars_replicate_zero]

theorem isDigit_zeros (n : Nat) : ∀ c ∈ List.replicate n '0', c.isDigit = true := by
  intro c hc
  rw [List.eq_of_mem_replicate hc]
  decide

theorem value_toDigits (n : Nat) : value (Nat.toDigits 10 n) = n := Nat.ofDigitChars_ten_toDigits

section Layouts

variable {before after rest : List Char} (hbefore : ∀ c ∈ before, c.isDigit = true)
include hbefore

theorem decimalValue_point (hafter : ∀ c ∈ after, c.isDigit = true)
    (hrest : ∀ c ∈ rest.head?, c.isDigit = false) :
    decimalValue (before ++ '.' :: (after ++ rest)) =
      value (before ++ after) * 10 ^ ((exponent? rest).getD 0 - after.length) := by
  have htake : (before ++ '.' :: (after ++ rest)).takeWhile Char.isDigit = before := by
    rw [List.takeWhile_append_of_pos hbefore, List.takeWhile_cons_of_neg (by decide),
      List.append_nil]
  have hdrop : (before ++ '.' :: (after ++ rest)).dropWhile Char.isDigit =
      '.' :: (after ++ rest) := by
    rw [List.dropWhile_append_of_pos hbefore, List.dropWhile_cons_of_neg (by decide)]
  have hfraction : fraction ('.' :: (after ++ rest)) = (after, rest) := by
    rw [fraction, List.takeWhile_append_of_pos hafter, List.dropWhile_append_of_pos hafter]
    cases rest with
    | nil => simp
    | cons c cs =>
      have hc : ¬ c.isDigit = true := by simp [hrest c rfl]
      rw [List.takeWhile_cons_of_neg hc, List.dropWhile_cons_of_neg hc, List.append_nil]
  simp only [decimalValue, htake, hdrop, hfraction]

theorem decimalValue_plain (hafter : ∀ c ∈ after, c.isDigit = true) :
    decimalValue (before ++ '.' :: after) =
      value (before ++ after) * 10 ^ (-(after.length : Int)) := by
  have hpoint : decimalValue (before ++ '.' :: (after ++ [])) = _ :=
    decimalValue_point hbefore hafter (by simp)
  rwa [List.append_nil, exponent?, Option.getD_some, zero_sub] at hpoint

theorem decimalValue_exponent (cs : List Char) : decimalValue (before ++ 'e' :: cs) =
    value before * 10 ^ ((exponent? ('e' :: cs)).getD 0) := by
  have htake : (before ++ 'e' :: cs).takeWhile Char.isDigit = before := by
    rw [List.takeWhile_append_of_pos hbefore, List.takeWhile_cons_of_neg (by decide),
      List.append_nil]
  have hdrop : (before ++ 'e' :: cs).dropWhile Char.isDigit = 'e' :: cs := by
    rw [List.dropWhile_append_of_pos hbefore, List.dropWhile_cons_of_neg (by decide)]
  have hfraction : fraction ('e' :: cs) = ([], 'e' :: cs) := rfl
  simp only [decimalValue, htake, hdrop, hfraction, List.append_nil, List.length_nil,
    Nat.cast_zero, sub_zero]

end Layouts

/-! ### Exponents -/

theorem isDigit_toDigits (n : Nat) : ∀ c ∈ Nat.toDigits 10 n, c.isDigit = true :=
  fun _ hc => Nat.isDigit_of_mem_toDigits (by decide) (by decide) hc

/-- The text of an integer: digits, behind a minus sign if it is negative. -/
theorem toList_toString_int (n : Int) : (toString n).toList =
    if 0 ≤ n then Nat.toDigits 10 n.toNat else '-' :: Nat.toDigits 10 (-n).toNat := by
  rw [Int.toString_eq_repr, Int.repr_eq_if]
  split_ifs <;> simp [Nat.repr_eq_ofList_toDigits]

theorem whole?_toDigits (negative : Bool) (n : Nat) (cs : List Char)
    (h : sign cs = (negative, Nat.toDigits 10 n)) :
    whole? cs = some (if negative then -(n : Int) else n) := by
  have hall : (Nat.toDigits 10 n).all Char.isDigit = true :=
    List.all_eq_true.mpr (isDigit_toDigits n)
  unfold whole?
  rw [h]
  simp [Nat.toDigits_ne_nil, hall, value_toDigits]

/-- **The text of an integer reads back.** -/
theorem whole?_toString (n : Int) : whole? (toString n).toList = some n := by
  rw [toList_toString_int]
  split_ifs with hn
  · obtain ⟨c, cs, hcs⟩ := List.exists_cons_of_ne_nil (Nat.toDigits_ne_nil (n := n.toNat) (b := 10))
    have hsign : sign (Nat.toDigits 10 n.toNat) = (false, Nat.toDigits 10 n.toNat) := by
      have hc : c.isDigit = true := isDigit_toDigits n.toNat c (hcs ▸ List.mem_cons_self)
      rw [hcs]
      unfold sign
      split
      · rename_i heq
        cases heq
        cases hc
      · rename_i heq
        cases heq
        cases hc
      · rfl
    rw [whole?_toDigits false _ _ hsign]
    simp [hn]
  · rw [whole?_toDigits true (-n).toNat _ rfl]
    simp
    omega

end Number

namespace Binary64

open Number

/-! ### Layouts -/

/-- The exponent behind the letter `e`. -/
theorem exponent?_toString (n : Int) : exponent? ('e' :: (toString n).toList) = some n := by
  rw [exponent?, if_pos (.inl rfl), whole?_toString]

/-- **The layouts of the same digits write the same number.** -/
theorem decimalValue_layout {digits : List Char} (hne : digits ≠ [])
    (hdigits : ∀ c ∈ digits, c.isDigit = true) (power : Int) :
    decimalValue (layout digits power) = value digits * 10 ^ power := by
  unfold layout
  dsimp only
  split_ifs with hfar hone hsmall hinside
  · have hlength : digits.length = 1 := by
      have := List.length_pos_of_ne_nil hne
      omega
    rw [List.append_nil, List.take_of_length_le hone, decimalValue_exponent hdigits,
      exponent?_toString, Option.getD_some]
    congr 2
    omega
  · obtain ⟨c, cs, rfl⟩ := List.exists_cons_of_ne_nil hne
    obtain ⟨hc, hcs⟩ := List.forall_mem_cons.mp hdigits
    have htext (rest : List Char) :
        (c :: cs).take 1 ++ '.' :: (c :: cs).tail ++ rest = [c] ++ '.' :: (cs ++ rest) := by simp
    rw [htext, decimalValue_point (by simpa using hc) hcs (by simp), exponent?_toString,
      Option.getD_some, List.singleton_append, List.length_cons]
    congr 2
    omega
  · show decimalValue (List.replicate 1 '0' ++ '.' :: (List.replicate _ '0' ++ digits)) = _
    rw [decimalValue_plain (isDigit_zeros 1)
        (List.forall_mem_append.mpr ⟨isDigit_zeros _, hdigits⟩),
      ← List.append_assoc, List.replicate_append_replicate,
      value_zeros_append, List.length_append, List.length_replicate]
    congr 2
    omega
  · rw [decimalValue_plain (fun c hc => hdigits c (List.mem_of_mem_take hc))
        fun c hc => hdigits c (List.mem_of_mem_drop hc),
      List.take_append_drop, List.length_drop]
    congr 2
    omega
  · obtain ⟨n, rfl⟩ : ∃ n : Nat, power = n := ⟨power.toNat, by omega⟩
    show decimalValue (digits ++ List.replicate n '0' ++ '.' :: List.replicate 1 '0') = _
    rw [decimalValue_plain (List.forall_mem_append.mpr ⟨hdigits, isDigit_zeros n⟩)
        (isDigit_zeros 1),
      List.append_assoc, List.replicate_append_replicate,
      value_append_zeros, List.length_replicate]
    push_cast
    rw [zpow_neg, zpow_one, zpow_natCast, pow_succ]
    field_simp

/-! ### Texts of numbers -/

/-- **The text of a number writes a real that rounds to it.** -/
theorem rounds_magnitudeText (u : Nat) :
    Rounds u (decimalValue (magnitudeText u).toList * (2 * unitsPerOne)) := by
  unfold magnitudeText
  split_ifs with hu
  · subst hu
    have hzero : decimalValue "0.0".toList = 0 := by
      have hpoint : decimalValue (['0'] ++ '.' :: ['0']) = _ :=
        decimalValue_plain (isDigit_zeros 1) (isDigit_zeros 1)
      simpa [value] using hpoint
    have hends : endsIncluded 0 = true ∧ lowerEnd 0 = 0 := by decide
    rw [hzero, Rounds, if_pos hends.1, hends.2, zero_mul]
    exact ⟨Nat.cast_zero.le, Nat.cast_nonneg _⟩
  · have hreads := readsBack_iff.mp (readsBack_shortest (Nat.pos_of_ne_zero hu))
    rw [String.toList_ofList, decimalValue_layout Nat.toDigits_ne_nil (isDigit_toDigits _),
      value_toDigits]
    exact hreads

/-- **Different numbers of the format have different texts.** -/
theorem magnitudeText_injective {u v : Nat} (hu : Representable u) (hv : Representable v)
    (h : magnitudeText u = magnitudeText v) : u = v :=
  (rounds_magnitudeText u).unique hu hv (h ▸ rounds_magnitudeText v)

/-! ### Characters of texts -/

/-- The characters of numbers. -/
def Numeric (c : Char) : Prop := c.isDigit = true ∨ c ∈ ['.', 'e', '-']

/-- The text has only characters of numbers, begins with a digit and is not all digits. -/
structure Marked (cs : List Char) : Prop where
  numeric : ∀ c ∈ cs, Numeric c
  begins : ∃ c rest, cs = c :: rest ∧ c.isDigit = true
  mark : ∃ c ∈ cs, c.isDigit = false

theorem marked_of_mark {before rest : List Char} {c : Char} (hne : before ≠ [])
    (hbefore : ∀ d ∈ before, d.isDigit = true) (hc : c ∈ ['.', 'e'])
    (hrest : ∀ d ∈ rest, Numeric d) : Marked (before ++ c :: rest) where
  numeric := by
    have hc' : Numeric c := .inr (List.mem_append_left ['-'] hc)
    exact List.forall_mem_append.mpr
      ⟨fun d hd => .inl (hbefore d hd), List.forall_mem_cons.mpr ⟨hc', hrest⟩⟩
  begins := by
    obtain ⟨d, ds, rfl⟩ := List.exists_cons_of_ne_nil hne
    exact ⟨d, ds ++ c :: rest, rfl, hbefore d List.mem_cons_self⟩
  mark := by
    refine ⟨c, by simp, ?_⟩
    simp only [List.mem_cons, List.not_mem_nil, or_false] at hc
    rcases hc with rfl | rfl <;> decide

theorem numeric_toString (n : Int) : ∀ c ∈ (toString n).toList, Numeric c := by
  rw [toList_toString_int]
  split_ifs
  · exact fun c hc => .inl (isDigit_toDigits _ c hc)
  · exact List.forall_mem_cons.mpr
      ⟨.inr (by decide), fun c hc => .inl (isDigit_toDigits _ c hc)⟩

theorem marked_layout {digits : List Char} (hne : digits ≠ [])
    (hdigits : ∀ c ∈ digits, c.isDigit = true) (power : Int) : Marked (layout digits power) := by
  have hnumeric : ∀ c ∈ digits, Numeric c := fun c hc => .inl (hdigits c hc)
  have htake {n : Nat} (hn : 0 < n) : digits.take n ≠ [] ∧
      ∀ c ∈ digits.take n, c.isDigit = true := by
    refine ⟨?_, fun c hc => hdigits c (List.mem_of_mem_take hc)⟩
    rw [Ne, List.take_eq_nil_iff]
    rintro (rfl | hnil)
    · cases hn
    · exact hne hnil
  unfold layout
  dsimp only
  split_ifs with hfar hone hsmall hinside
  · rw [List.append_nil]
    exact marked_of_mark (htake (by decide)).1 (htake (by decide)).2 (by decide)
      (numeric_toString _)
  · rw [List.append_assoc, List.cons_append]
    refine marked_of_mark (htake (by decide)).1 (htake (by decide)).2 (by decide) ?_
    refine List.forall_mem_append.mpr ⟨fun c hc => hnumeric c (List.mem_of_mem_tail hc), ?_⟩
    exact List.forall_mem_cons.mpr ⟨.inr (by decide), numeric_toString _⟩
  · show Marked (['0'] ++ '.' :: (List.replicate _ '0' ++ digits))
    exact marked_of_mark (by decide) (isDigit_zeros 1) (by decide)
      (List.forall_mem_append.mpr ⟨fun c hc => .inl (isDigit_zeros _ c hc), hnumeric⟩)
  · refine marked_of_mark (htake (by omega)).1 (htake (by omega)).2 (by decide) ?_
    exact fun c hc => hnumeric c (List.mem_of_mem_drop hc)
  · exact marked_of_mark (by simp [hne])
      (List.forall_mem_append.mpr ⟨hdigits, isDigit_zeros _⟩) (by decide)
      fun c hc => .inl (isDigit_zeros 1 c hc)

theorem marked_magnitudeText (u : Nat) : Marked (magnitudeText u).toList := by
  unfold magnitudeText
  split_ifs
  · show Marked (['0'] ++ '.' :: ['0'])
    exact marked_of_mark (by decide) (isDigit_zeros 1) (by decide)
      fun c hc => .inl (isDigit_zeros 1 c hc)
  · rw [String.toList_ofList]
    exact marked_layout Nat.toDigits_ne_nil (isDigit_toDigits _) _

end Binary64

end StackListing
