import Mathlib.Data.Nat.Digits.Defs
import StackListing.Expr.Code
import StackListing.Proofs.Number.DecimalText
import StackListing.Proofs.Parsing.Agree
import StackListing.Proofs.Printing.Parts

/-!
# The values of number literals

An integer literal is any number of digits, and it stands for the number that they write in base ten
(`decimal`), leading zeros or not.  That number goes unchanged through the parser and the generator
if it is in range: the instruction that loads it is written with its numeral, which has no leading
zeros (`IsNumeral`).  A number out of range is a complaint about the literal.  A float literal is
always read, however large or small its number is (`tokenize_numbers`).
-/

namespace StackListing

/-! ### Numbers in base ten -/

/-- **The number that digits write in base ten.** -/
def decimal (w : List Char) : Nat := Nat.ofDigits 10 (w.reverse.map fun c => c.toNat - '0'.toNat)

/-- **The numeral of a number:** its digits, the first of which is zero in the numeral of zero
only. -/
structure IsNumeral (w : List Char) (n : Nat) : Prop where
  digits : Digits w
  value : decimal w = n
  lead : w.head? = some '0' → w = ['0']

/-- Reading digits one by one gives the number that they write. -/
theorem value_eq_decimal (w : List Char) : Number.value w = decimal w := by
  induction w using List.reverseRecOn with
  | nil => rfl
  | append_singleton w c ih =>
    have hvalue : Number.value (w ++ [c]) = 10 * Number.value w + (c.toNat - '0'.toNat) :=
      List.foldl_append
    have hdecimal : decimal (w ++ [c]) = (c.toNat - '0'.toNat) + 10 * decimal w := by
      rw [decimal, List.reverse_append, List.reverse_singleton, List.singleton_append,
        List.map_cons, Nat.ofDigits_cons, decimal]
    rw [hvalue, hdecimal, ih, Nat.add_comm]

/-- The digits of a number do not begin with zero, unless it is zero. -/
theorem toDigits_lead (n : Nat) (h : (Nat.toDigits 10 n).head? = some '0') :
    Nat.toDigits 10 n = ['0'] := by
  induction n using Nat.strong_induction_on with
  | _ n ih =>
    by_cases hn : n < 10
    · rw [Nat.toDigits_of_lt_base hn] at h ⊢
      exact congrArg (· :: []) (Option.some.inj h)
    · have hle : 10 ≤ n := Nat.le_of_not_lt hn
      rw [Nat.toDigits_of_base_le (by decide) hle, List.head?_append_of_ne_nil _ Nat.toDigits_ne_nil]
        at h
      -- the digits of the tenth would be those of zero
      have hzero := congrArg Number.value (ih (n / 10) (by omega) h)
      rw [Number.value_toDigits] at hzero
      have hvalue : Number.value ['0'] = 0 := rfl
      omega

theorem isNumeral_toDigits (n : Nat) : IsNumeral (Nat.toDigits 10 n) n where
  digits := ⟨Nat.toDigits_ne_nil, fun c hc => isDigit_iff.mp (Number.isDigit_toDigits n c hc)⟩
  value := by rw [← value_eq_decimal, Number.value_toDigits]
  lead := toDigits_lead n

/-! ### Reading and loading -/

/-- Digits write an integer if their number is in range, and otherwise none. -/
theorem readInteger_of_digits {s : String} (hs : Digits s.toList) :
    Number.readInteger? s =
      if decimal s.toList ≤ 2147483647 then some (decimal s.toList : Int) else none := by
  have hmax : Number.integerMax = (2147483647 : Nat) := rfl
  split_ifs with hle
  · refine (readInteger_eq_some_iff hs).mpr ⟨?_, ?_⟩
    · rw [value_eq_decimal]
    · rw [hmax]
      exact Int.ofNat_le.mpr hle
  · refine Option.eq_none_iff_forall_ne_some.mpr fun n hn => hle ?_
    obtain ⟨rfl, hrange⟩ := (readInteger_eq_some_iff hs).mp hn
    rw [value_eq_decimal, hmax] at hrange
    exact Int.ofNat_le.mp hrange

/-- Digits around a point write a float. -/
theorem exists_readFloat {s : String} (hs : Pattern.float.Matches s.toList) :
    ∃ x, Number.readFloat? s = some x := by
  rw [readFloat_eq_decimal hs]
  obtain ⟨ds, es, htext, hds, hes⟩ := hs
  have hbefore : ∀ d ∈ ds, d.isDigit = true := fun d hd => isDigit_iff.mpr (hds.2 d hd)
  have hafter : ∀ d ∈ es, d.isDigit = true := fun d hd => isDigit_iff.mpr (hes.2 d hd)
  have htake : s.toList.takeWhile Char.isDigit = ds := by
    rw [htext]
    exact takeWhile_of_ends ⟨es, by simp⟩ hbefore (by decide : Char.isDigit '.' = false)
  have hdrop : s.toList.dropWhile Char.isDigit = '.' :: es := by
    rw [htext, List.dropWhile_append_of_pos hbefore, List.dropWhile_cons_of_neg (by decide)]
  have hend : es.dropWhile Char.isDigit = [] := List.dropWhile_eq_nil_iff.mpr hafter
  unfold Number.decimal?
  rw [htake, hdrop]
  dsimp only
  rw [if_neg fun h => hds.1 h.1]
  exact ⟨_, Option.map_eq_some_iff.mpr ⟨0, congrArg Number.exponent? hend, rfl⟩⟩

/-- The code of an integer is one instruction, which is written with the numeral. -/
theorem Expr.code_integer (n : Nat) (p : Position) (k : Nat) :
    ∃ i : Instruction, (Expr.literal (.integer n) p).code k = [.noted i "integer literal"] ∧
      ∃ w, IsNumeral w n ∧ i.text = "mov eax, " ++ String.ofList w := by
  refine ⟨_, rfl, Nat.toDigits 10 n, isNumeral_toDigits n, ?_⟩
  have htext : toString (n : Int) = String.ofList (Nat.toDigits 10 n) := Nat.repr_eq_ofList_toDigits
  show "mov " ++ "eax" ++ ", " ++ toString (n : Int) = _
  rw [htext]
  rfl

/-- The state behind the current token. -/
def ParseState.advanced (s : ParseState) : ParseState := ⟨s.stream.advance, s.errors⟩

namespace Parse

variable {s : ParseState}

theorem primary_integer (hkind : s.stream.current.kind = .integerLiteral) {n : Int}
    (hn : Number.readInteger? s.stream.current.value = some n) :
    primary s = .ok (.literal (.integer n) s.stream.current.position) s.advanced := by
  unfold primary
  rw [advance_bind]
  simp only [hkind, hn]
  rfl

theorem primary_badInteger (hkind : s.stream.current.kind = .integerLiteral)
    (hnone : Number.readInteger? s.stream.current.value = none) :
    primary s =
      .error ⟨.badNumber s.stream.current.value, s.stream.current.position⟩ s.advanced := by
  unfold primary
  rw [advance_bind]
  simp only [hkind, hnone]
  rfl

theorem primary_float (hkind : s.stream.current.kind = .floatLiteral) {x : Binary64}
    (hx : Number.readFloat? s.stream.current.value = some x) :
    primary s = .ok (.literal (.float x) s.stream.current.position) s.advanced := by
  unfold primary
  rw [advance_bind]
  simp only [hkind, hx]
  rfl

end Parse

/-- **Number literals keep their values.**  An integer literal of a source consists of digits.
Wherever the parser reads it, the result is the number that they write in base ten, if that is at
most 2147483647, and the code of this constant is one instruction, `mov eax, ` and the numeral of
the number; otherwise the result is a complaint about the literal, at its place.  A float literal of
a source is read as a float. -/
theorem tokenize_numbers (source : String) {t : Token} (ht : t ∈ (tokenize source).tokens) :
    (t.kind = .integerLiteral → Digits t.value.toList ∧
      ∀ s : ParseState, s.stream.current = t →
        (decimal t.value.toList ≤ 2147483647 →
          Parse.primary s =
            .ok (.literal (.integer (decimal t.value.toList)) t.position) s.advanced ∧
          ∀ k, ∃ i : Instruction,
            (Expr.literal (.integer (decimal t.value.toList)) t.position).code k =
              [.noted i "integer literal"] ∧
            ∃ w, IsNumeral w (decimal t.value.toList) ∧ i.text = "mov eax, " ++ String.ofList w) ∧
        (2147483647 < decimal t.value.toList →
          Parse.primary s = .error ⟨.badNumber t.value, t.position⟩ s.advanced)) ∧
    (t.kind = .floatLiteral → ∀ s : ParseState, s.stream.current = t →
      ∃ x, Parse.primary s = .ok (.literal (.float x) t.position) s.advanced) := by
  have hformed := tokenize_wellFormed source t ht
  constructor
  · intro hkind
    have hdigits := hformed.integer hkind
    have hread := readInteger_of_digits hdigits
    refine ⟨hdigits, fun s hs => ⟨fun hle => ?_, fun hlt => ?_⟩⟩
    · rw [if_pos hle] at hread
      subst hs
      exact ⟨Parse.primary_integer hkind hread, Expr.code_integer _ _⟩
    · rw [if_neg (Nat.not_le_of_lt hlt)] at hread
      subst hs
      exact Parse.primary_badInteger hkind hread
  · intro hkind s hs
    obtain ⟨x, hx⟩ := exists_readFloat (hformed.float hkind)
    subst hs
    exact ⟨x, Parse.primary_float hkind hx⟩

/-- The greatest integer with zeros before it, the next integer, and a float. -/
def boundaryNumbers : String := "0002147483647 2147483648 0.5"

/-- The state of a parser before one token. -/
def ParseState.before (t : Token) : ParseState := ⟨⟨[], [t], ⟨.endOfInput, "", t.position⟩, []⟩, []⟩

theorem tokenize_numbers_boundary :
    (∃ t ∈ (tokenize boundaryNumbers).tokens, decimal t.value.toList = 2147483647 ∧
      Parse.primary (.before t) =
        .ok (.literal (.integer 2147483647) t.position) (ParseState.before t).advanced) ∧
    (∃ t ∈ (tokenize boundaryNumbers).tokens, t.value = "2147483648" ∧
      Parse.primary (.before t) =
        .error ⟨.badNumber t.value, t.position⟩ (ParseState.before t).advanced) ∧
    ∃ t ∈ (tokenize boundaryNumbers).tokens, t.kind = .floatLiteral ∧
      ∃ x, Parse.primary (.before t) =
        .ok (.literal (.float x) t.position) (ParseState.before t).advanced := by
  have hgreatest : ⟨.integerLiteral, "0002147483647", ⟨1, 1⟩⟩ ∈ (tokenize boundaryNumbers).tokens := by
    decide +kernel
  have hnext : ⟨.integerLiteral, "2147483648", ⟨1, 15⟩⟩ ∈ (tokenize boundaryNumbers).tokens := by
    decide +kernel
  have hfloat : ⟨.floatLiteral, "0.5", ⟨1, 26⟩⟩ ∈ (tokenize boundaryNumbers).tokens := by
    decide +kernel
  have hvalue : decimal "0002147483647".toList = 2147483647 := by decide +kernel
  have hvalue' : decimal "2147483648".toList = 2147483648 := by decide +kernel
  refine ⟨⟨_, hgreatest, hvalue, ?_⟩, ⟨_, hnext, rfl, ?_⟩, ⟨_, hfloat, rfl, ?_⟩⟩
  · have hread := ((((tokenize_numbers boundaryNumbers hgreatest).1 rfl).2
      (.before _) rfl).1 hvalue.le).1
    rw [hvalue] at hread
    exact hread
  · refine (((tokenize_numbers boundaryNumbers hnext).1 rfl).2 (.before _) rfl).2 ?_
    rw [hvalue']
    decide
  · exact (tokenize_numbers boundaryNumbers hfloat).2 rfl (.before _) rfl

end StackListing
