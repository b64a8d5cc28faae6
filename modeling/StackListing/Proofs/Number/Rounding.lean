import Mathlib.Algebra.Order.Field.Rat
import Mathlib.Tactic.FieldSimp
import Mathlib.Tactic.Linarith
import Mathlib.Tactic.Ring
import StackListing.Number.Shortest

/-!
# Numbers of the format and the reals around them

A number of units is one of the format if it is a multiple of its gap (`Representable`); rounding
always gives one.  The reals that round to such a number form an interval, and the intervals of
different numbers do not meet: an end that two of them share belongs to the one with the even
significand.  So a number of the format is known once one real is known that rounds to it, and the
digits that are printed for a number are such a real.

Reals are rationals here, counted in half units like the ends of the intervals.
-/

namespace StackListing.Binary64

/-! ### Numbers of the format -/

/-- **The format has a number of `u` units:** its significand fits. -/
def Representable (u : Nat) : Prop := gap u ∣ u

theorem gap_eq (u : Nat) : gap u = 2 ^ (u.log2 - 52) := rfl

theorem gap_pos (u : Nat) : 0 < gap u := Nat.pow_pos (by decide)

/-- A significand of 53 bits, shifted. -/
theorem representable_mul {w : Nat} (hw : w ≤ 2 ^ 53) (j : Nat) : Representable (w * 2 ^ j) := by
  by_cases htop : w = 2 ^ 53
  · rw [htop, ← Nat.pow_add, Representable, gap_eq, Nat.log2_two_pow]
    exact Nat.pow_dvd_pow 2 (by omega)
  · rcases Nat.eq_zero_or_pos w with rfl | hpos
    · simp [Representable]
    · have hlt : w * 2 ^ j < 2 ^ (53 + j) := by
        rw [Nat.pow_add]
        exact Nat.mul_lt_mul_of_pos_right (by omega) (Nat.pow_pos (by decide))
      have hlog : (w * 2 ^ j).log2 < 53 + j :=
        (Nat.log2_lt (by have := Nat.pow_pos (n := j) (show 0 < 2 by decide); positivity)).mpr hlt
      exact (Nat.pow_dvd_pow 2 (by omega)).trans (Dvd.intro_left w rfl)

theorem div_gap_lt (q : Nat) : q / gap q < 2 ^ 53 := by
  rw [gap_eq, Nat.div_lt_iff_lt_mul (Nat.pow_pos (by decide)), ← Nat.pow_add]
  exact Nat.lt_log2_self.trans_le (Nat.pow_le_pow_right (by decide) (by omega))

/-- **Rounding gives a number of the format.** -/
theorem representable_nearest (num den : Nat) : Representable (nearest num den) := by
  have hwhole : num / (den * gap (num / den)) < 2 ^ 53 := by
    rw [← Nat.div_div_eq_div_mul]
    exact div_gap_lt (num / den)
  unfold nearest
  dsimp only
  split_ifs
  · exact representable_mul hwhole _
  · exact representable_mul hwhole.le _

/-- The number is such as digits without a sign write it: infinite, or one of the format. -/
inductive OfDigits : Binary64 → Prop
  | infinite : OfDigits (.infinite false)
  | finite {u : Nat} (h : Representable u) : OfDigits (.finite false u)

theorem ofDigits_ofUnits {u : Nat} (hu : Representable u) : OfDigits (ofUnits false u) := by
  unfold ofUnits
  split_ifs
  · exact .finite hu
  · exact .infinite

theorem ofDigits_ofDecimal (digits : Nat) (exponent : Int) :
    OfDigits (ofDecimal false digits exponent) := by
  unfold ofDecimal
  dsimp only
  split_ifs
  · exact .finite (dvd_zero _)
  · exact .infinite
  · exact ofDigits_ofUnits (representable_nearest _ _)
  · exact ofDigits_ofUnits (representable_nearest _ _)

/-! ### Intervals -/

/-- The real `x`, in half units, rounds to `u` units. -/
def Rounds (u : Nat) (x : ℚ) : Prop :=
  if endsIncluded u then lowerEnd u ≤ x ∧ x ≤ upperEnd u else lowerEnd u < x ∧ x < upperEnd u

theorem lowerEnd_lt {u : Nat} (hu : 0 < u) : lowerEnd u < 2 * u := by
  have hgap := gap_pos u
  unfold lowerEnd
  split_ifs <;> omega

theorem lt_upperEnd (u : Nat) : 2 * u < upperEnd u := by
  have hgap := gap_pos u
  unfold upperEnd
  omega

/-- A multiple of `g` below another is below it by `g` or more. -/
theorem add_le_of_dvd {g a b : Nat} (ha : g ∣ a) (hb : g ∣ b) (h : a < b) : a + g ≤ b := by
  obtain ⟨m, rfl⟩ := ha
  obtain ⟨n, rfl⟩ := hb
  have hmn : m + 1 ≤ n := Nat.lt_of_mul_lt_mul_left h
  calc g * m + g = g * (m + 1) := (Nat.mul_succ g m).symm
    _ ≤ g * n := Nat.mul_le_mul_left g hmn

/-- Multiples of `g` at the distance `g` are not both even multiples. -/
theorem odd_of_add {g a : Nat} (hg : 0 < g) (ha : a / g % 2 = 0) : (a + g) / g % 2 = 1 := by
  rw [Nat.add_div_right a hg]
  omega

/-- The interval of `u` ends before that of `v` begins, and an end that they share belongs to one of
them at most. -/
def Apart (u v : Nat) : Prop :=
  upperEnd u ≤ lowerEnd v ∧
    (upperEnd u = lowerEnd v → endsIncluded u = true → endsIncluded v = false)

theorem apart_of_lt {u v : Nat} (h : upperEnd u < lowerEnd v) : Apart u v :=
  ⟨h.le, fun heq => absurd heq h.ne⟩

/-- Numbers with the same gap, the greater of which is not the first with it. -/
theorem apart_of_gap_eq {u v : Nat} (hu : Representable u) (hv : Representable v) (h : u < v)
    (hgap : gap v = gap u) (hfirst : ¬ (1 < gap v ∧ v = Nat.pow 2 v.log2)) : Apart u v := by
  have hstep : u + gap u ≤ v := add_le_of_dvd hu (hgap ▸ hv) h
  have hlower : lowerEnd v = 2 * v - gap u := by rw [lowerEnd, if_neg hfirst, hgap]
  refine ⟨?_, fun heq hincluded => ?_⟩
  · rw [hlower, upperEnd]
    omega
  · have hnext : v = u + gap u := by
      rw [hlower, upperEnd] at heq
      omega
    have hodd := odd_of_add (gap_pos u) (of_decide_eq_true hincluded)
    rw [← hnext, ← hgap] at hodd
    exact decide_eq_false (by omega)

/-- The numbers from `2 ^ (53 + j)` on to the next power of two. -/
theorem gap_of_log2_eq {v j : Nat} (hj : v.log2 = 53 + j) :
    gap v = 2 * 2 ^ j ∧ 2 ^ v.log2 = 0x20000000000000 * 2 ^ j ∧ 2 ^ v.log2 ≤ v := by
  have hne : v ≠ 0 := by
    rintro rfl
    rw [Nat.log2_zero] at hj
    omega
  refine ⟨?_, by rw [hj, Nat.pow_add], Nat.log2_self_le hne⟩
  rw [gap_eq, hj, ← Nat.pow_succ']
  congr 1
  omega

/-- Numbers just below and above a power of two from which on the gaps are greater. -/
theorem apart_of_log2_next {u v j : Nat} (hu : Representable u) (hv : Representable v)
    (hnear : u.log2 = 52 + j) (hj : v.log2 = 53 + j) : Apart u v := by
  obtain ⟨hgapv, hpower, hle⟩ := gap_of_log2_eq hj
  have hgapu : gap u = 2 ^ j := by rw [gap_eq, hnear, Nat.add_sub_cancel_left]
  have hpos : 0 < 2 ^ j := Nat.pow_pos (by decide)
  have hlt : u < 2 ^ v.log2 := by
    rw [hj, show 53 + j = u.log2 + 1 by omega]
    exact Nat.lt_log2_self
  have hstep : u + 2 ^ j ≤ 2 ^ v.log2 :=
    add_le_of_dvd (hgapu ▸ hu) (hpower ▸ Nat.dvd_mul_left _ _) hlt
  by_cases hfirst : v = 2 ^ v.log2
  · have hlower : lowerEnd v = 2 * v - 2 ^ j := by
      rw [lowerEnd, if_pos ⟨by omega, hfirst⟩, hgapv, Nat.mul_div_cancel_left _ (by decide)]
    refine ⟨?_, fun heq hincluded => ?_⟩
    · rw [hlower, upperEnd]
      omega
    · -- the number below the power has an odd significand
      have hnext : u + gap u = 0x20000000000000 * 2 ^ j := by
        rw [hlower, upperEnd] at heq
        omega
      have hodd := odd_of_add (gap_pos u) (of_decide_eq_true hincluded)
      rw [hnext, hgapu, Nat.mul_div_cancel _ hpos] at hodd
      cases hodd
  · have hnext : 2 ^ v.log2 + gap v ≤ v := by
      refine add_le_of_dvd ?_ hv (by omega)
      rw [gap_eq]
      exact Nat.pow_dvd_pow 2 (Nat.sub_le _ _)
    refine apart_of_lt ?_
    rw [lowerEnd, if_neg fun hc => hfirst hc.2, upperEnd]
    omega

/-- Numbers with a power of two and its half between them. -/
theorem apart_of_log2_far {u v j : Nat} (hfar : u.log2 < 52 + j) (hj : v.log2 = 53 + j) :
    Apart u v := by
  obtain ⟨hgapv, hpower, hle⟩ := gap_of_log2_eq hj
  have hlt : 2 * u < 2 ^ v.log2 := by
    have hu : u < 2 ^ (u.log2 + 1) := Nat.lt_log2_self
    calc 2 * u < 2 * 2 ^ (u.log2 + 1) := by omega
      _ = 2 ^ (u.log2 + 2) := by rw [← Nat.pow_succ']
      _ ≤ 2 ^ v.log2 := Nat.pow_le_pow_right (by decide) (by omega)
  have hgapu : gap u ≤ 2 ^ j := Nat.pow_le_pow_right (by decide) (by omega)
  have hlower : 2 * v - gap v ≤ lowerEnd v := by
    unfold lowerEnd
    split_ifs <;> omega
  refine apart_of_lt ?_
  rw [upperEnd]
  omega

/-- **The intervals of different numbers do not meet.** -/
theorem apart {u v : Nat} (hu : Representable u) (hv : Representable v) (h : u < v) :
    Apart u v := by
  rcases Nat.lt_trichotomy u.log2 v.log2 with hlog | hlog | hlog
  · by_cases hv52 : v.log2 ≤ 52
    · have hgap (w : Nat) (hw : w.log2 ≤ 52) : gap w = 1 := by
        rw [gap_eq, Nat.sub_eq_zero_of_le hw, Nat.pow_zero]
      refine apart_of_gap_eq hu hv h ?_ fun hc => ?_
      · rw [hgap v hv52, hgap u (by omega)]
      · rw [hgap v hv52] at hc
        omega
    · by_cases hnear : u.log2 = 52 + (v.log2 - 53)
      · exact apart_of_log2_next hu hv hnear (by omega)
      · exact apart_of_log2_far (j := v.log2 - 53) (by omega) (by omega)
  · have hgap : gap v = gap u := by rw [gap_eq, gap_eq, hlog]
    refine apart_of_gap_eq hu hv h hgap ?_
    rintro ⟨hone, hpower⟩
    rcases Nat.eq_zero_or_pos u with rfl | hpos
    · rw [hgap] at hone
      exact absurd hone (by decide)
    · have hle : 2 ^ u.log2 ≤ u := Nat.log2_self_le (by omega)
      have hpower' : v = 2 ^ u.log2 := hlog ▸ hpower
      omega
  · have hlt : v < 2 ^ u.log2 := (Nat.log2_lt (by omega)).mp hlog
    have hle : 2 ^ u.log2 ≤ u := Nat.log2_self_le (by rintro rfl; cases hlog)
    omega

/-- **A real rounds to one number of the format.** -/
theorem Rounds.unique {u v : Nat} {x : ℚ} (hu : Representable u) (hv : Representable v)
    (hx : Rounds u x) (hx' : Rounds v x) : u = v := by
  have hle (w : Nat) (hw : Rounds w x) : (lowerEnd w : ℚ) ≤ x ∧ x ≤ upperEnd w ∧
      (endsIncluded w = false → (lowerEnd w : ℚ) < x ∧ x < upperEnd w) := by
    unfold Rounds at hw
    split_ifs at hw with hincluded
    · exact ⟨hw.1, hw.2, fun hfalse => absurd (hincluded.symm.trans hfalse) (by decide)⟩
    · exact ⟨hw.1.le, hw.2.le, fun _ => hw⟩
  have hnot {a b : Nat} (ha : Representable a) (hb : Representable b) (hxa : Rounds a x)
      (hxb : Rounds b x) : ¬ a < b := by
    intro hab
    obtain ⟨hends, hshared⟩ := apart ha hb hab
    obtain ⟨-, hupper, hopen⟩ := hle a hxa
    obtain ⟨hlower, -, hopen'⟩ := hle b hxb
    have hends' : (upperEnd a : ℚ) ≤ lowerEnd b := by exact_mod_cast hends
    have heq : (upperEnd a : ℚ) = lowerEnd b := le_antisymm hends' (hlower.trans hupper)
    cases hincluded : endsIncluded a with
    | false =>
      have := (hopen hincluded).2
      linarith
    | true =>
      have := (hopen' (hshared (by exact_mod_cast heq) hincluded)).1
      linarith
  exact Nat.le_antisymm (Nat.not_lt.mp (hnot hv hu hx' hx)) (Nat.not_lt.mp (hnot hu hv hx hx'))

/-! ### The shortest digits -/

theorem gridStep_eq (k : Int) : 0 < (gridStep k).2 ∧
    ((gridStep k).1 : ℚ) = (10 : ℚ) ^ k * (2 * unitsPerOne) * (gridStep k).2 := by
  unfold gridStep
  split_ifs with hk
  · obtain ⟨n, rfl⟩ := Int.eq_ofNat_of_zero_le hk
    refine ⟨Nat.one_pos, ?_⟩
    rw [Nat.pow_eq, Int.toNat_natCast, zpow_natCast]
    push_cast
    rw [mul_one]
  · obtain ⟨n, rfl⟩ : ∃ n : Nat, k = -n := ⟨(-k).toNat, by omega⟩
    refine ⟨Nat.pow_pos (by decide), ?_⟩
    have hpow : (10 : ℚ) ^ n ≠ 0 := by positivity
    rw [Nat.pow_eq, Int.neg_neg, Int.toNat_natCast, zpow_neg, zpow_natCast]
    push_cast
    rw [mul_right_comm, inv_mul_cancel₀ hpow, one_mul]

/-- What it is for `d * 10 ^ k` to read back, in half units. -/
theorem readsBack_iff {u d : Nat} {k : Int} :
    readsBack u d k = true ↔ Rounds u (d * (10 : ℚ) ^ k * (2 * unitsPerOne)) := by
  obtain ⟨hden, hnum⟩ := gridStep_eq k
  have hden' : (0 : ℚ) < (gridStep k).2 := by exact_mod_cast hden
  have hscaled : ((d * (gridStep k).1 : Nat) : ℚ) =
      d * (10 : ℚ) ^ k * (2 * unitsPerOne) * (gridStep k).2 := by
    rw [Nat.cast_mul, hnum]
    ring
  have hle (a : Nat) : a * (gridStep k).2 ≤ d * (gridStep k).1 ↔
      (a : ℚ) ≤ d * (10 : ℚ) ^ k * (2 * unitsPerOne) := by
    rw [← Nat.cast_le (α := ℚ), hscaled, Nat.cast_mul, mul_le_mul_iff_of_pos_right hden']
  have hge (a : Nat) : d * (gridStep k).1 ≤ a * (gridStep k).2 ↔
      d * (10 : ℚ) ^ k * (2 * unitsPerOne) ≤ (a : ℚ) := by
    rw [← Nat.cast_le (α := ℚ), hscaled, Nat.cast_mul, mul_le_mul_iff_of_pos_right hden']
  unfold readsBack Rounds
  dsimp only
  split_ifs
  · rw [Bool.and_eq_true, decide_eq_true_eq, decide_eq_true_eq, hle, hge]
  · rw [Bool.and_eq_true, decide_eq_true_eq, decide_eq_true_eq, ← Nat.not_le, ← Nat.not_le, hle,
      hge, not_le, not_le]

/-- Every number has digits on the finest grid, whose step is less than half a unit. -/
theorem isSome_onGrid?_finest {u : Nat} (hu : 0 < u) : (onGrid? u (-324)).isSome = true := by
  have hfine : 2 * unitsPerOne < (gridStep (-324)).2 := by decide +kernel
  have hstep : (gridStep (-324)).1 = 2 * unitsPerOne := rfl
  have hpos : 0 < 2 * unitsPerOne := by decide +kernel
  have hreads : readsBack u (2 * u * (gridStep (-324)).2 / (gridStep (-324)).1) (-324) = true := by
    unfold readsBack
    dsimp only
    rw [hstep]
    generalize 2 * unitsPerOne = num at hfine hpos
    generalize (gridStep (-324)).2 = den at hfine
    have hbelow := Nat.div_mul_le_self (2 * u * den) num
    have habove := Nat.lt_div_mul_add (a := 2 * u * den) hpos
    have hlower : lowerEnd u * den + den ≤ 2 * u * den := by
      rw [← Nat.succ_mul]
      exact Nat.mul_le_mul_right den (lowerEnd_lt hu)
    have hupper : 2 * u * den + den ≤ upperEnd u * den := by
      rw [← Nat.succ_mul]
      exact Nat.mul_le_mul_right den (lt_upperEnd u)
    split_ifs
    · rw [Bool.and_eq_true, decide_eq_true_eq, decide_eq_true_eq]
      omega
    · rw [Bool.and_eq_true, decide_eq_true_eq, decide_eq_true_eq]
      omega
  unfold onGrid?
  dsimp only
  rw [hreads]
  split <;> simp_all

theorem readsBack_of_onGrid? {u d : Nat} {k : Int} (h : onGrid? u k = some d) :
    readsBack u d k = true := by
  unfold onGrid? at h
  dsimp only at h
  split at h
  · split_ifs at h <;> cases h <;> assumption
  · cases h
    assumption
  · cases h
    assumption
  · cases h

/-- **The shortest digits round to the number that they are printed for.** -/
theorem readsBack_shortest {u : Nat} (hu : 0 < u) :
    readsBack u (shortest u).1 (shortest u).2 = true := by
  have hmem : (-324 : Int) ∈ gridPowers := by decide +kernel
  obtain ⟨d, hd⟩ := Option.isSome_iff_exists.mp (isSome_onGrid?_finest hu)
  obtain ⟨⟨d', k⟩, hfound⟩ : ∃ r, (gridPowers.findSome? fun k =>
      (onGrid? u k).map fun d => (d, k)) = some r := by
    refine Option.isSome_iff_exists.mp (List.findSome?_isSome_iff.mpr ?_)
    exact ⟨-324, hmem, by simp [hd]⟩
  obtain ⟨k', -, hk⟩ := List.exists_of_findSome?_eq_some hfound
  obtain ⟨d'', hgrid, heq⟩ := Option.map_eq_some_iff.mp hk
  cases heq
  rw [shortest, hfound]
  exact readsBack_of_onGrid? hgrid

end StackListing.Binary64
