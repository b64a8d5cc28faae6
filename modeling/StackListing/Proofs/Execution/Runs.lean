import StackListing.Proofs.Execution.Meaning

/-!
# Runs of pieces of code

`Stands code pc lines pc'` says that `lines` stand in a listing from the line `pc` up to the line
`pc'`, and one lemma for each kind of line says how a run goes on from there.

`Computes env code floor x pc pc' m Post` is how code from `pc` to `pc'` follows an evaluation `x`:
where `x` has a value, the machine gets to `pc'` with the store that `x` leaves and with `Post` of
the value; where `x` fails to divide, the machine fails at a division.  It goes along with the binds
of evaluations, so the code of an expression is followed part by part.
-/

namespace StackListing

/-! ### Lines in a listing -/

/-- The lines that stand in a listing from one place up to another. -/
inductive Stands (code : Listing) : Nat → Listing → Nat → Prop
  | nil {pc : Nat} : Stands code pc [] pc
  | cons {pc pc' : Nat} {line : Line} {lines : Listing} (h : code[pc]? = some line)
      (hr : Stands code (pc + 1) lines pc') : Stands code pc (line :: lines) pc'

section Stretches

variable {code : Listing} {pc pc' : Nat} {line : Line}

theorem stands_nil : Stands code pc [] pc' ↔ pc' = pc := by
  constructor
  · rintro ⟨⟩
    rfl
  · rintro rfl
    exact .nil

theorem stands_cons {lines : Listing} : Stands code pc (line :: lines) pc' ↔
    code[pc]? = some line ∧ Stands code (pc + 1) lines pc' := by
  constructor
  · intro h
    cases h with
    | cons h hr => exact ⟨h, hr⟩
  · rintro ⟨h, hr⟩
    exact .cons h hr

theorem stands_append : ∀ {pc : Nat} {xs ys : Listing}, Stands code pc (xs ++ ys) pc' ↔
    ∃ q, Stands code pc xs q ∧ Stands code q ys pc'
  | pc, [], ys => by simp [stands_nil]
  | pc, x :: xs, ys => by
    simp only [List.cons_append, stands_cons, stands_append, and_assoc,
      exists_and_left]

theorem Stands.eq_add {pc : Nat} {lines : Listing} (h : Stands code pc lines pc') :
    pc' = pc + lines.length := by
  induction h with
  | nil => rfl
  | cons _ _ ih => rw [ih, List.length_cons]; omega

theorem Stands.between (before lines after : Listing) :
    Stands (before ++ lines ++ after) before.length lines (before.length + lines.length) := by
  induction lines generalizing before with
  | nil => exact .nil
  | cons line lines ih =>
    have h := ih (before ++ [line])
    rw [List.length_append, List.length_singleton, List.append_assoc before [line],
      List.singleton_append] at h
    refine .cons (by simp) ?_
    rwa [List.length_cons, ← Nat.add_assoc, Nat.add_right_comm]

theorem Stands.whole (code : Listing) : Stands code 0 code code.length := by
  simpa using Stands.between [] code []

end Stretches

/-! ### Steps of single lines -/

/-- Whether a line has no effect. -/
def Line.silent : Line → Bool
  | .code _ _ => false
  | _ => true

section Steps

variable {env : Environment} {code : Listing} {pc : Nat} {m m' : Machine} {i : Instruction}
  {remark : Option String}

theorem step_silent {line : Line} (h : code[pc]? = some line) (hl : line.silent = true) :
    step env code ⟨pc, m⟩ = .ok ⟨pc + 1, m⟩ := by
  cases line with
  | code => cases hl
  | _ => simp only [step, h]

theorem step_exec (h : code[pc]? = some (.code i remark)) (hi : m.exec i = .ok m') :
    step env code ⟨pc, m⟩ = .ok ⟨pc + 1, m'⟩ := by
  cases i with
  | jmp | je | call | ret | interrupt => cases hi
  | _ => simp only [step, h, hi]; rfl

theorem step_divideError (h : code[pc]? = some (.code i remark))
    (hi : m.exec i = .error .divideError) : step env code ⟨pc, m⟩ = .error .divideError := by
  cases i with
  | jmp | je | call | ret | interrupt => cases hi
  | _ => simp only [step, h, hi]; rfl

theorem step_call {name : String} (h : code[pc]? = some (.code (.call name) remark)) :
    step env code ⟨pc, m⟩ = .ok ⟨pc + 1, m.call env name (argumentCount code[pc + 1]?)⟩ := by
  simp only [step, h]

end Steps

/-! ### Runs -/

namespace Runs

variable {env : Environment} {code : Listing} {floor floor' : List Cell} {k k' : Nat}
  {c d e : Config}

theorem suffix (h : Runs env code floor k c d) : floor <:+ c.machine.stack := by
  cases h with
  | refl h => exact h
  | step h => exact h

theorem trans (h : Runs env code floor k c d) (h' : Runs env code floor k' d e) :
    Runs env code floor (k + k') c e := by
  induction h with
  | refl _ => rwa [Nat.zero_add]
  | step hf hs _ ih => rw [Nat.add_right_comm]; exact .step hf hs (ih h')

/-- There is at most one place where runs from a given place can stop. -/
theorem unique {floor floor' : List Cell} {x y : Halt} (h : Runs env code floor k c d)
    (h' : Runs env code floor' k' c e) (hd : StackListing.step env code d = .error x)
    (he : StackListing.step env code e = .error y) : d = e := by
  induction h generalizing k' with
  | refl _ =>
    cases h' with
    | refl _ => rfl
    | step _ hs _ => rw [hs] at hd; cases hd
  | step _ hs _ ih =>
    cases h' with
    | refl _ => rw [hs] at he; cases he
    | step _ hs' hr =>
      rw [hs] at hs'
      cases hs'
      exact ih hr hd

/-- A run that keeps cells at the bottom of the stack keeps those at the bottom of them. -/
theorem mono (hf : floor' <:+ floor) (h : Runs env code floor k c d) :
    Runs env code floor' k c d := by
  induction h with
  | refl h => exact .refl (hf.trans h)
  | step h hs _ ih => exact .step (hf.trans h) hs ih

end Runs

section Faults

variable {env : Environment} {code : Listing} {floor floor' : List Cell} {c d : Config}

theorem Faults.of_runs {k : Nat} (h : Runs env code floor k c d) (hd : Faults env code floor d) :
    Faults env code floor c := by
  obtain ⟨k', e, r, remark, hr, hline, hs⟩ := hd
  exact ⟨k + k', e, r, remark, h.trans hr, hline, hs⟩

theorem Faults.mono (hf : floor' <:+ floor) (h : Faults env code floor c) :
    Faults env code floor' c := by
  obtain ⟨k, d, r, remark, hr, hline, hs⟩ := h
  exact ⟨k, d, r, remark, hr.mono hf, hline, hs⟩

end Faults

/-! ### Code that follows an evaluation -/

/-- **Code follows an evaluation** from `pc` to `pc'`: it gets there with the same store and a value
of which `Post` holds, or both fail to divide. -/
def Computes {α : Type} (env : Environment) (code : Listing) (floor : List Cell)
    (x : Evaluation α) (pc pc' : Nat) (m : Machine) (Post : α → Machine → Prop) : Prop :=
  match x m.store with
  | .ok (a, σ) => ∃ k m', Runs env code floor k ⟨pc, m⟩ ⟨pc', m'⟩ ∧ m'.store = σ ∧ Post a m'
  | .error t => t = .division ∧ Faults env code floor ⟨pc, m⟩

namespace Computes

variable {α β : Type} {env : Environment} {code : Listing} {floor floor' : List Cell}
  {x : Evaluation α} {pc pc' q : Nat} {m m' : Machine} {Post : α → Machine → Prop}

theorem iff_of_ok {a : α} {σ : Store} (hx : x m.store = .ok (a, σ)) :
    Computes env code floor x pc pc' m Post ↔
      ∃ k m', Runs env code floor k ⟨pc, m⟩ ⟨pc', m'⟩ ∧ m'.store = σ ∧ Post a m' := by
  rw [Computes, hx]

theorem iff_of_error {t : Trap} (hx : x m.store = .error t) :
    Computes env code floor x pc pc' m Post ↔ t = .division ∧ Faults env code floor ⟨pc, m⟩ := by
  rw [Computes, hx]

theorem mono (hf : floor' <:+ floor) (h : Computes env code floor x pc pc' m Post) :
    Computes env code floor' x pc pc' m Post := by
  rcases hx : x m.store with t | ⟨a, σ⟩
  · obtain ⟨ht, hd⟩ := (iff_of_error hx).mp h
    exact (iff_of_error hx).mpr ⟨ht, hd.mono hf⟩
  · obtain ⟨k, m', hr, hs, hp⟩ := (iff_of_ok hx).mp h
    exact (iff_of_ok hx).mpr ⟨k, m', hr.mono hf, hs, hp⟩

theorem weaken {Post' : α → Machine → Prop} (hp : ∀ a m', Post a m' → Post' a m')
    (h : Computes env code floor x pc pc' m Post) : Computes env code floor x pc pc' m Post' := by
  rcases hx : x m.store with t | ⟨a, σ⟩
  · exact (iff_of_error hx).mpr ((iff_of_error hx).mp h)
  · obtain ⟨k, m', hr, hs, ha⟩ := (iff_of_ok hx).mp h
    exact (iff_of_ok hx).mpr ⟨k, m', hr, hs, hp a m' ha⟩

/-- A run to a place from which the code follows what is left of the evaluation. -/
theorem of_runs {k : Nat} {y : Evaluation α} (hr : Runs env code floor k ⟨pc, m⟩ ⟨q, m'⟩)
    (hy : x m.store = y m'.store) (h : Computes env code floor y q pc' m' Post) :
    Computes env code floor x pc pc' m Post := by
  rcases hx : x m.store with t | ⟨a, σ⟩
  · obtain ⟨ht, hd⟩ := (iff_of_error (hy ▸ hx)).mp h
    exact (iff_of_error hx).mpr ⟨ht, .of_runs hr hd⟩
  · obtain ⟨k', m'', hr', hs, hp⟩ := (iff_of_ok (hy ▸ hx)).mp h
    exact (iff_of_ok hx).mpr ⟨k + k', m'', hr.trans hr', hs, hp⟩

theorem bind {f : α → Evaluation β} {Post' : β → Machine → Prop}
    (h : Computes env code floor x pc q m Post)
    (h' : ∀ a m', Post a m' → Computes env code floor (f a) q pc' m' Post') :
    Computes env code floor (x >>= f) pc pc' m Post' := by
  have hb : (x >>= f) m.store = x m.store >>= fun r => f r.1 r.2 := rfl
  rcases hx : x m.store with t | ⟨a, σ⟩ <;> rw [hx] at hb
  · exact (iff_of_error hb).mpr ((iff_of_error hx).mp h)
  · obtain ⟨k, m', hr, rfl, hp⟩ := (iff_of_ok hx).mp h
    exact of_runs hr hb (h' a m' hp)

theorem suffix (h : Computes env code floor x pc pc' m Post) : floor <:+ m.stack := by
  rcases hx : x m.store with t | ⟨a, σ⟩
  · obtain ⟨-, k, d, r, remark, hr, -⟩ := (iff_of_error hx).mp h
    exact hr.suffix
  · obtain ⟨k, m', hr, -⟩ := (iff_of_ok hx).mp h
    exact hr.suffix

theorem of_step {y : Evaluation α} (hf : floor <:+ m.stack)
    (hs : step env code ⟨pc, m⟩ = .ok ⟨q, m'⟩) (hy : x m.store = y m'.store)
    (h : Computes env code floor y q pc' m' Post) : Computes env code floor x pc pc' m Post :=
  of_runs (.step hf hs (.refl h.suffix)) hy h

theorem of_exec {y : Evaluation α} {i : Instruction} {remark : Option String}
    (hf : floor <:+ m.stack) (hl : code[pc]? = some (.code i remark)) (hi : m.exec i = .ok m')
    (hy : x m.store = y m'.store) (h : Computes env code floor y (pc + 1) pc' m' Post) :
    Computes env code floor x pc pc' m Post :=
  of_step hf (step_exec hl hi) hy h

theorem pure {a : α} (hf : floor <:+ m.stack) (hp : Post a m) :
    Computes env code floor (Pure.pure a) pc pc m Post :=
  (iff_of_ok rfl).mpr ⟨0, m, .refl hf, rfl, hp⟩

end Computes

end StackListing
