import StackListing.Proofs.Execution.Meaning

/-!
# Endings of statements

A statement ends in a given way if it does so when its loops are allowed some number of tests.
Allowing more tests keeps every ending that was there, so a statement has at most one.
-/

namespace StackListing

/-- **A statement ends** in the given way. -/
def Stmt.Ends (env : Environment) (s : Stmt) (σ : Store) (e : Ending) : Prop :=
  ∃ fuel, s.exec env fuel σ = some e

/-! ### More tests -/

/-- The second execution has every ending of the first. -/
def Execution.Below (x y : Execution) : Prop := ∀ σ e, x σ = some e → y σ = some e

namespace Execution

variable {x x' y y' : Execution}

theorem Below.refl (x : Execution) : x.Below x := fun _ _ h => h

theorem Below.seq (hx : x.Below x') (hy : y.Below y') : (x.seq y).Below (x'.seq y') := by
  intro σ e h
  rcases hs : x σ with _ | (σ' | ⟨v, σ'⟩ | t) <;> simp only [Execution.seq, hs] at h
  · cases h
  · simp only [Execution.seq, hx σ _ hs]
    exact hy σ' e h
  all_goals
    simp only [Execution.seq, hx σ _ hs]
    exact h

theorem Below.andThen {α : Type} {z : Evaluation α} {f g : α → Execution}
    (h : ∀ a, (f a).Below (g a)) : (z.andThen f).Below (z.andThen g) := by
  intro σ e he
  rcases hz : z σ with t | ⟨a, σ'⟩ <;> simp only [Evaluation.andThen, hz] at he ⊢
  · exact he
  · exact h a σ' e he

theorem Below.loop {test : Evaluation Bool} (hx : x.Below x') : ∀ {n n' : Nat}, n ≤ n' →
    (Execution.loop test x n).Below (Execution.loop test x' n')
  | 0, _, _ => by
    rintro σ e ⟨⟩
  | n + 1, n' + 1, hn => by
    refine Below.andThen fun goOn => ?_
    cases goOn with
    | false => exact .refl _
    | true => exact hx.seq (Below.loop hx (Nat.le_of_succ_le_succ hn))

end Execution

section Fuel

variable {env : Environment} {fuel fuel' : Nat}

mutual

theorem Stmt.exec_below (hle : fuel ≤ fuel') : ∀ s : Stmt,
    (s.exec env fuel).Below (s.exec env fuel')
  | .expr _ => .refl _
  | .variableDecl _ _ none _ => .refl _
  | .variableDecl _ _ (some _) _ => .refl _
  | .block body _ => Stmt.execAll_below hle body
  | .branch _ yes no _ => by
    refine Execution.Below.andThen fun v => ?_
    split
    · exact Stmt.execOption_below hle no
    · exact Stmt.exec_below hle yes
  | .whileLoop _ body _ => (Stmt.exec_below hle body).loop hle
  | .forLoop initial _ _ body _ =>
    (Stmt.execOption_below hle initial).seq (((Stmt.exec_below hle body).seq (.refl _)).loop hle)
  | .giveBack none _ => .refl _
  | .giveBack (some _) _ => .refl _
  | .functionDecl _ _ _ _ _ _ => .refl _
  | .print _ _ => .refl _

theorem Stmt.execAll_below (hle : fuel ≤ fuel') : ∀ body : List Stmt,
    (Stmt.execAll env fuel body).Below (Stmt.execAll env fuel' body)
  | [] => .refl _
  | s :: rest => (Stmt.exec_below hle s).seq (Stmt.execAll_below hle rest)

theorem Stmt.execOption_below (hle : fuel ≤ fuel') : ∀ s : Option Stmt,
    (Stmt.execOption env fuel s).Below (Stmt.execOption env fuel' s)
  | none => .refl _
  | some s => Stmt.exec_below hle s

end

end Fuel

/-- **A statement ends in at most one way.** -/
theorem Stmt.Ends.unique {env : Environment} {s : Stmt} {σ : Store} {e e' : Ending}
    (h : s.Ends env σ e) (h' : s.Ends env σ e') : e = e' := by
  obtain ⟨n, hn⟩ := h
  obtain ⟨n', hn'⟩ := h'
  have h1 := Stmt.exec_below (Nat.le_max_left n n') s σ e hn
  have h2 := Stmt.exec_below (Nat.le_max_right n n') s σ e' hn'
  rw [h1] at h2
  exact Option.some.inj h2

end StackListing
