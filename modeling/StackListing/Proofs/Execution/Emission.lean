import StackListing.Proofs.Execution.Endings
import StackListing.Proofs.Execution.StmtCode

/-!
# Statements of a program

`p.Emits before n s after` says that the statement `s` was reached while the listing of `p` was
made, with the lines `before` written and `n` labels taken, and that `after` came behind its code.
It follows the making of a listing from the statements of the program into blocks, branches, loops
and functions.  The main statement is that the code of a statement keeps its meaning at every such
place: whatever way the statement ends, the machine ends that way too, and where the statement does
not end, the machine runs on.
-/

namespace StackListing

/-! ### Places -/

/-- **A part of a statement:** making the code of the second one from the label `k` on is a step of
making the code of the first one from `n` on, between the given lines. -/
inductive Stmt.Part : Nat → Stmt → Listing → Nat → Stmt → Listing → Prop
  | block (n : Nat) (front : List Stmt) (s : Stmt) (rear : List Stmt) (position : Position) :
      Part n (.block (front ++ s :: rear) position)
        ([.comment "Block start"] ++ Stmt.codeAll n front) (n + Stmt.labelsAll front) s
        (Stmt.codeAll (n + Stmt.labelsAll front + s.labels) rear ++ [.comment "Block end"])
  | function (n : Nat) (result : ValueType) (name : String) (parameters : List Parameter)
      (front : List Stmt) (s : Stmt) (rear : List Stmt) (bodyPosition position : Position) :
      Part n (.functionDecl result name parameters (front ++ s :: rear) bodyPosition position)
        ([.blank, .entry name] ++ prologue ++ [.comment "Block start"] ++ Stmt.codeAll n front)
        (n + Stmt.labelsAll front) s
        (Stmt.codeAll (n + Stmt.labelsAll front + s.labels) rear ++ [.comment "Block end"] ++
          epilogue)
  | yes (n : Nat) (c : Expr) (s : Stmt) (no : Option Stmt) (position : Position) :
      Part n (.branch c s no position)
        ([.comment "If statement"] ++ c.code (n + 2) ++ jumpIfZero ⟨"else", n⟩)
        (n + 2 + c.labels) s
        ([.plain (.jmp ⟨"endif", n + 1⟩), .label ⟨"else", n⟩] ++
          Stmt.codeOption (n + 2 + c.labels + s.labels) no ++ [.label ⟨"endif", n + 1⟩])
  | no (n : Nat) (c : Expr) (yes s : Stmt) (position : Position) :
      Part n (.branch c yes (some s) position)
        ([.comment "If statement"] ++ c.code (n + 2) ++ jumpIfZero ⟨"else", n⟩ ++
          yes.code (n + 2 + c.labels) ++
          [.plain (.jmp ⟨"endif", n + 1⟩), .label ⟨"else", n⟩])
        (n + 2 + c.labels + yes.labels) s [.label ⟨"endif", n + 1⟩]
  | whileBody (n : Nat) (c : Expr) (s : Stmt) (position : Position) :
      Part n (.whileLoop c s position)
        ([.comment "While loop", .label ⟨"loop", n⟩] ++ c.code (n + 2) ++
          jumpIfZero ⟨"endloop", n + 1⟩)
        (n + 2 + c.labels) s [.plain (.jmp ⟨"loop", n⟩), .label ⟨"endloop", n + 1⟩]
  | forInitial (n : Nat) (s : Stmt) (c increment : Option Expr) (body : Stmt)
      (position : Position) :
      Part n (.forLoop (some s) c increment body position) [.comment "For loop"] (n + 2) s
        ([.label ⟨"forloop", n⟩] ++
          Stmt.conditionCode (n + 2 + s.labels) ⟨"endfor", n + 1⟩ c ++
          body.code (n + 2 + s.labels + Expr.labelsOption c) ++
          Expr.codeOption (n + 2 + s.labels + Expr.labelsOption c + body.labels) increment ++
          [.plain (.jmp ⟨"forloop", n⟩), .label ⟨"endfor", n + 1⟩])
  | forBody (n : Nat) (initial : Option Stmt) (c increment : Option Expr) (s : Stmt)
      (position : Position) :
      Part n (.forLoop initial c increment s position)
        ([.comment "For loop"] ++ Stmt.codeOption (n + 2) initial ++ [.label ⟨"forloop", n⟩] ++
          Stmt.conditionCode (n + 2 + Stmt.labelsOption initial) ⟨"endfor", n + 1⟩ c)
        (n + 2 + Stmt.labelsOption initial + Expr.labelsOption c) s
        (Expr.codeOption
            (n + 2 + Stmt.labelsOption initial + Expr.labelsOption c + s.labels) increment ++
          [.plain (.jmp ⟨"forloop", n⟩), .label ⟨"endfor", n + 1⟩])

/-- **The places of a program's statements** in its listing. -/
inductive Program.Emits (p : Program) : Listing → Nat → Stmt → Listing → Prop
  | statement {front rear : List Stmt} {s : Stmt} (h : p.statements = front ++ s :: rear) :
      Emits p (Program.header ++ Stmt.codeAll 0 front) (Stmt.labelsAll front) s
        (Stmt.codeAll (Stmt.labelsAll front + s.labels) rear ++ Program.footer)
  | part {before after before' after' : Listing} {n k : Nat} {s t : Stmt}
      (h : Emits p before n s after) (ht : Stmt.Part n s before' k t after') :
      Emits p (before ++ before') k t (after' ++ after)

/-! ### The code at a place -/

theorem Stmt.codeAll_append : ∀ (n : Nat) (xs ys : List Stmt), Stmt.codeAll n (xs ++ ys) =
    Stmt.codeAll n xs ++ Stmt.codeAll (n + Stmt.labelsAll xs) ys
  | n, [], ys => rfl
  | n, x :: xs, ys => by
    simp [Stmt.codeAll, Stmt.labelsAll, Stmt.codeAll_append (n + x.labels) xs ys, Nat.add_assoc]

theorem Stmt.Part.code_eq {n k : Nat} {s t : Stmt} {before after : Listing}
    (h : Stmt.Part n s before k t after) : s.code n = before ++ t.code k ++ after := by
  cases h with
  | block | function =>
    simp [Stmt.code, Stmt.codeAll_append, Stmt.codeAll, List.append_assoc]
  | _ => simp [Stmt.code, Stmt.codeOption, Stmt.labelsOption, List.append_assoc]

/-- Behind the code of a statement no line takes arguments off the stack. -/
theorem Stmt.Part.quiet {n k pc pc' : Nat} {s t : Stmt} {before after code : Listing}
    (h : Stmt.Part n s before k t after) (hs : Stands code pc after pc') : Quiet code pc := by
  cases h with
  | block =>
    obtain ⟨q, hrear, hend⟩ := stands_append.mp hs
    exact Stmt.quiet_all hrear (quiet_of_stands hend rfl)
  | function =>
    obtain ⟨r, hs, -⟩ := stands_append.mp hs
    obtain ⟨q, hrear, hend⟩ := stands_append.mp hs
    exact Stmt.quiet_all hrear (quiet_of_stands hend rfl)
  | forBody =>
    obtain ⟨q, hincrement, hend⟩ := stands_append.mp hs
    exact Expr.quiet_option hincrement (quiet_of_stands hend rfl)
  | _ => exact quiet_of_stands hs rfl

section Emits

variable {p : Program} {before after : Listing} {n : Nat} {s : Stmt}

theorem Program.Emits.code_eq (h : p.Emits before n s after) :
    p.code 0 = before ++ s.code n ++ after := by
  induction h with
  | statement h =>
    simp [Program.code, h, Stmt.codeAll_append, Stmt.codeAll, List.append_assoc]
  | part _ ht ih =>
    rw [ih, ht.code_eq]
    simp only [List.append_assoc]

theorem Program.Emits.stands (h : p.Emits before n s after) :
    Stands (p.code 0) before.length (s.code n) (before.length + (s.code n).length) := by
  rw [h.code_eq]
  exact .between before (s.code n) after

theorem Program.Emits.quiet (h : p.Emits before n s after) :
    Quiet (p.code 0) (before.length + (s.code n).length) := by
  have hs := Stands.between (before ++ s.code n) after []
  rw [List.append_nil, ← h.code_eq, List.length_append] at hs
  cases h with
  | statement h =>
    obtain ⟨q, hrear, hend⟩ := stands_append.mp hs
    exact Stmt.quiet_all hrear (quiet_of_stands hend rfl)
  | part _ ht =>
    obtain ⟨q, hs, -⟩ := stands_append.mp hs
    exact ht.quiet hs

end Emits

/-- **Code of statements keeps their meaning.**  Take any place where the code of a statement was
put into the listing of a program, and any state inside a function.  If the statement ends normally,
the machine gets from the first line of the code to the line behind it, with the same store, stack
and frame register.  If the statement gives a value back, the machine gets to the end of the
function, with that value in the accumulator and the stack and the frame register of the caller.  If
it fails to divide, the machine fails at a division, and nothing else can go wrong.  If it does not
end, the machine makes any number of steps. -/
theorem Program.emits_preserves (env : Environment) {p : Program} {before after : Listing} {n : Nat}
    {s : Stmt} (h : p.Emits before n s after) (hs : s.plain = true) {m₀ m : Machine}
    (hm : m₀.Inside m) :
    (∀ σ, s.Ends env m.store (.normal σ) →
      ∃ k m', Runs env (p.code 0) m₀.stack k ⟨before.length, m⟩
          ⟨before.length + (s.code n).length, m'⟩ ∧
        m'.store = σ ∧ m'.stack = m.stack ∧ m'.ebp = m.ebp) ∧
    (∀ v σ, s.Ends env m.store (.returned v σ) →
      ∃ k d, Runs env (p.code 0) m₀.stack k ⟨before.length, m⟩ d ∧
        (p.code 0)[d.pc]? = some (.plain .ret) ∧ d.machine.eax = v ∧ d.machine.store = σ ∧
        d.machine.stack = m₀.stack ∧ d.machine.ebp = m₀.ebp) ∧
    (∀ t, s.Ends env m.store (.trapped t) →
      t = .division ∧ Faults env (p.code 0) m₀.stack ⟨before.length, m⟩) ∧
    ((∀ e, ¬ s.Ends env m.store e) →
      ∀ k, ∃ k' ≥ k, ∃ d, Runs env (p.code 0) m₀.stack k' ⟨before.length, m⟩ d) := by
  have hf : ∀ fuel, Follows env (p.code 0) m₀ fuel before.length
      (before.length + (s.code n).length) m (s.exec env fuel m.store) := fun fuel =>
    Stmt.code_follows (p.nodup_placed_code 0) hs h.stands h.quiet hm
  refine ⟨?_, ?_, ?_, ?_⟩
  · rintro σ ⟨fuel, hx⟩
    obtain ⟨k, m', hr, hst, hstack, hebp, -⟩ := hx ▸ hf fuel
    exact ⟨k, m', hr, hst, hstack, hebp⟩
  · rintro v σ ⟨fuel, hx⟩
    obtain ⟨k, d, hr, hret, hv, hst, hstack, hebp, -⟩ := hx ▸ hf fuel
    exact ⟨k, d, hr, hret, hv, hst, hstack, hebp⟩
  · rintro t ⟨fuel, hx⟩
    have ht := hf fuel
    rwa [hx] at ht
  · intro hne k
    have hx : s.exec env k m.store = none := by
      rcases he : s.exec env k m.store with _ | e
      · rfl
      · exact absurd ⟨k, he⟩ (hne e)
    obtain ⟨k', d, hle, hr⟩ := hx ▸ hf k
    exact ⟨k', hle, d, hr⟩

/-- A loop that counts a variable up to three and prints it. -/
def Stmt.counting : Stmt :=
  .whileLoop (.binary .less (.var "x" ⟨1, 1⟩) (.literal (.integer 3) ⟨1, 1⟩) ⟨1, 1⟩)
    (.block
      [.expr (.assign "x"
        (.binary .add (.var "x" ⟨1, 1⟩) (.literal (.integer 1) ⟨1, 1⟩) ⟨1, 1⟩) ⟨1, 1⟩),
        .print (.var "x" ⟨1, 1⟩) ⟨1, 1⟩] ⟨1, 1⟩) ⟨1, 1⟩

/-- A program whose only function counts and gives the last number back. -/
def Program.counting : Program :=
  ⟨[.functionDecl .int "main" [] [.counting, .giveBack (some (.var "x" ⟨1, 1⟩)) ⟨1, 1⟩]
    ⟨1, 1⟩ ⟨1, 1⟩]⟩

/-- The loop is the first statement of the function. -/
theorem Program.counting_emits : ∃ before after,
    before.length = 12 ∧ Program.counting.Emits before 0 .counting after := by
  have h : Program.counting.statements = [] ++ _ :: [] := rfl
  exact ⟨_, _, rfl, .part (.statement h) (.function 0 _ _ _ [] _ _ _ _)⟩

/-- From the entry of the function on, the machine counts and prints as the loop does. -/
theorem Program.emits_preserves_counting : Stmt.counting.plain = true ∧
    ∃ k m', Runs .difference (Program.counting.code 0) [] k ⟨8, .cleared⟩
        ⟨12 + (Stmt.counting.code 0).length, m'⟩ ∧
      m'.store.memory "x" = 3 ∧ m'.store.trace = [1, 2, 3] := by
  have hs : Stmt.counting.plain = true := by decide
  have hpro : Stands (Program.counting.code 0) 8 prologue 11 :=
    .cons rfl (.cons rfl (.cons rfl .nil))
  obtain ⟨m, hr, hm, hst⟩ : ∃ m, Runs .difference (Program.counting.code 0)
      Machine.cleared.stack 3 ⟨8, .cleared⟩ ⟨11, m⟩ ∧ Machine.cleared.Inside m ∧
      m.store = Machine.cleared.store := prologue_runs hpro
  have hcomment : step .difference (Program.counting.code 0) ⟨11, m⟩ = .ok ⟨12, m⟩ :=
    step_silent rfl rfl
  have he : Stmt.counting.Ends .difference m.store
      (.normal ⟨(((Machine.cleared.store.assign "x" 1).assign "x" 2).assign "x" 3).memory,
        [1, 2, 3]⟩) := by
    rw [hst]
    exact ⟨4, rfl⟩
  obtain ⟨before, after, hlen, h⟩ := Program.counting_emits
  obtain ⟨k, m', hr', hst', -⟩ := (Program.emits_preserves .difference h hs hm).1 _ he
  rw [hlen] at hr'
  have hrun := hr.trans (.step hm.suffix hcomment hr')
  exact ⟨hs, _, m', hrun, congrArg (·.memory "x") hst', congrArg (·.trace) hst'⟩

end StackListing
