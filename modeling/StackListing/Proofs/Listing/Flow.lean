import Mathlib.Logic.Relation
import StackListing.Proofs.Listing.Places
import StackListing.Proofs.Phases.Gating

/-!
# Control stays inside functions

`Flows code pc q` says that control can get from the line `pc` to the line `q` in one step: to the
next line, or to the label of a jump.  A call comes back to the next line, and a return leads
nowhere.  Whether a conditional jump is taken is left open, so the machine can do no more than that
(`Flows.of_step`).

The code of a function ends in a return, and jumps do not leave it, so control that begins at the
entry of a function stays in the code of that function.  It can get to another entry there: the code
of a function that is declared inside another stands where the declaration does, and control runs
into it.
-/

namespace StackListing

open Relation (ReflTransGen)

/-! ### Steps of control -/

/-- Whether control can get from a line to the next one. -/
def Line.falls : Line → Bool
  | .code (.jmp _) _ | .code .ret _ => false
  | .code _ _ | .label _ | .entry _ | .comment _ | .raw _ | .blank => true

/-- **Control can get from one line to another in one step.** -/
inductive Flows (code : Listing) : Nat → Nat → Prop
  | next {pc : Nat} {line : Line} (hline : code[pc]? = some line) (h : line.falls = true) :
      Flows code pc (pc + 1)
  | jump {pc q : Nat} {line : Line} {l : Label} (hline : code[pc]? = some line)
      (ht : line.target? = some l) (hq : code[q]? = some (.label l)) : Flows code pc q

theorem getElem?_of_jump {code : Listing} {l : Label} {m : Machine} {d : Config}
    (h : jump code l m = .ok d) : code[d.pc]? = some (.label l) := by
  unfold jump at h
  split_ifs at h with hmem
  obtain rfl := Except.ok.inj h
  exact List.getElem?_idxOf hmem

theorem pc_of_bind {x : Except Halt Machine} {pc : Nat} {d : Config}
    (h : (do return ⟨pc, ← x⟩) = Except.ok d) : d.pc = pc := by
  cases x with
  | error => cases h
  | ok m =>
    obtain rfl := Except.ok.inj h
    rfl

/-- A step of the machine is a step of control. -/
theorem Flows.of_step {env : Environment} {code : Listing} {c d : Config}
    (h : step env code c = .ok d) : Flows code c.pc d.pc := by
  unfold step at h
  cases hline : code[c.pc]? with
  | none => simp [hline] at h
  | some line =>
    cases line with
    | code i remark =>
      simp only [hline] at h
      cases i with
      | jmp l => exact .jump hline rfl (getElem?_of_jump h)
      | je l =>
        dsimp only at h
        split_ifs at h with hzero
        · exact .jump hline rfl (getElem?_of_jump h)
        · obtain rfl := Except.ok.inj h
          exact .next hline rfl
      | ret | interrupt => cases h
      | call name =>
        obtain rfl := Except.ok.inj h
        exact .next hline rfl
      | _ => exact pc_of_bind h ▸ .next hline rfl
    | label | entry | comment | raw | blank =>
      simp only [hline] at h
      obtain rfl := Except.ok.inj h
      exact .next hline rfl

theorem Runs.reaches {env : Environment} {code : Listing} {floor : List Cell} {k : Nat}
    {c d : Config} (h : Runs env code floor k c d) : ReflTransGen (Flows code) c.pc d.pc := by
  induction h with
  | refl => exact .refl
  | step _ hs _ ih => exact .head (.of_step hs) ih

/-- Control runs through lines from each of which it gets to the next one. -/
theorem reaches_of_falls {code : Listing} {pc n : Nat}
    (h : ∀ i ∈ List.range' pc n, code[i]?.any Line.falls = true) :
    ReflTransGen (Flows code) pc (pc + n) := by
  induction n generalizing pc with
  | zero => exact .refl
  | succ n ih =>
    rw [List.range'_succ] at h
    obtain ⟨hfirst, hrest⟩ := List.forall_mem_cons.mp h
    obtain ⟨line, hline, hfalls⟩ := (Option.any_eq_true _ _).mp hfirst
    have hstep : Flows code pc (pc + 1) := .next hline hfalls
    have hway := ih hrest
    rw [Nat.add_assoc, Nat.add_comm 1 n] at hway
    exact .head hstep hway

/-! ### Inside the code of a statement -/

section Inside

variable {p : Program} {before after : Listing} {n pc q : Nat} {s : Stmt}

/-- The lines of a statement's code, counted from its first one. -/
theorem Program.Emits.getElem?_code (h : p.Emits before n s after) (hpc : before.length ≤ pc)
    (hend : pc < before.length + (s.code n).length) :
    (p.code 0)[pc]? = (s.code n)[pc - before.length]? := by
  rw [h.code_eq, List.append_assoc, List.getElem?_append_right hpc,
    List.getElem?_append_left (by omega)]

/-- A label that stands in the code of a statement stands nowhere else. -/
theorem Program.Emits.label_inside (h : p.Emits before n s after) {l : Label}
    (hl : l ∈ placed (s.code n)) (hq : (p.code 0)[q]? = some (.label l)) :
    before.length ≤ q ∧ q < before.length + (s.code n).length := by
  have hout := h.not_mem_placed hl
  rw [placed_append, List.mem_append, not_or, mem_placed, mem_placed] at hout
  rw [h.code_eq, List.append_assoc] at hq
  constructor
  · by_contra hlt
    rw [List.getElem?_append_left (by omega)] at hq
    exact hout.1 (List.mem_of_getElem? hq)
  · by_contra hge
    rw [List.getElem?_append_right (by omega), List.getElem?_append_right (by omega)] at hq
    exact hout.2 (List.mem_of_getElem? hq)

/-- **One step:** control stays in the code of a statement, unless it falls through its end. -/
theorem Program.Emits.flows_inside (h : p.Emits before n s after) (hf : Flows (p.code 0) pc q)
    (hpc : before.length ≤ pc) (hend : pc < before.length + (s.code n).length) :
    before.length ≤ q ∧ (q < before.length + (s.code n).length ∨
      ∃ line, (s.code n).getLast? = some line ∧ line.falls = true) := by
  cases hf with
  | @next line hline hfalls =>
    refine ⟨by omega, ?_⟩
    by_cases hlast : pc + 1 < before.length + (s.code n).length
    · exact .inl hlast
    · refine .inr ⟨line, ?_, hfalls⟩
      have hplace : pc - before.length = (s.code n).length - 1 := by omega
      rw [List.getLast?_eq_getElem?, ← hplace, ← h.getElem?_code hpc hend]
      exact hline
  | jump hline ht hq =>
    rw [h.getElem?_code hpc hend] at hline
    have htarget := mem_targets.mpr ⟨_, List.mem_of_getElem? hline, ht⟩
    obtain ⟨hle, hlt⟩ := h.label_inside (s.closed_code n _ htarget) hq
    exact ⟨hle, .inl hlt⟩

end Inside

/-! ### Inside functions -/

theorem Stmt.getLast?_functionCode (n : Nat) (result : ValueType) (name : String)
    (parameters : List Parameter) (body : List Stmt) (bodyPosition position : Position) :
    ((Stmt.functionDecl result name parameters body bodyPosition position).code n).getLast? =
      some (.plain .ret) := by
  rw [Stmt.code, List.getLast?_append]
  rfl

section Function

variable {p : Program} {before after : Listing} {n q : Nat} {result : ValueType} {name : String}
  {parameters : List Parameter} {body : List Stmt} {bodyPosition position : Position}

/-- **The whole way:** control that begins at the entry of a function stays in its code. -/
theorem Program.Emits.reaches_inside
    (h : p.Emits before n
      (.functionDecl result name parameters body bodyPosition position) after)
    (hr : ReflTransGen (Flows (p.code 0)) (before.length + 1) q) :
    before.length ≤ q ∧ q < before.length + (Stmt.code n
      (.functionDecl result name parameters body bodyPosition position)).length := by
  induction hr with
  | refl =>
    refine ⟨by omega, ?_⟩
    simp [Stmt.code]
  | tail _ hf ih =>
    obtain ⟨hle, hlt | ⟨line, hlast, hfalls⟩⟩ := h.flows_inside hf ih.1 ih.2
    · exact ⟨hle, hlt⟩
    · -- The last line is the return of the epilogue, behind which nothing comes.
      rw [Stmt.getLast?_functionCode] at hlast
      obtain rfl := Option.some.inj hlast
      cases hfalls

/-- The machine that begins at the entry of a function stays in its code too. -/
theorem Program.Emits.runs_inside {env : Environment} {floor : List Cell} {k : Nat} {m : Machine}
    {d : Config}
    (h : p.Emits before n
      (.functionDecl result name parameters body bodyPosition position) after)
    (hr : Runs env (p.code 0) floor k ⟨before.length + 1, m⟩ d) :
    before.length ≤ d.pc ∧ d.pc < before.length + (Stmt.code n
      (.functionDecl result name parameters body bodyPosition position)).length :=
  h.reaches_inside hr.reaches

end Function

/-- **Functions are entered from outside only by calls.**  Control that begins at the entry of a
function and moves by jumps and to next lines stays in the code of the function.  Every entry that
it gets to is that of the function itself or of one that is declared inside it. -/
theorem Program.entries_reached {p : Program} {before after : Listing} {n : Nat}
    {result : ValueType} {name : String} {parameters : List Parameter} {body : List Stmt}
    {bodyPosition position : Position}
    (h : p.Emits before n
      (.functionDecl result name parameters body bodyPosition position) after) :
    (p.code 0)[before.length + 1]? = some (.entry name) ∧
    ∀ q, ReflTransGen (Flows (p.code 0)) (before.length + 1) q →
      (before.length ≤ q ∧ q < before.length + (Stmt.code n
        (.functionDecl result name parameters body bodyPosition position)).length) ∧
      ∀ name', (p.code 0)[q]? = some (.entry name') →
        ∃ front k result' parameters' body' bodyPosition' position' rear,
          Stmt.Within n (.functionDecl result name parameters body bodyPosition position) front k
            (.functionDecl result' name' parameters' body' bodyPosition' position') rear ∧
          q = before.length + front.length + 1 := by
  constructor
  · rw [h.getElem?_code (by omega) (by simp [Stmt.code])]
    simp [Stmt.code]
  · intro q hr
    obtain ⟨hle, hlt⟩ := h.reaches_inside hr
    refine ⟨⟨hle, hlt⟩, fun name' hentry => ?_⟩
    rw [h.getElem?_code hle hlt] at hentry
    obtain ⟨hoccurs, hlength⟩ := occurs_of_getElem? hentry
    obtain ⟨front, k, result', parameters', body', bodyPosition', position', rear, hwithin,
      hfront⟩ := Stmt.entry_within hoccurs
    refine ⟨front, k, result', parameters', body', bodyPosition', position', rear, hwithin, ?_⟩
    rw [hfront, List.length_append, List.length_singleton] at hlength
    omega

/-- A function in which another one is declared. -/
def Stmt.outer : Stmt :=
  .functionDecl .int "f" []
    [.functionDecl .int "g" [] [.giveBack none .unknown] .unknown .unknown,
      .giveBack none .unknown] .unknown .unknown

/-- The function before `main`. -/
def Program.nesting : Program :=
  ⟨[.outer, .functionDecl .int "main" [] [.giveBack none .unknown] .unknown .unknown]⟩

theorem Program.entries_reached_nesting : ∃ before after,
    Program.nesting.Emits before 0 .outer after ∧
    (Program.nesting.code 0)[before.length + 1]? = some (.entry "f") ∧
    (∃ front k result parameters body bodyPosition position rear,
      Stmt.Within 0 .outer front k
        (.functionDecl result "g" parameters body bodyPosition position) rear ∧
      13 = before.length + front.length + 1) ∧
    (Program.nesting.code 0)[37]? = some (.entry "main") ∧
    ¬ ReflTransGen (Flows (Program.nesting.code 0)) (before.length + 1) 37 := by
  have hstatements : Program.nesting.statements = [] ++ .outer :: _ := rfl
  have hemits := Program.Emits.statement hstatements
  obtain ⟨hentry, hreached⟩ := Program.entries_reached hemits
  have hg : ReflTransGen (Flows (Program.nesting.code 0)) 7 (7 + 6) :=
    reaches_of_falls (by decide)
  refine ⟨_, _, hemits, hentry, (hreached 13 hg).2 "g" (by decide), by decide, fun hmain => ?_⟩
  exact absurd (hreached 37 hmain).1.2 (by decide)

/-- A source in which a function is declared at the beginning of another one. -/
def nestingSource : String :=
  "int f() \x7b int g() \x7b return 1; \x7d return 0; \x7d int main() \x7b return f(); \x7d"

/-- Control that begins at the entry of a function can get to that of another one without a call. -/
theorem entry_reached_nestingSource :
    compile nestingSource = .ok (parsed nestingSource).program.listing ∧
    ((parsed nestingSource).program.code 0)[7]? = some (.entry "f") ∧
    ((parsed nestingSource).program.code 0)[13]? = some (.entry "g") ∧
    ReflTransGen (Flows ((parsed nestingSource).program.code 0)) 7 13 := by
  have hsilent : (tokenize nestingSource).errors = [] ∧ (parsed nestingSource).errors = [] ∧
      (parsed nestingSource).program.check = [] := by decide +kernel
  have hentries : ((parsed nestingSource).program.code 0)[7]? = some (.entry "f") ∧
      ((parsed nestingSource).program.code 0)[13]? = some (.entry "g") := by decide +kernel
  have hway : ∀ i ∈ List.range' 7 6,
      ((parsed nestingSource).program.code 0)[i]?.any Line.falls = true := by decide +kernel
  exact ⟨compile_of_silent hsilent.1 hsilent.2.1 hsilent.2.2, hentries.1, hentries.2,
    reaches_of_falls hway⟩

end StackListing
