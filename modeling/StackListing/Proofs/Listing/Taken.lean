import Mathlib.Data.List.Range
import StackListing.Proofs.Execution.Labels

/-!
# Labels that are taken

Making the code of a statement takes labels, all from one counter.  `taken n s` lists them in the
order in which they are taken when the counter is at `n`: a branch and a loop take their own two
first, and a text takes one wherever it stands in an expression.  So their numbers are `n`, `n + 1`
and so on, one label to a number.  They are the labels that occur in the code, in whatever line.
Those of branches and loops are also placed in it, and those of texts are not.
-/

namespace StackListing

/-! ### Labels in lines -/

/-- The labels in an operand. -/
@[simp] def Operand.mentions : Operand → List Label
  | .label l => [l]
  | .register _ | .immediate _ | .memory _ => []

/-- The labels in an instruction. -/
@[simp] def Instruction.mentions : Instruction → List Label
  | .mov target source | .add target source | .sub target source | .cmp target source =>
    target.mentions ++ source.mentions
  | .jmp target | .je target => [target]
  | .push _ | .pop _ | .movzx _ _ | .imul _ _ | .cdq | .idiv _ | .neg _ | .and _ _ | .or _ _
  | .set _ _ | .call _ | .ret | .interrupt _ => []

/-- The labels in a line, whether it places them or not. -/
def Line.mentions : Line → List Label
  | .code i _ => i.mentions
  | .label l => [l]
  | .entry _ | .comment _ | .raw _ | .blank => []

/-- **The labels that occur in a listing,** in order. -/
def mentioned (lines : Listing) : List Label := lines.flatMap Line.mentions

section Mentioned

variable {lines xs ys : Listing} {i : Instruction} {l : Label}

@[simp] theorem mentioned_nil : mentioned [] = [] := rfl

@[simp] theorem mentioned_append : mentioned (xs ++ ys) = mentioned xs ++ mentioned ys :=
  List.flatMap_append

@[simp] theorem mentioned_plain : mentioned (.plain i :: lines) = i.mentions ++ mentioned lines :=
  rfl

@[simp] theorem mentioned_noted {remark : String} :
    mentioned (.noted i remark :: lines) = i.mentions ++ mentioned lines := rfl

@[simp] theorem mentioned_label : mentioned (.label l :: lines) = l :: mentioned lines := rfl

@[simp] theorem mentioned_comment {text : String} :
    mentioned (.comment text :: lines) = mentioned lines := rfl

@[simp] theorem mentioned_entry {name : String} :
    mentioned (.entry name :: lines) = mentioned lines := rfl

@[simp] theorem mentioned_raw {text : String} : mentioned (.raw text :: lines) = mentioned lines :=
  rfl

@[simp] theorem mentioned_blank : mentioned (.blank :: lines) = mentioned lines := rfl

end Mentioned

/-- The labels that are not those of texts. -/
def forJumps (labels : List Label) : List Label := labels.filter (·.stem ≠ "str")

section ForJumps

variable {labels xs ys : List Label} {l : Label}

@[simp] theorem forJumps_nil : forJumps [] = [] := rfl

@[simp] theorem forJumps_cons (h : l.stem ≠ "str") :
    forJumps (l :: labels) = l :: forJumps labels :=
  List.filter_cons_of_pos (decide_eq_true h)

@[simp] theorem forJumps_append : forJumps (xs ++ ys) = forJumps xs ++ forJumps ys :=
  List.filter_append xs ys

theorem mem_forJumps : l ∈ forJumps labels ↔ l ∈ labels ∧ l.stem ≠ "str" := by
  rw [forJumps, List.mem_filter, decide_eq_true_iff]

end ForJumps

/-! ### Labels of expressions -/

/-- The label that the code of a constant takes. -/
def Literal.taken (n : Nat) : Literal → List Label
  | .string _ => [⟨"str", n⟩]
  | .integer _ | .float _ | .boolean _ => []

namespace Expr

mutual

/-- The labels that the code of an expression takes, in order. -/
def taken (n : Nat) : Expr → List Label
  | literal value _ => value.taken n
  | var _ _ => []
  | unary _ operand _ => taken n operand
  | binary _ left right _ => taken n left ++ taken (n + left.labels) right
  | call callee arguments _ => if callee.name?.isSome then takenAll n arguments else []
  | assign _ value _ => taken n value

/-- The labels that the code of arguments takes, those of the last argument first. -/
def takenAll (n : Nat) : List Expr → List Label
  | [] => []
  | e :: es => takenAll n es ++ taken (n + labelsAll es) e

end

/-- The labels that the code of an expression takes, if there is one. -/
def takenOption (n : Nat) : Option Expr → List Label
  | none => []
  | some e => e.taken n

end Expr

theorem Literal.map_id_taken (v : Literal) (n : Nat) :
    (v.taken n).map Label.id = List.range' n v.labels := by
  cases v <;> rfl

theorem Literal.stem_of_mem_taken {v : Literal} {n : Nat} {l : Label} (h : l ∈ v.taken n) :
    l.stem = "str" := by
  cases v with
  | string =>
    obtain rfl := List.mem_singleton.mp h
    rfl
  | integer | float | boolean => cases h

theorem Literal.mentioned_code (v : Literal) (n : Nat) : mentioned (v.code n) = v.taken n := by
  cases v <;> rfl

theorem UnaryOp.mentioned_code (op : UnaryOp) : mentioned op.code = [] := by
  cases op <;> rfl

theorem BinaryOp.mentioned_code (op : BinaryOp) : mentioned op.code = [] := by
  cases op <;> rfl

namespace Expr

theorem mentioned_cleanup (count : Nat) : mentioned (cleanup count) = [] := by
  rw [cleanup]
  split <;> rfl

mutual

theorem map_id_taken : ∀ (e : Expr) (n : Nat),
    (e.taken n).map Label.id = List.range' n e.labels
  | literal v _, n => v.map_id_taken n
  | var _ _, _ => rfl
  | unary _ operand _, n => operand.map_id_taken n
  | binary _ left right _, n => by
    rw [taken, List.map_append, map_id_taken left, map_id_taken right, List.range'_append_1, labels]
  | call callee arguments _, n => by
    rw [taken, labels]
    split
    · exact map_id_takenAll arguments n
    · rfl
  | assign _ value _, n => value.map_id_taken n

theorem map_id_takenAll : ∀ (es : List Expr) (n : Nat),
    (takenAll n es).map Label.id = List.range' n (labelsAll es)
  | [], _ => rfl
  | e :: es, n => by
    rw [takenAll, List.map_append, map_id_takenAll es, map_id_taken e, List.range'_append_1,
      labelsAll]

end

mutual

/-- Only texts take labels. -/
theorem stem_of_mem_taken {l : Label} : ∀ {e : Expr} {n : Nat}, l ∈ e.taken n → l.stem = "str"
  | literal v _, n, h => Literal.stem_of_mem_taken (v := v) h
  | var _ _, _, h => absurd h List.not_mem_nil
  | unary _ operand _, n, h => stem_of_mem_taken (e := operand) h
  | binary _ left right _, n, h => by
    rcases List.mem_append.mp h with h | h
    · exact stem_of_mem_taken h
    · exact stem_of_mem_taken h
  | call callee arguments _, n, h => by
    rw [taken] at h
    split at h
    · exact stem_of_mem_takenAll h
    · cases h
  | assign _ value _, n, h => stem_of_mem_taken (e := value) h

theorem stem_of_mem_takenAll {l : Label} : ∀ {es : List Expr} {n : Nat},
    l ∈ takenAll n es → l.stem = "str"
  | [], _, h => absurd h List.not_mem_nil
  | e :: es, n, h => by
    rcases List.mem_append.mp h with h | h
    · exact stem_of_mem_takenAll h
    · exact stem_of_mem_taken h

end

@[simp] theorem forJumps_taken (e : Expr) (n : Nat) : forJumps (e.taken n) = [] := by
  refine List.filter_eq_nil_iff.mpr fun l hl => ?_
  simp [stem_of_mem_taken hl]

mutual

/-- The labels in the code of an expression are those that it takes, in the same order. -/
@[simp] theorem mentioned_code : ∀ (e : Expr) (n : Nat), mentioned (e.code n) = e.taken n
  | literal v _, n => v.mentioned_code n
  | var _ _, _ => rfl
  | unary op operand _, n => by
    simp [code, taken, mentioned_code operand, UnaryOp.mentioned_code]
  | binary op left right _, n => by
    simp [code, taken, mentioned_code left, mentioned_code right, BinaryOp.mentioned_code]
  | call callee arguments _, n => by
    rw [code, taken]
    cases callee.name? with
    | none => rfl
    | some name => simp [mentioned_codeAll arguments, mentioned_cleanup]
  | assign _ value _, n => by simp [code, taken, mentioned_code value]

theorem mentioned_codeAll : ∀ (es : List Expr) (n index : Nat),
    mentioned (codeAll n index es) = takenAll n es
  | [], _, _ => rfl
  | e :: es, n, index => by
    simp [codeAll, takenAll, mentioned_codeAll es, mentioned_code e]

end

@[simp] theorem mentioned_codeOption (n : Nat) (e : Option Expr) :
    mentioned (codeOption n e) = takenOption n e := by
  cases e with
  | none => rfl
  | some e => exact e.mentioned_code n

theorem map_id_takenOption (e : Option Expr) (n : Nat) :
    (takenOption n e).map Label.id = List.range' n (labelsOption e) := by
  cases e with
  | none => rfl
  | some e => exact e.map_id_taken n

end Expr

/-! ### Labels of statements -/

namespace Stmt

mutual

/-- **The labels that the code of a statement takes,** in order. -/
def taken (n : Nat) : Stmt → List Label
  | expr e => e.taken n
  | print e _ => e.taken n
  | giveBack value _ => Expr.takenOption n value
  | variableDecl _ _ initial _ => Expr.takenOption n initial
  | block body _ => takenAll n body
  | branch condition yes no _ =>
    let m := n + 2 + condition.labels
    ⟨"else", n⟩ :: ⟨"endif", n + 1⟩ :: (condition.taken (n + 2) ++
      (taken m yes ++ takenOption (m + yes.labels) no))
  | whileLoop condition body _ =>
    ⟨"loop", n⟩ :: ⟨"endloop", n + 1⟩ :: (condition.taken (n + 2) ++
      taken (n + 2 + condition.labels) body)
  | forLoop initial condition increment body _ =>
    let m := n + 2 + labelsOption initial
    let k := m + Expr.labelsOption condition
    ⟨"forloop", n⟩ :: ⟨"endfor", n + 1⟩ :: (takenOption (n + 2) initial ++
      (Expr.takenOption m condition ++ (taken k body ++
        Expr.takenOption (k + body.labels) increment)))
  | functionDecl _ _ _ body _ _ => takenAll n body

/-- The labels that the code of statements takes, in order. -/
def takenAll (n : Nat) : List Stmt → List Label
  | [] => []
  | s :: rest => taken n s ++ takenAll (n + s.labels) rest

/-- The labels that the code of a statement takes, if there is one. -/
def takenOption (n : Nat) : Option Stmt → List Label
  | none => []
  | some s => taken n s

end

/-- Two labels of a branch or a loop, and those of its parts behind them. -/
theorem range'_two_add (n k : Nat) :
    n :: (n + 1) :: List.range' (n + 2) k = List.range' n (2 + k) := by
  rw [Nat.add_comm 2 k, List.range'_succ, List.range'_succ]

mutual

theorem map_id_taken : ∀ (s : Stmt) (n : Nat), (s.taken n).map Label.id = List.range' n s.labels
  | expr e, n => e.map_id_taken n
  | print e _, n => e.map_id_taken n
  | giveBack value _, n => Expr.map_id_takenOption value n
  | variableDecl _ _ initial _, n => Expr.map_id_takenOption initial n
  | block body _, n => map_id_takenAll body n
  | branch c yes no _, n => by
    simp only [taken, List.map_cons, List.map_append, Expr.map_id_taken, map_id_taken yes,
      map_id_takenOption no, List.range'_append_1, range'_two_add, labels]
    simp only [Nat.add_assoc]
  | whileLoop c body _, n => by
    simp only [taken, List.map_cons, List.map_append, Expr.map_id_taken, map_id_taken body,
      List.range'_append_1, range'_two_add, labels]
    simp only [Nat.add_assoc]
  | forLoop initial c i body _, n => by
    simp only [taken, List.map_cons, List.map_append, Expr.map_id_takenOption, map_id_taken body,
      map_id_takenOption initial, List.range'_append_1, range'_two_add, labels]
    simp only [Nat.add_assoc]
  | functionDecl _ _ _ body _ _, n => map_id_takenAll body n

theorem map_id_takenAll : ∀ (body : List Stmt) (n : Nat),
    (takenAll n body).map Label.id = List.range' n (labelsAll body)
  | [], _ => rfl
  | s :: rest, n => by
    rw [takenAll, List.map_append, map_id_taken s, map_id_takenAll rest, List.range'_append_1,
      labelsAll]

theorem map_id_takenOption : ∀ (s : Option Stmt) (n : Nat),
    (takenOption n s).map Label.id = List.range' n (labelsOption s)
  | none, _ => rfl
  | some s, n => map_id_taken s n

end

mutual

/-- The labels in the code of a statement are those that it takes. -/
theorem mem_mentioned_code {l : Label} : ∀ (s : Stmt) (n : Nat),
    l ∈ mentioned (s.code n) ↔ l ∈ s.taken n
  | expr e, n => by simp [code, taken]
  | print e _, n => by simp [code, taken, printCode]
  | giveBack value _, n => by
    cases value <;> simp [code, taken, giveBackCode, epilogue, Expr.takenOption]
  | variableDecl _ _ initial _, n => by
    cases initial <;> simp [code, taken, variableCode, Expr.takenOption]
  | block body _, n => by simp [code, taken, mem_mentioned_codeAll body]
  | branch c yes no _, n => by
    simp [code, taken, jumpIfZero, mem_mentioned_code yes, mem_mentioned_codeOption no]
    tauto
  | whileLoop c body _, n => by
    simp [code, taken, jumpIfZero, mem_mentioned_code body]
    tauto
  | forLoop initial c i body _, n => by
    cases c <;> simp [code, taken, jumpIfZero, conditionCode, mem_mentioned_code body,
      mem_mentioned_codeOption initial, Expr.takenOption] <;> tauto
  | functionDecl _ _ _ body _ _, n => by
    simp [code, taken, prologue, epilogue, mem_mentioned_codeAll body]

theorem mem_mentioned_codeAll {l : Label} : ∀ (body : List Stmt) (n : Nat),
    l ∈ mentioned (codeAll n body) ↔ l ∈ takenAll n body
  | [], _ => Iff.rfl
  | s :: rest, n => by
    simp [codeAll, takenAll, mem_mentioned_code s, mem_mentioned_codeAll rest]

theorem mem_mentioned_codeOption {l : Label} : ∀ (s : Option Stmt) (n : Nat),
    l ∈ mentioned (codeOption n s) ↔ l ∈ takenOption n s
  | none, _ => Iff.rfl
  | some s, n => mem_mentioned_code s n

end

/-! ### Labels that are placed -/

mutual

/-- The labels that the code of a statement places are those that it takes for jumps. -/
theorem mem_placed_code {l : Label} : ∀ (s : Stmt) (n : Nat),
    l ∈ placed (s.code n) ↔ l ∈ forJumps (s.taken n)
  | expr e, n => by simp [code, taken]
  | print e _, n => by simp [code, taken, printCode]
  | giveBack value _, n => by
    cases value <;> simp [code, taken, giveBackCode, epilogue, Expr.takenOption]
  | variableDecl _ _ initial _, n => by
    cases initial <;> simp [code, taken, variableCode, Expr.takenOption]
  | block body _, n => by simp [code, taken, mem_placed_codeAll body]
  | branch c yes no _, n => by
    simp [code, taken, jumpIfZero, mem_placed_code yes, mem_placed_codeOption no]
    tauto
  | whileLoop c body _, n => by
    simp [code, taken, jumpIfZero, mem_placed_code body]
    tauto
  | forLoop initial c i body _, n => by
    cases c <;> cases i <;> simp [code, taken, jumpIfZero, conditionCode, Expr.takenOption,
      mem_placed_code body, mem_placed_codeOption initial] <;> tauto
  | functionDecl _ _ _ body _ _, n => by
    simp [code, taken, prologue, epilogue, mem_placed_codeAll body]

theorem mem_placed_codeAll {l : Label} : ∀ (body : List Stmt) (n : Nat),
    l ∈ placed (codeAll n body) ↔ l ∈ forJumps (takenAll n body)
  | [], _ => Iff.rfl
  | s :: rest, n => by
    simp only [codeAll, takenAll, placed_append, forJumps_append, List.mem_append,
      mem_placed_code s, mem_placed_codeAll rest]

theorem mem_placed_codeOption {l : Label} : ∀ (s : Option Stmt) (n : Nat),
    l ∈ placed (codeOption n s) ↔ l ∈ forJumps (takenOption n s)
  | none, _ => Iff.rfl
  | some s, n => mem_placed_code s n

end

end Stmt

end StackListing
