import Mathlib.Data.List.Nodup
import StackListing.Stmt.Code
import StackListing.Proofs.Execution.Machine

/-!
# Where labels stand

`placed lines` lists the labels that stand in a listing.  The code of an expression has none.  Those
in the code of a statement whose labels start at `n` have different numbers, all from `n` on and as
many as the statement takes at most.  So no two labels of a program are the same, and a jump gets to
the place where its label was put.
-/

namespace StackListing

/-- The label that a line places. -/
def Line.label? : Line → Option Label
  | .label l => some l
  | _ => none

/-- **The labels that stand in a listing,** in order. -/
def placed (lines : Listing) : List Label := lines.filterMap Line.label?

section Placed

variable {lines xs ys : Listing} {l : Label}

@[simp] theorem placed_nil : placed [] = [] := rfl

@[simp] theorem placed_append : placed (xs ++ ys) = placed xs ++ placed ys :=
  List.filterMap_append

@[simp] theorem placed_label : placed (.label l :: lines) = l :: placed lines := rfl

@[simp] theorem placed_code {i : Instruction} {remark : Option String} :
    placed (.code i remark :: lines) = placed lines := rfl

@[simp] theorem placed_plain {i : Instruction} : placed (.plain i :: lines) = placed lines := rfl

@[simp] theorem placed_noted {i : Instruction} {remark : String} :
    placed (.noted i remark :: lines) = placed lines := rfl

@[simp] theorem placed_comment {text : String} : placed (.comment text :: lines) = placed lines :=
  rfl

@[simp] theorem placed_entry {name : String} : placed (.entry name :: lines) = placed lines := rfl

@[simp] theorem placed_raw {text : String} : placed (.raw text :: lines) = placed lines := rfl

@[simp] theorem placed_blank : placed (.blank :: lines) = placed lines := rfl

theorem mem_placed : l ∈ placed lines ↔ .label l ∈ lines := by
  rw [placed, List.mem_filterMap]
  constructor
  · rintro ⟨line, hline, h⟩
    cases line with
    | label l' => cases h; exact hline
    | _ => cases h
  · intro h
    exact ⟨.label l, h, rfl⟩

/-- A jump gets to the place of its label, if no label stands twice in the listing. -/
theorem jump_eq_ok {code : Listing} {pc : Nat} (hn : (placed code).Nodup)
    (hl : code[pc]? = some (.label l)) (m : Machine) : jump code l m = .ok ⟨pc, m⟩ := by
  obtain ⟨hpc, hget⟩ := List.getElem?_eq_some_iff.mp hl
  have hsplit : code = code.take pc ++ .label l :: code.drop (pc + 1) := by
    rw [← hget, ← List.drop_eq_getElem_cons hpc, List.take_append_drop]
  have hbefore : .label l ∉ code.take pc := by
    intro h
    rw [hsplit, placed_append, placed_label] at hn
    exact List.disjoint_of_nodup_append hn (mem_placed.mpr h) List.mem_cons_self
  have hidx : code.idxOf (.label l) = pc := by
    conv_lhs => rw [hsplit]
    rw [List.idxOf_append_of_notMem hbefore, List.idxOf_cons_self, List.length_take]
    omega
  rw [jump, if_pos (List.mem_of_getElem? hl), hidx]

end Placed

/-! ### Labels of expressions -/

theorem Literal.placed_code (n : Nat) (v : Literal) : placed (v.code n) = [] := by
  cases v <;> rfl

theorem UnaryOp.placed_code (op : UnaryOp) : placed op.code = [] := by
  cases op <;> rfl

theorem BinaryOp.placed_code (op : BinaryOp) : placed op.code = [] := by
  cases op <;> rfl

theorem Expr.placed_cleanup (count : Nat) : placed (Expr.cleanup count) = [] := by
  rw [Expr.cleanup]
  split <;> rfl

mutual

@[simp] theorem Expr.placed_code : ∀ (e : Expr) (n : Nat), placed (e.code n) = []
  | .literal v _, n => Literal.placed_code n v
  | .var _ _, _ => rfl
  | .unary op operand _, n => by
    simp [Expr.code, Expr.placed_code operand, UnaryOp.placed_code]
  | .binary op left right _, n => by
    simp [Expr.code, Expr.placed_code left, Expr.placed_code right, BinaryOp.placed_code]
  | .call callee arguments _, n => by
    rw [Expr.code]
    split
    · rfl
    · simp [Expr.placed_codeAll arguments, Expr.placed_cleanup]
  | .assign _ value _, n => by simp [Expr.code, Expr.placed_code value]

theorem Expr.placed_codeAll : ∀ (es : List Expr) (n index : Nat),
    placed (Expr.codeAll n index es) = []
  | [], _, _ => rfl
  | e :: es, n, index => by
    simp [Expr.codeAll, Expr.placed_codeAll es, Expr.placed_code e]

end

@[simp] theorem Expr.placed_codeOption (n : Nat) (e : Option Expr) :
    placed (Expr.codeOption n e) = [] := by
  cases e with
  | none => rfl
  | some e => exact Expr.placed_code e n

/-! ### Labels of statements -/

/-- The labels of a listing have different numbers, all from `a` on and below `b`. -/
def Numbered (lines : Listing) (a b : Nat) : Prop :=
  ((placed lines).map Label.id).Nodup ∧ ∀ i ∈ (placed lines).map Label.id, a ≤ i ∧ i < b

namespace Numbered

variable {lines xs ys : Listing} {a b c n : Nat}

theorem of_placed (h : placed lines = []) : Numbered lines a b := by
  rw [Numbered, h]
  simp

theorem congr (h : placed xs = placed ys) (hn : Numbered xs a b) : Numbered ys a b := by
  rwa [Numbered, ← h]

theorem mono {a' b' : Nat} (ha : a' ≤ a) (hb : b ≤ b') (h : Numbered lines a b) :
    Numbered lines a' b' := by
  refine ⟨h.1, ?_⟩
  intro i hi
  have := h.2 i hi
  omega

theorem append (hab : a ≤ b) (hbc : b ≤ c) (hx : Numbered xs a b) (hy : Numbered ys b c) :
    Numbered (xs ++ ys) a c := by
  rw [Numbered, placed_append, List.map_append]
  constructor
  · refine List.Nodup.append hx.1 hy.1 ?_
    intro i hi hi'
    have := hx.2 i hi
    have := hy.2 i hi'
    omega
  · intro i hi
    rcases List.mem_append.mp hi with hi | hi
    · have := hx.2 i hi
      omega
    · have := hy.2 i hi
      omega

/-- A branch or a loop: its own labels have the first two numbers and stand behind its two parts. -/
theorem around (stem stem' : String) (hb : n + 2 ≤ b) (hc : b ≤ c)
    (hx : Numbered xs (n + 2) b) (hy : Numbered ys b c) :
    Numbered (xs ++ .label ⟨stem, n⟩ :: (ys ++ [.label ⟨stem', n + 1⟩])) n c := by
  have hxy := append hb hc hx hy
  have hperm : ((placed (xs ++ .label ⟨stem, n⟩ :: (ys ++ [.label ⟨stem', n + 1⟩]))).map
      Label.id).Perm (n :: (n + 1) :: (placed (xs ++ ys)).map Label.id) := by
    simp only [placed_append, placed_label, placed_nil, List.map_append, List.map_cons,
      List.map_nil]
    refine List.perm_middle.trans (List.Perm.cons n ?_)
    rw [← List.append_assoc]
    exact List.perm_append_singleton _ _
  have hrange : ∀ i ∈ n :: (n + 1) :: (placed (xs ++ ys)).map Label.id, n ≤ i ∧ i < c := by
    intro i hi
    rcases List.mem_cons.mp hi with rfl | hi
    · omega
    rcases List.mem_cons.mp hi with rfl | hi
    · omega
    have := hxy.2 i hi
    omega
  refine ⟨hperm.nodup_iff.mpr ?_, fun i hi => hrange i (hperm.mem_iff.mp hi)⟩
  refine List.nodup_cons.mpr ⟨?_, List.nodup_cons.mpr ⟨?_, hxy.1⟩⟩
  · intro h
    rcases List.mem_cons.mp h with h | h
    · omega
    · have := hxy.2 n h
      omega
  · intro h
    have := hxy.2 (n + 1) h
    omega

end Numbered

mutual

theorem Stmt.numbered_code : ∀ (s : Stmt) (n : Nat), Numbered (s.code n) n (n + s.labels)
  | .expr e, n => .of_placed (e.placed_code n)
  | .print e _, n => .of_placed (by simp [Stmt.code, Stmt.printCode])
  | .giveBack value _, n =>
    .of_placed (by cases value <;> simp [Stmt.code, Stmt.giveBackCode, epilogue])
  | .variableDecl _ _ initial _, n =>
    .of_placed (by cases initial <;> simp [Stmt.code, Stmt.variableCode])
  | .block body _, n => (Stmt.numbered_codeAll body n).congr (by simp [Stmt.code])
  | .branch c yes no _, n => by
    have hx : Numbered (yes.code (n + 2 + c.labels)) (n + 2) (n + 2 + c.labels + yes.labels) :=
      (Stmt.numbered_code yes _).mono (by omega) Nat.le.refl
    have hy := Stmt.numbered_codeOption no (n + 2 + c.labels + yes.labels)
    have h := Numbered.around "else" "endif" (by omega) (by omega) hx hy
    refine (h.congr ?_).mono Nat.le.refl ?_
    · simp [Stmt.code, jumpIfZero]
    · rw [Stmt.labels]
      omega
  | .whileLoop c body _, n => by
    have hx : Numbered [] (n + 2) (n + 2) := .of_placed rfl
    have hy : Numbered (body.code (n + 2 + c.labels)) (n + 2) (n + 2 + c.labels + body.labels) :=
      (Stmt.numbered_code body _).mono (by omega) Nat.le.refl
    have h := Numbered.around "loop" "endloop" (by omega) (by omega) hx hy
    refine (h.congr ?_).mono Nat.le.refl ?_
    · simp [Stmt.code, jumpIfZero]
    · rw [Stmt.labels]
      omega
  | .forLoop initial c increment body _, n => by
    have hx := Stmt.numbered_codeOption initial (n + 2)
    have hy : Numbered (body.code (n + 2 + Stmt.labelsOption initial + Expr.labelsOption c))
        (n + 2 + Stmt.labelsOption initial)
        (n + 2 + Stmt.labelsOption initial + Expr.labelsOption c + body.labels) :=
      (Stmt.numbered_code body _).mono (by omega) Nat.le.refl
    have h := Numbered.around "forloop" "endfor" (by omega) (by omega) hx hy
    refine (h.congr ?_).mono Nat.le.refl ?_
    · cases c <;> simp [Stmt.code, Stmt.conditionCode, jumpIfZero]
    · rw [Stmt.labels]
      omega
  | .functionDecl _ _ _ body _ _, n =>
    (Stmt.numbered_codeAll body n).congr (by simp [Stmt.code, prologue, epilogue])

theorem Stmt.numbered_codeAll : ∀ (body : List Stmt) (n : Nat),
    Numbered (Stmt.codeAll n body) n (n + Stmt.labelsAll body)
  | [], _ => .of_placed rfl
  | s :: rest, n => by
    have h := (Stmt.numbered_code s n).append (by omega) (by omega)
      (Stmt.numbered_codeAll rest (n + s.labels))
    rwa [Nat.add_assoc] at h

theorem Stmt.numbered_codeOption : ∀ (s : Option Stmt) (n : Nat),
    Numbered (Stmt.codeOption n s) n (n + Stmt.labelsOption s)
  | none, _ => .of_placed rfl
  | some s, n => Stmt.numbered_code s n

end

/-- **No label stands twice in the listing of a program.** -/
theorem Program.nodup_placed_code (p : Program) (n : Nat) : (placed (p.code n)).Nodup := by
  have h : placed (p.code n) = placed (Stmt.codeAll n p.statements) := by
    simp [Program.code, Program.header, Program.footer]
  rw [h]
  exact (Stmt.numbered_codeAll p.statements n).1.of_map _

end StackListing
