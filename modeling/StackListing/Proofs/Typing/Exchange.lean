import StackListing.Compilation
import StackListing.Proofs.Typing.Inversion

/-!
# Operands that change places

`Exchanged op position` relates two programs of which one has the operands of a single operation
`op`, the one at `position`, in the other order.  The operators for which the order should not
matter to the rules of types are equality, inequality, addition, multiplication and the logical
ones.  For all but the first two it does not: one program is checked without a complaint exactly if
the other is.  Equality lets the left operand be a float and the right one an integer, but not the
other way round, so an exchange can bring in a complaint, though only that one
(`Program.check_exchanged`).

The proof follows a clean run of checking: what it turns into by the exchange is the same run or one
with a single further complaint, and nothing that contains the operation adds to it.
-/

namespace StackListing

/-! ### The exchange -/

mutual

/-- The expressions differ in the order of the operands of one operation. -/
inductive Expr.Exchanged (op : BinaryOp) (position : Position) : Expr → Expr → Prop
  | here (l r : Expr) :
      Expr.Exchanged op position (.binary op l r position) (.binary op r l position)
  | unary (o : UnaryOp) {e e' : Expr} (h : Expr.Exchanged op position e e') (p : Position) :
      Expr.Exchanged op position (.unary o e p) (.unary o e' p)
  | left (o : BinaryOp) {l l' : Expr} (h : Expr.Exchanged op position l l') (r : Expr)
      (p : Position) : Expr.Exchanged op position (.binary o l r p) (.binary o l' r p)
  | right (o : BinaryOp) (l : Expr) {r r' : Expr} (h : Expr.Exchanged op position r r')
      (p : Position) : Expr.Exchanged op position (.binary o l r p) (.binary o l r' p)
  | callee {e e' : Expr} (h : Expr.Exchanged op position e e') (arguments : List Expr)
      (p : Position) : Expr.Exchanged op position (.call e arguments p) (.call e' arguments p)
  | arguments (callee : Expr) {es es' : List Expr} (h : Expr.AnyExchanged op position es es')
      (p : Position) : Expr.Exchanged op position (.call callee es p) (.call callee es' p)
  | assign (name : String) {e e' : Expr} (h : Expr.Exchanged op position e e') (p : Position) :
      Expr.Exchanged op position (.assign name e p) (.assign name e' p)

@[inherit_doc Expr.Exchanged]
inductive Expr.AnyExchanged (op : BinaryOp) (position : Position) : List Expr → List Expr → Prop
  | head {e e' : Expr} (h : Expr.Exchanged op position e e') (es : List Expr) :
      Expr.AnyExchanged op position (e :: es) (e' :: es)
  | tail (e : Expr) {es es' : List Expr} (h : Expr.AnyExchanged op position es es') :
      Expr.AnyExchanged op position (e :: es) (e :: es')

end

mutual

/-- The statements differ in the order of the operands of one operation. -/
inductive Stmt.Exchanged (op : BinaryOp) (position : Position) : Stmt → Stmt → Prop
  | expr {e e' : Expr} (h : e.Exchanged op position e') :
      Stmt.Exchanged op position (.expr e) (.expr e')
  | variableDecl (type : ValueType) (name : String) {e e' : Expr} (h : e.Exchanged op position e')
      (p : Position) : Stmt.Exchanged op position (.variableDecl type name (some e) p)
        (.variableDecl type name (some e') p)
  | block {ss ss' : List Stmt} (h : Stmt.AnyExchanged op position ss ss') (p : Position) :
      Stmt.Exchanged op position (.block ss p) (.block ss' p)
  | branchCondition {c c' : Expr} (h : c.Exchanged op position c') (yes : Stmt) (no : Option Stmt)
      (p : Position) : Stmt.Exchanged op position (.branch c yes no p) (.branch c' yes no p)
  | branchYes (c : Expr) {yes yes' : Stmt} (h : Stmt.Exchanged op position yes yes')
      (no : Option Stmt) (p : Position) :
      Stmt.Exchanged op position (.branch c yes no p) (.branch c yes' no p)
  | branchNo (c : Expr) (yes : Stmt) {no no' : Stmt} (h : Stmt.Exchanged op position no no')
      (p : Position) :
      Stmt.Exchanged op position (.branch c yes (some no) p) (.branch c yes (some no') p)
  | whileCondition {c c' : Expr} (h : c.Exchanged op position c') (body : Stmt) (p : Position) :
      Stmt.Exchanged op position (.whileLoop c body p) (.whileLoop c' body p)
  | whileBody (c : Expr) {body body' : Stmt} (h : Stmt.Exchanged op position body body')
      (p : Position) : Stmt.Exchanged op position (.whileLoop c body p) (.whileLoop c body' p)
  | forInitial {s s' : Stmt} (h : Stmt.Exchanged op position s s') (c i : Option Expr)
      (body : Stmt) (p : Position) :
      Stmt.Exchanged op position (.forLoop (some s) c i body p) (.forLoop (some s') c i body p)
  | forCondition (initial : Option Stmt) {c c' : Expr} (h : c.Exchanged op position c')
      (i : Option Expr) (body : Stmt) (p : Position) : Stmt.Exchanged op position
        (.forLoop initial (some c) i body p) (.forLoop initial (some c') i body p)
  | forIncrement (initial : Option Stmt) (c : Option Expr) {i i' : Expr}
      (h : i.Exchanged op position i') (body : Stmt) (p : Position) : Stmt.Exchanged op position
        (.forLoop initial c (some i) body p) (.forLoop initial c (some i') body p)
  | forBody (initial : Option Stmt) (c i : Option Expr) {body body' : Stmt}
      (h : Stmt.Exchanged op position body body') (p : Position) :
      Stmt.Exchanged op position (.forLoop initial c i body p) (.forLoop initial c i body' p)
  | giveBack {e e' : Expr} (h : e.Exchanged op position e') (p : Position) :
      Stmt.Exchanged op position (.giveBack (some e) p) (.giveBack (some e') p)
  | functionDecl (result : ValueType) (name : String) (ps : List Parameter) {ss ss' : List Stmt}
      (h : Stmt.AnyExchanged op position ss ss') (b p : Position) : Stmt.Exchanged op position
        (.functionDecl result name ps ss b p) (.functionDecl result name ps ss' b p)
  | print {e e' : Expr} (h : e.Exchanged op position e') (p : Position) :
      Stmt.Exchanged op position (.print e p) (.print e' p)

@[inherit_doc Stmt.Exchanged]
inductive Stmt.AnyExchanged (op : BinaryOp) (position : Position) : List Stmt → List Stmt → Prop
  | head {s s' : Stmt} (h : Stmt.Exchanged op position s s') (ss : List Stmt) :
      Stmt.AnyExchanged op position (s :: ss) (s' :: ss)
  | tail (s : Stmt) {ss ss' : List Stmt} (h : Stmt.AnyExchanged op position ss ss') :
      Stmt.AnyExchanged op position (s :: ss) (s :: ss')

end

/-- **The programs differ in the order of the operands of one operation.** -/
def Program.Exchanged (op : BinaryOp) (position : Position) (p q : Program) : Prop :=
  Stmt.AnyExchanged op position p.statements q.statements

variable {op : BinaryOp} {position : Position}

mutual

theorem Expr.Exchanged.symm {e e' : Expr} :
    e.Exchanged op position e' → e'.Exchanged op position e
  | .here l r => .here r l
  | .unary o h p => .unary o h.symm p
  | .left o h r p => .left o h.symm r p
  | .right o l h p => .right o l h.symm p
  | .callee h es p => .callee h.symm es p
  | .arguments e h p => .arguments e h.symm p
  | .assign name h p => .assign name h.symm p

theorem Expr.AnyExchanged.symm {es es' : List Expr} :
    Expr.AnyExchanged op position es es' → Expr.AnyExchanged op position es' es
  | .head h es => .head h.symm es
  | .tail e h => .tail e h.symm

end

mutual

theorem Stmt.Exchanged.symm {s s' : Stmt} :
    s.Exchanged op position s' → s'.Exchanged op position s
  | .expr h => .expr h.symm
  | .variableDecl type name h p => .variableDecl type name h.symm p
  | .block h p => .block h.symm p
  | .branchCondition h yes no p => .branchCondition h.symm yes no p
  | .branchYes c h no p => .branchYes c h.symm no p
  | .branchNo c yes h p => .branchNo c yes h.symm p
  | .whileCondition h body p => .whileCondition h.symm body p
  | .whileBody c h p => .whileBody c h.symm p
  | .forInitial h c i body p => .forInitial h.symm c i body p
  | .forCondition initial h i body p => .forCondition initial h.symm i body p
  | .forIncrement initial c h body p => .forIncrement initial c h.symm body p
  | .forBody initial c i h p => .forBody initial c i h.symm p
  | .giveBack h p => .giveBack h.symm p
  | .functionDecl result name ps h b p => .functionDecl result name ps h.symm b p
  | .print h p => .print h.symm p

theorem Stmt.AnyExchanged.symm {ss ss' : List Stmt} :
    Stmt.AnyExchanged op position ss ss' → Stmt.AnyExchanged op position ss' ss
  | .head h ss => .head h.symm ss
  | .tail s h => .tail s h.symm

end

/-! ### What a clean run turns into -/

/-- No complaints turn into none, or into a single one of `D`. -/
def Diagnostics.Turns (D : Diagnostic → Prop) (xs ys : Diagnostics) : Prop :=
  xs = [] → ys = [] ∨ ∃ d, D d ∧ ys = [d]

/-- An inference without complaints turns into itself, or into one with a single complaint of `D`
and no other type. -/
def Inference.Turns (D : Diagnostic → Prop) (a b : Inference) : Prop :=
  a.errors = [] → b = a ∨ ∃ d, D d ∧ b.errors = [d] ∧ (b.type? = none ∨ b.type? = a.type?)

/-- The same context is left, and no complaints turn into none or a single one of `D`. -/
structure Checked.Turns (D : Diagnostic → Prop) (a b : Checked) : Prop where
  context : b.context = a.context
  errors : Diagnostics.Turns D a.errors b.errors

variable {D : Diagnostic → Prop}

namespace Diagnostics.Turns

variable {xs ys : Diagnostics}

theorem refl (xs : Diagnostics) : Turns D xs xs := fun h => .inl h

theorem behind (zs : Diagnostics) (h : Turns D xs ys) : Turns D (zs ++ xs) (zs ++ ys) := by
  intro hnil
  obtain ⟨rfl, hxs⟩ := List.append_eq_nil_iff.mp hnil
  exact h hxs

theorem before (zs : Diagnostics) (h : Turns D xs ys) : Turns D (xs ++ zs) (ys ++ zs) := by
  intro hnil
  obtain ⟨hxs, rfl⟩ := List.append_eq_nil_iff.mp hnil
  simpa using h hxs

end Diagnostics.Turns

namespace Inference.Turns

variable {a b : Inference}

theorem refl (a : Inference) : a.Turns D a := fun _ => .inl rfl

/-- A judgement about the type adds nothing where there is no type. -/
theorem judged (h : a.Turns D b) (judge : Option ValueType → Diagnostics)
    (hjudge : judge none = []) :
    Diagnostics.Turns D (a.errors ++ judge a.type?) (b.errors ++ judge b.type?) := by
  intro hnil
  obtain ⟨ha, hj⟩ := List.append_eq_nil_iff.mp hnil
  rcases h ha with rfl | ⟨d, hd, hb, htype⟩
  · exact .inl hnil
  · refine .inr ⟨d, hd, ?_⟩
    rcases htype with htype | htype
    · rw [hb, htype, hjudge, List.append_nil]
    · rw [hb, htype, hj, List.append_nil]

theorem errors (h : a.Turns D b) : Diagnostics.Turns D a.errors b.errors := by
  simpa using h.judged (fun _ => []) rfl

end Inference.Turns

/-! ### Operators -/

namespace BinaryOp

/-- The operators that compare any two values. -/
def equalities : List BinaryOp := [equal, notEqual]

/-- The operators to whose rule of types the order of the operands is all the same. -/
def commuting : List BinaryOp := [add, multiply, and, or]

/-- The complaint about an integer that is compared with a float. -/
def mixed (op : BinaryOp) (position : Position) : Diagnostic :=
  ⟨.invalidOperands op.symbol ValueType.int.name ValueType.float.name, position⟩

theorem resultType?_of_equality (hop : op ∈ equalities) (σ τ : ValueType) :
    op.resultType? σ τ = if σ.accepts τ then some .bool else none := by
  simp only [equalities, List.mem_cons, List.not_mem_nil, or_false] at hop
  rcases hop with rfl | rfl <;> rfl

theorem resultType?_comm (hop : op ∈ commuting) (σ τ : ValueType) :
    op.resultType? σ τ = op.resultType? τ σ := by
  simp only [commuting, List.mem_cons, List.not_mem_nil, or_false] at hop
  rcases hop with rfl | rfl | rfl | rfl <;>
    simp only [resultType?, Bool.and_comm, ValueType.promote_comm σ τ]

/-- Only an equality between a float and an integer cares about the order of its operands. -/
theorem resultType?_exchange (hop : op ∈ equalities ++ commuting) {σ τ ρ : ValueType}
    (h : op.resultType? σ τ = some ρ) : op.resultType? τ σ = some ρ ∨
      op ∈ equalities ∧ σ = .float ∧ τ = .int ∧ op.resultType? τ σ = none := by
  rcases List.mem_append.mp hop with hop | hop
  · rw [resultType?_of_equality hop] at h ⊢
    have haccepts := (Option.ite_none_right_eq_some.mp h).1
    rcases ValueType.accepts_iff.mp haccepts with rfl | ⟨rfl, rfl⟩
    · exact .inl h
    · exact .inr ⟨hop, rfl, rfl, rfl⟩
  · exact .inl (by rw [resultType?_comm hop, h])

end BinaryOp

/-- What an exchange can bring in: an integer is compared with a float. -/
def BinaryOp.Brings (op : BinaryOp) (position : Position) (d : Diagnostic) : Prop :=
  op ∈ equalities ∧ d = op.mixed position

open BinaryOp (equalities commuting Brings)

/-! ### Inference -/

theorem Expr.Exchanged.name?_eq_none {e e' : Expr} (h : e.Exchanged op position e') :
    e.name? = none := by
  cases h <;> rfl

theorem Expr.Exchanged.position_eq {e e' : Expr} (h : e.Exchanged op position e') :
    e.position = e'.position := by
  cases h <;> rfl

/-- An expression that takes its type from that of a part, or has one of its own, and that says
nothing about a part without a type. -/
theorem Inference.Turns.through {a b : Inference} (h : a.Turns D b) (xs ys : Diagnostics)
    (type : Option ValueType → Option ValueType) (judge : Option ValueType → Diagnostics)
    (htype : ∀ τ, type none = none ∨ type none = type τ) (hjudge : judge none = []) :
    Inference.Turns D ⟨type a.type?, xs ++ a.errors ++ ys ++ judge a.type?⟩
      ⟨type b.type?, xs ++ b.errors ++ ys ++ judge b.type?⟩ := by
  intro hnil
  simp only [List.append_eq_nil_iff] at hnil
  obtain ⟨⟨⟨rfl, ha⟩, rfl⟩, hj⟩ := hnil
  rcases h ha with rfl | ⟨d, hd, hb, hnone | hsome⟩
  · exact .inl rfl
  · refine .inr ⟨d, hd, ?_⟩
    simpa [hb, hnone, hjudge] using htype a.type?
  · refine .inr ⟨d, hd, ?_⟩
    simp [hb, hsome, hj]

mutual

/-- **An exchange turns a clean inference into itself, or brings in one complaint.** -/
theorem Expr.Exchanged.infer (hop : op ∈ equalities ++ commuting) (t : SymbolTable) {e e' : Expr} :
    e.Exchanged op position e' → (e.infer t).Turns (op.Brings position) (e'.infer t)
  | .here l r => by
    intro hnil
    obtain ⟨ρ, hρ⟩ := Expr.exists_infer_eq hnil
    obtain ⟨σ, τ, hl, hr, hresult⟩ := Expr.infer_binary_iff.mp hρ
    rcases BinaryOp.resultType?_exchange hop hresult with hother | ⟨heq, rfl, rfl, hnone⟩
    · exact .inl (by rw [hρ, Expr.infer_binary_iff.mpr ⟨τ, σ, hr, hl, hother⟩])
    · refine .inr ⟨op.mixed position, ⟨heq, rfl⟩, ?_⟩
      simp [Expr.infer, hl, hr, hnone, BinaryOp.mixed]
  | .unary o h p => by
    have ih := (h.infer hop t).through [] [] (·.bind o.resultType?) (o.objection p)
      (fun _ => .inl rfl) rfl
    simpa only [Expr.infer_unary, List.nil_append, List.append_nil] using ih
  | .left o h r p => by
    have ih := (h.infer hop t).through [] (r.infer t).errors
      (fun σ => σ.bind fun σ => (r.infer t).type?.bind fun τ => o.resultType? σ τ)
      (fun σ => o.objection p σ (r.infer t).type?) (fun _ => .inl rfl) rfl
    simpa only [Expr.infer_binary, List.nil_append] using ih
  | .right o l h p => by
    have ih := (h.infer hop t).through (l.infer t).errors []
      (fun τ => (l.infer t).type?.bind fun σ => τ.bind fun τ => o.resultType? σ τ)
      (fun τ => o.objection p (l.infer t).type? τ) (fun _ => .inl (by simp)) (by simp)
    simpa only [Expr.infer_binary, List.append_nil] using ih
  | .callee h es p => by
    rw [Expr.infer, Expr.infer, h.name?_eq_none, h.symm.name?_eq_none]
    exact .refl _
  | .arguments callee h p => by
    have ih := h.inferAll hop t
    rw [Expr.infer, Expr.infer]
    split
    · exact .refl _
    · split
      · exact .refl _
      · split_ifs
        · intro hnil
          rcases ih hnil with hnil' | ⟨d, hd, herrors⟩
          · exact .inl (congrArg (Inference.mk _) (hnil'.trans hnil.symm))
          · exact .inr ⟨d, hd, herrors, .inr rfl⟩
        · exact .refl _
  | .assign name h p => by
    have ih := h.infer hop t
    rw [Expr.infer, Expr.infer]
    split
    · exact .refl _
    · rename_i s _
      have ih' := ih.through [] [] (fun _ => some s.type)
        (Inference.mismatch .typeMismatch s.type p) (fun _ => .inr rfl) rfl
      simpa only [List.nil_append, List.append_nil] using ih'

theorem Expr.AnyExchanged.inferAll (hop : op ∈ equalities ++ commuting) (t : SymbolTable)
    {es es' : List Expr} : Expr.AnyExchanged op position es es' →
      Diagnostics.Turns (op.Brings position) (Expr.inferAll t es) (Expr.inferAll t es')
  | .head h es => (h.infer hop t).errors.before _
  | .tail e h => (h.inferAll hop t).behind _

end

/-! ### Checking -/

namespace Expr.Exchanged

variable {e e' : Expr} (h : e.Exchanged op position e') (hop : op ∈ equalities ++ commuting)
  (c : Context)

include h hop

theorem checkCondition (construct : String) : Diagnostics.Turns (op.Brings position)
    (c.checkCondition construct e) (c.checkCondition construct e') := by
  rw [Context.checkCondition_eq, Context.checkCondition_eq, ← h.position_eq]
  exact (h.infer hop c.table).judged _ rfl

theorem checkInitial (type : ValueType) (p : Position) : Diagnostics.Turns (op.Brings position)
    (c.checkInitial type p (some e)) (c.checkInitial type p (some e')) :=
  (h.infer hop c.table).judged (Inference.mismatch .typeMismatch type p) rfl

theorem checkGiveBack (p : Position) : Diagnostics.Turns (op.Brings position)
    (c.checkGiveBack p (some e)) (c.checkGiveBack p (some e')) := by
  unfold Context.checkGiveBack
  split_ifs
  · cases c.result? with
    | none => exact (h.infer hop c.table).errors
    | some type =>
      exact (h.infer hop c.table).judged (Inference.mismatch .returnTypeMismatch type p) rfl
  · exact .refl _

end Expr.Exchanged

theorem Checked.Turns.refl (a : Checked) : a.Turns D a := ⟨rfl, .refl _⟩

mutual

/-- **An exchange leads to the same context, and brings at most one complaint into a clean run.** -/
theorem Stmt.Exchanged.check (hop : op ∈ equalities ++ commuting) {s s' : Stmt} :
    s.Exchanged op position s' → ∀ c : Context, (s.check c).Turns (op.Brings position) (s'.check c)
  | .expr h, c => ⟨rfl, (h.infer hop c.table).errors⟩
  | .print h _, c => ⟨rfl, (h.infer hop c.table).errors⟩
  | .giveBack h p, c => ⟨rfl, h.checkGiveBack hop c p⟩
  | .variableDecl type name h p, c => by
    unfold Stmt.check
    split_ifs
    · exact .refl _
    · exact ⟨rfl, (h.checkInitial hop c type p).before _⟩
  | .block h p, c => by
    have ih := h.checkAll hop c.enter
    exact ⟨congrArg Context.leave ih.context, ih.errors⟩
  | .branchCondition h yes no p, c => ⟨rfl, ((h.checkCondition hop c "If").before _).before _⟩
  | .branchYes condition h no p, c => by
    have ih := h.check hop c
    unfold Stmt.check
    dsimp only
    rw [ih.context]
    exact ⟨rfl, (ih.errors.behind _).before _⟩
  | .branchNo condition yes h p, c => by
    have ih := h.check hop (yes.check c).context
    exact ⟨ih.context, ih.errors.behind _⟩
  | .whileCondition h body p, c => ⟨rfl, (h.checkCondition hop c "While").before _⟩
  | .whileBody condition h p, c => by
    have ih := h.check hop c
    exact ⟨ih.context, ih.errors.behind _⟩
  | .forInitial h condition increment body p, c => by
    have ih := h.check hop c.enter
    unfold Stmt.check Stmt.checkOption
    dsimp only
    rw [ih.context]
    exact ⟨rfl, (ih.errors.before _).before _⟩
  | .forCondition initial h increment body p, c =>
    ⟨rfl, (((h.checkCondition hop (checkOption c.enter initial).context "For").before _).behind
      _).before _⟩
  | .forIncrement initial condition h body p, c =>
    ⟨rfl, (((h.infer hop (checkOption c.enter initial).context.table).errors.behind _).behind
      _).before _⟩
  | .forBody initial condition increment h p, c => by
    have ih := h.check hop (checkOption c.enter initial).context
    exact ⟨congrArg Context.leave ih.context, ih.errors.behind _⟩
  | .functionDecl result name ps h b p, c => by
    unfold Stmt.check
    split_ifs
    · exact .refl _
    · have ih := h.checkAll hop (((c.declare name result .function p).context.enterFunction
        result).declareAll ps).context.enter
      dsimp only
      rw [ih.context]
      exact ⟨rfl, ih.errors.behind _⟩

theorem Stmt.AnyExchanged.checkAll (hop : op ∈ equalities ++ commuting) {ss ss' : List Stmt} :
    Stmt.AnyExchanged op position ss ss' →
      ∀ c : Context, (Stmt.checkAll c ss).Turns (op.Brings position) (Stmt.checkAll c ss')
  | .head h ss, c => by
    have ih := h.check hop c
    unfold Stmt.checkAll
    dsimp only
    rw [ih.context]
    exact ⟨rfl, ih.errors.before _⟩
  | .tail s h, c => by
    have ih := h.checkAll hop (s.check c).context
    exact ⟨ih.context, ih.errors.behind _⟩

end

/-- **Exchanged operands are typed alike, but for equality between numbers of different types.**
For addition, multiplication and the logical operators, a program is checked without a complaint
exactly if it is so after the exchange.  An equality or inequality can make a difference in one way
only: after the exchange an integer stands on the left and a float on the right, and that is the
only complaint. -/
theorem Program.check_exchanged {p q : Program} (hop : op ∈ equalities ++ commuting)
    (h : p.Exchanged op position q) :
    (op ∈ commuting → (p.check = [] ↔ q.check = [])) ∧
    (p.check = [] → q.check = [] ∨ op ∈ equalities ∧ q.check = [op.mixed position]) := by
  have hturns {p q : Program} (h : p.Exchanged op position q) (hnil : p.check = []) :
      q.check = [] ∨ op ∈ equalities ∧ q.check = [op.mixed position] := by
    rcases (h.checkAll hop .empty).errors hnil with hnil' | ⟨d, ⟨heq, rfl⟩, hd⟩
    · exact .inl hnil'
    · exact .inr ⟨heq, hd⟩
  refine ⟨fun hcommuting => ?_, hturns h⟩
  have hapart : op ∉ equalities := fun heq => by
    simp only [commuting, equalities, List.mem_cons, List.not_mem_nil, or_false] at hcommuting heq
    rcases heq with rfl | rfl <;> simp at hcommuting
  exact ⟨fun hnil => (hturns h hnil).resolve_right fun h => hapart h.1,
    fun hnil => (hturns h.symm hnil).resolve_right fun h => hapart h.1⟩

/-- A function with a loop in which the sum of a call and a variable is assigned. -/
def Program.summing (sum : Expr) : Program :=
  ⟨[.functionDecl .int "f" [⟨.int, "a", ⟨1, 11⟩⟩]
    [.whileLoop (.binary .less (.var "a" ⟨1, 23⟩) (.literal (.integer 9) ⟨1, 27⟩) ⟨1, 25⟩)
      (.expr (.assign "a" sum ⟨1, 30⟩)) ⟨1, 16⟩,
      .giveBack (some (.var "a" ⟨1, 50⟩)) ⟨1, 43⟩] ⟨1, 14⟩ ⟨1, 5⟩]⟩

/-- The sum `f(a) + a` in a loop of a function, and `a + f(a)` in its place. -/
theorem Program.check_exchanged_summing :
    let call : Expr := .call (.var "f" ⟨1, 34⟩) [.var "a" ⟨1, 36⟩] ⟨1, 37⟩
    let p : Program := .summing (.binary .add call (.var "a" ⟨1, 41⟩) ⟨1, 39⟩)
    let q : Program := .summing (.binary .add (.var "a" ⟨1, 41⟩) call ⟨1, 39⟩)
    BinaryOp.add ∈ equalities ++ commuting ∧ p.Exchanged .add ⟨1, 39⟩ q ∧ p.check = [] ∧
      q.check = [] := by
  intro call p q
  have hop : BinaryOp.add ∈ equalities ++ commuting := by decide
  have hexchanged : p.Exchanged .add ⟨1, 39⟩ q :=
    .head (.functionDecl _ _ _ (.head (.whileBody _ (.expr (.assign _ (.here _ _) _)) _) _) _ _) _
  have hp : p.check = [] := by decide +kernel
  exact ⟨hop, hexchanged, hp,
    ((Program.check_exchanged hop hexchanged).1 (by decide)).mp hp⟩

/-- A comparison by `==` of two constants. -/
def Program.comparing (left right : Literal) : Program :=
  ⟨[.expr (.binary .equal (.literal left ⟨1, 1⟩) (.literal right ⟨1, 8⟩) ⟨1, 5⟩)]⟩

/-- A float is compared with an integer without complaint, and an integer with a float is not: the
program with the operands exchanged is refused, and so is the source that writes it. -/
theorem Program.comparing_exchanged :
    let float : Literal := .float (.finite false (3 * Nat.pow 2 1073))
    let p : Program := .comparing float (.integer 1)
    (∃ q, p.Exchanged .equal ⟨1, 5⟩ q ∧ p.check = [] ∧ q.check = [BinaryOp.equal.mixed ⟨1, 5⟩]) ∧
    p.text = "(1.5 == 1);\n" ∧
    (parse (tokenize "1.5 == 1;").tokens).program.check = [] ∧
    (parse (tokenize "1 == 1.5;").tokens).errors = [] ∧
    (parse (tokenize "1 == 1.5;").tokens).program.check = [BinaryOp.equal.mixed ⟨1, 3⟩] := by
  intro float p
  refine ⟨⟨⟨[.expr (.binary .equal (.literal (.integer 1) ⟨1, 8⟩) (.literal float ⟨1, 1⟩) ⟨1, 5⟩)]⟩,
    .head (.expr (.here _ _)) [], ?_⟩, ?_⟩
  · decide +kernel
  · decide +kernel

end StackListing
