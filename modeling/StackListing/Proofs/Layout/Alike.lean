import Mathlib.Data.List.Forall2
import Mathlib.Tactic.Common
import StackListing.Stmt.Check
import StackListing.Stmt.Code
import StackListing.Token

/-!
# What places and string contents can change

Two tokens are alike if nothing but their places and, in string literals, their texts tells them
apart.  So are two trees, and two complaints that have the same name and say the same in words.  The
parameter `ρ` is what two places in corresponding spots have to do with each other.  If they have
nothing to do with each other, then to be alike is to differ in layout and in string contents only.
If `ρ` is a condition on the first place, then to be alike to itself is to have places that satisfy
it.

Checking two alike statements in one context leads to one context and to complaints that are alike
(`Stmt.Alike.check`), and their code is the same (`Stmt.Alike.code_eq`).  Both rest on what a string
literal and a place are used for: the type of a literal does not depend on its text, nor does its
code, which refers to a string by a label.
-/

namespace StackListing

variable {ρ : Position → Position → Prop}

/-- Tokens that only their places and the texts of string literals tell apart. -/
inductive Token.Alike (ρ : Position → Position → Prop) : Token → Token → Prop
  | mk {kind : Kind} {value value' : String} {p p' : Position}
      (hvalue : kind ≠ .stringLiteral → value = value') (hplace : ρ p p') :
      Token.Alike ρ ⟨kind, value, p⟩ ⟨kind, value', p'⟩

/-- Complaints with the same name and the same words. -/
structure Diagnostic.Alike (ρ : Position → Position → Prop) (d d' : Diagnostic) : Prop where
  name : d.cause.name = d'.cause.name
  message : d.message = d'.message
  place : ρ d.position d'.position

/-- A complaint with one cause at two places. -/
theorem Diagnostic.Alike.of_cause (cause : Cause) {p p' : Position} (h : ρ p p') :
    Diagnostic.Alike ρ ⟨cause, p⟩ ⟨cause, p'⟩ := ⟨rfl, rfl, h⟩

/-- Complaints that are alike one by one. -/
abbrev Diagnostics.Alike (ρ : Position → Position → Prop) : Diagnostics → Diagnostics → Prop :=
  List.Forall₂ (Diagnostic.Alike ρ)

theorem Diagnostics.Alike.append {ds ds' es es' : Diagnostics} (h : Diagnostics.Alike ρ ds ds')
    (h' : Diagnostics.Alike ρ es es') : Diagnostics.Alike ρ (ds ++ es) (ds' ++ es') :=
  List.rel_append h h'

theorem Diagnostics.Alike.single {d d' : Diagnostic} (h : d.Alike ρ d') :
    Diagnostics.Alike ρ [d] [d'] := .cons h .nil

/-! ### Trees -/

/-- Constants that are the same or both strings. -/
inductive Literal.Alike : Literal → Literal → Prop
  | refl (l : Literal) : Literal.Alike l l
  | string (s s' : String) : Literal.Alike (.string s) (.string s')

mutual

/-- Expressions that only places and string contents tell apart. -/
inductive Expr.Alike (ρ : Position → Position → Prop) : Expr → Expr → Prop
  | literal {l l' : Literal} {p p' : Position} (h : l.Alike l') (hp : ρ p p') :
      Expr.Alike ρ (.literal l p) (.literal l' p')
  | var (name : String) {p p' : Position} (hp : ρ p p') :
      Expr.Alike ρ (.var name p) (.var name p')
  | unary (op : UnaryOp) {e e' : Expr} {p p' : Position} (h : Expr.Alike ρ e e') (hp : ρ p p') :
      Expr.Alike ρ (.unary op e p) (.unary op e' p')
  | binary (op : BinaryOp) {l l' r r' : Expr} {p p' : Position} (hl : Expr.Alike ρ l l')
      (hr : Expr.Alike ρ r r') (hp : ρ p p') :
      Expr.Alike ρ (.binary op l r p) (.binary op l' r' p')
  | call {e e' : Expr} {es es' : List Expr} {p p' : Position} (h : Expr.Alike ρ e e')
      (hs : Expr.AllAlike ρ es es') (hp : ρ p p') :
      Expr.Alike ρ (.call e es p) (.call e' es' p')
  | assign (name : String) {e e' : Expr} {p p' : Position} (h : Expr.Alike ρ e e') (hp : ρ p p') :
      Expr.Alike ρ (.assign name e p) (.assign name e' p')

@[inherit_doc Expr.Alike]
inductive Expr.AllAlike (ρ : Position → Position → Prop) : List Expr → List Expr → Prop
  | nil : Expr.AllAlike ρ [] []
  | cons {e e' : Expr} {es es' : List Expr} (h : Expr.Alike ρ e e') (hs : Expr.AllAlike ρ es es') :
      Expr.AllAlike ρ (e :: es) (e' :: es')

end

/-- Parameters that only their places tell apart. -/
inductive Parameter.Alike (ρ : Position → Position → Prop) : Parameter → Parameter → Prop
  | mk (type : ValueType) (name : String) {p p' : Position} (hp : ρ p p') :
      Parameter.Alike ρ ⟨type, name, p⟩ ⟨type, name, p'⟩

mutual

/-- Statements that only places and string contents tell apart. -/
inductive Stmt.Alike (ρ : Position → Position → Prop) : Stmt → Stmt → Prop
  | expr {e e' : Expr} (h : e.Alike ρ e') : Stmt.Alike ρ (.expr e) (.expr e')
  | variableDecl (type : ValueType) (name : String) {i i' : Option Expr} {p p' : Position}
      (h : Option.Rel (Expr.Alike ρ) i i') (hp : ρ p p') :
      Stmt.Alike ρ (.variableDecl type name i p) (.variableDecl type name i' p')
  | block {ss ss' : List Stmt} {p p' : Position} (h : Stmt.AllAlike ρ ss ss') (hp : ρ p p') :
      Stmt.Alike ρ (.block ss p) (.block ss' p')
  | branch {c c' : Expr} {s s' : Stmt} {o o' : Option Stmt} {p p' : Position} (hc : c.Alike ρ c')
      (h : Stmt.Alike ρ s s') (ho : Stmt.OptionAlike ρ o o') (hp : ρ p p') :
      Stmt.Alike ρ (.branch c s o p) (.branch c' s' o' p')
  | whileLoop {c c' : Expr} {s s' : Stmt} {p p' : Position} (hc : c.Alike ρ c')
      (h : Stmt.Alike ρ s s') (hp : ρ p p') : Stmt.Alike ρ (.whileLoop c s p) (.whileLoop c' s' p')
  | forLoop {o o' : Option Stmt} {c c' i i' : Option Expr} {s s' : Stmt} {p p' : Position}
      (ho : Stmt.OptionAlike ρ o o') (hc : Option.Rel (Expr.Alike ρ) c c')
      (hi : Option.Rel (Expr.Alike ρ) i i') (h : Stmt.Alike ρ s s') (hp : ρ p p') :
      Stmt.Alike ρ (.forLoop o c i s p) (.forLoop o' c' i' s' p')
  | giveBack {e e' : Option Expr} {p p' : Position} (h : Option.Rel (Expr.Alike ρ) e e')
      (hp : ρ p p') : Stmt.Alike ρ (.giveBack e p) (.giveBack e' p')
  | functionDecl (result : ValueType) (name : String) {ps ps' : List Parameter}
      {ss ss' : List Stmt} {b b' p p' : Position} (hps : List.Forall₂ (Parameter.Alike ρ) ps ps')
      (h : Stmt.AllAlike ρ ss ss') (hb : ρ b b') (hp : ρ p p') :
      Stmt.Alike ρ (.functionDecl result name ps ss b p) (.functionDecl result name ps' ss' b' p')
  | print {e e' : Expr} {p p' : Position} (h : e.Alike ρ e') (hp : ρ p p') :
      Stmt.Alike ρ (.print e p) (.print e' p')

@[inherit_doc Stmt.Alike]
inductive Stmt.AllAlike (ρ : Position → Position → Prop) : List Stmt → List Stmt → Prop
  | nil : Stmt.AllAlike ρ [] []
  | cons {s s' : Stmt} {ss ss' : List Stmt} (h : Stmt.Alike ρ s s') (hs : Stmt.AllAlike ρ ss ss') :
      Stmt.AllAlike ρ (s :: ss) (s' :: ss')

@[inherit_doc Stmt.Alike]
inductive Stmt.OptionAlike (ρ : Position → Position → Prop) : Option Stmt → Option Stmt → Prop
  | none : Stmt.OptionAlike ρ none none
  | some {s s' : Stmt} (h : Stmt.Alike ρ s s') : Stmt.OptionAlike ρ (some s) (some s')

end

/-! ### Types -/

namespace Expr.Alike

variable {e e' : Expr}

theorem place (h : e.Alike ρ e') : ρ e.position e'.position := by
  cases h <;> assumption

theorem name?_eq (h : e.Alike ρ e') : e.name? = e'.name? := by
  cases h <;> rfl

end Expr.Alike

theorem Literal.Alike.type_eq {l l' : Literal} (h : l.Alike l') : l.type = l'.type := by
  cases h <;> rfl

/-- Inferences with the same type and complaints that are alike. -/
structure Inference.Alike (ρ : Position → Position → Prop) (a b : Inference) : Prop where
  type_eq : a.type? = b.type?
  errors : Diagnostics.Alike ρ a.errors b.errors

theorem Inference.Alike.failure (cause : Cause) {p p' : Position} (hp : ρ p p') :
    (Inference.failure cause p).Alike ρ (.failure cause p') := ⟨rfl, .single (.of_cause cause hp)⟩

theorem Inference.alike_mismatch (cause : String → String → Cause) (expected : ValueType)
    {p p' : Position} (hp : ρ p p') (actual : Option ValueType) :
    Diagnostics.Alike ρ (Inference.mismatch cause expected p actual)
      (Inference.mismatch cause expected p' actual) := by
  cases actual with
  | none => exact .nil
  | some type =>
    unfold Inference.mismatch
    dsimp only
    split_ifs
    · exact .nil
    · exact .single (.of_cause _ hp)

mutual

/-- **Inference tells alike expressions apart only in the places of its complaints.** -/
theorem Expr.Alike.infer (t : SymbolTable) {e e' : Expr} :
    e.Alike ρ e' → (e.infer t).Alike ρ (e'.infer t)
  | .literal h _ => ⟨congrArg some h.type_eq, .nil⟩
  | .var name hp => by
    unfold Expr.infer
    split
    · exact ⟨rfl, .nil⟩
    · exact .failure _ hp
  | .unary op h hp => by
    have ih := h.infer t
    unfold Expr.infer
    dsimp only
    rw [← ih.type_eq]
    split
    · exact ih
    · split
      · exact ⟨rfl, ih.errors⟩
      · exact ⟨rfl, ih.errors.append (.single (.of_cause _ hp))⟩
  | .binary op hl hr hp => by
    have hl := hl.infer t
    have hr := hr.infer t
    have herrors := hl.errors.append hr.errors
    unfold Expr.infer
    dsimp only
    rw [← hl.type_eq, ← hr.type_eq]
    split
    · split
      · exact ⟨rfl, herrors⟩
      · exact ⟨rfl, herrors.append (.single (.of_cause _ hp))⟩
    · exact ⟨rfl, herrors⟩
  | .call h hs hp => by
    have ih := hs.inferAll t
    unfold Expr.infer
    rw [h.name?_eq]
    split
    · exact .failure _ hp
    · split
      · exact .failure _ hp
      · split_ifs
        · exact ⟨rfl, ih⟩
        · exact .failure _ hp
  | .assign name h hp => by
    have ih := h.infer t
    unfold Expr.infer
    split
    · exact .failure _ hp
    · refine ⟨rfl, ih.errors.append ?_⟩
      rw [ih.type_eq]
      exact Inference.alike_mismatch _ _ hp _

theorem Expr.AllAlike.inferAll (t : SymbolTable) {es es' : List Expr} :
    Expr.AllAlike ρ es es' → Diagnostics.Alike ρ (Expr.inferAll t es) (Expr.inferAll t es')
  | .nil => .nil
  | .cons h hs => (h.infer t).errors.append (hs.inferAll t)

end

/-! ### Checking -/

/-- The same context, and complaints that are alike. -/
structure Checked.Alike (ρ : Position → Position → Prop) (a b : Checked) : Prop where
  context_eq : a.context = b.context
  errors : Diagnostics.Alike ρ a.errors b.errors

namespace Context

variable (c : Context)

theorem alike_declare (name : String) (type : ValueType) (role : Role) {p p' : Position}
    (hp : ρ p p') : (c.declare name type role p).Alike ρ (c.declare name type role p') := by
  unfold declare SymbolTable.declare
  by_cases h : c.table.definedHere name = true
  · simp only [h, if_true]
    exact ⟨rfl, .single (.of_cause _ hp)⟩
  · simp only [h]
    exact ⟨rfl, .nil⟩

theorem alike_declareAll {ps ps' : List Parameter} (h : List.Forall₂ (Parameter.Alike ρ) ps ps') :
    ∀ {c c' : Context}, c = c' → (c.declareAll ps).Alike ρ (c'.declareAll ps') := by
  induction h with
  | nil =>
    rintro c _ rfl
    exact ⟨rfl, .nil⟩
  | cons h _ ih =>
    rintro c _ rfl
    obtain ⟨type, name, hp⟩ := h
    have hfirst := c.alike_declare name type .parameter hp
    have hothers := ih hfirst.context_eq
    exact ⟨hothers.context_eq, hfirst.errors.append hothers.errors⟩

theorem alike_checkCondition (construct : String) {e e' : Expr} (h : e.Alike ρ e') :
    Diagnostics.Alike ρ (c.checkCondition construct e) (c.checkCondition construct e') := by
  have ih := h.infer c.table
  unfold checkCondition
  dsimp only
  rw [← ih.type_eq]
  refine ih.errors.append ?_
  split
  · exact .nil
  · split_ifs
    · exact .nil
    · exact .single (.of_cause _ h.place)

theorem alike_checkValue {e e' : Option Expr} (h : Option.Rel (Expr.Alike ρ) e e') :
    Diagnostics.Alike ρ (c.checkValue e) (c.checkValue e') := by
  cases h with
  | none => exact .nil
  | some h => exact (h.infer c.table).errors

theorem alike_checkHeader {c c' : Context} (hc : c = c') {e e' i i' : Option Expr}
    (he : Option.Rel (Expr.Alike ρ) e e') (hi : Option.Rel (Expr.Alike ρ) i i') :
    Diagnostics.Alike ρ (c.checkHeader e i) (c'.checkHeader e' i') := by
  subst hc
  refine Diagnostics.Alike.append ?_ (c.alike_checkValue hi)
  cases he with
  | none => exact .nil
  | some h => exact c.alike_checkCondition "For" h

theorem alike_checkInitial (type : ValueType) {p p' : Position} (hp : ρ p p')
    {e e' : Option Expr} (h : Option.Rel (Expr.Alike ρ) e e') :
    Diagnostics.Alike ρ (c.checkInitial type p e) (c.checkInitial type p' e') := by
  cases h with
  | none => exact .nil
  | some h =>
    have ih := h.infer c.table
    refine ih.errors.append ?_
    rw [ih.type_eq]
    exact Inference.alike_mismatch _ _ hp _

theorem alike_checkGiveBack {p p' : Position} (hp : ρ p p') {e e' : Option Expr}
    (h : Option.Rel (Expr.Alike ρ) e e') :
    Diagnostics.Alike ρ (c.checkGiveBack p e) (c.checkGiveBack p' e') := by
  unfold checkGiveBack
  split_ifs
  · cases h with
    | none =>
      cases c.result? with
      | none => exact .nil
      | some type => exact .single (.of_cause _ hp)
    | some h =>
      have ih := h.infer c.table
      cases c.result? with
      | none => exact ih.errors
      | some type =>
        refine ih.errors.append ?_
        rw [ih.type_eq]
        exact Inference.alike_mismatch _ _ hp _
  · exact .single (.of_cause _ hp)

end Context

mutual

/-- **Checking tells alike statements apart only in the places of its complaints.** -/
theorem Stmt.Alike.check {s s' : Stmt} :
    s.Alike ρ s' → ∀ {c c' : Context}, c = c' → (s.check c).Alike ρ (s'.check c')
  | .expr h, c, _, rfl => ⟨rfl, (h.infer c.table).errors⟩
  | .print h _, c, _, rfl => ⟨rfl, (h.infer c.table).errors⟩
  | .giveBack h hp, c, _, rfl => ⟨rfl, c.alike_checkGiveBack hp h⟩
  | .variableDecl type name h hp, c, _, rfl => by
    have hdeclare := c.alike_declare name type .var hp
    unfold Stmt.check
    split_ifs
    · exact ⟨rfl, .single (.of_cause _ hp)⟩
    · exact ⟨hdeclare.context_eq, (c.alike_checkInitial type hp h).append hdeclare.errors⟩
  | .block h _, c, _, rfl => by
    have ih := h.checkAll (rfl : c.enter = c.enter)
    exact ⟨congrArg Context.leave ih.context_eq, ih.errors⟩
  | .branch hc h ho _, c, _, rfl => by
    have hcondition := c.alike_checkCondition "If" hc
    have hyes := h.check (rfl : c = c)
    have hno := ho.checkOption hyes.context_eq
    exact ⟨hno.context_eq, (hcondition.append hyes.errors).append hno.errors⟩
  | .whileLoop hc h _, c, _, rfl => by
    have ih := h.check (rfl : c = c)
    exact ⟨ih.context_eq, (c.alike_checkCondition "While" hc).append ih.errors⟩
  | .forLoop ho hc hi h _, c, _, rfl => by
    have hinitial := ho.checkOption (rfl : c.enter = c.enter)
    have hbody := h.check hinitial.context_eq
    have hheader := Context.alike_checkHeader hinitial.context_eq hc hi
    exact ⟨congrArg Context.leave hbody.context_eq,
      (hinitial.errors.append hheader).append hbody.errors⟩
  | .functionDecl result name hps h _ hp, c, _, rfl => by
    have hdeclare := c.alike_declare name result .function hp
    have hheader := Context.alike_declareAll hps
      (congrArg (Context.enterFunction · result) hdeclare.context_eq)
    have hbody := h.checkAll (congrArg Context.enter hheader.context_eq)
    unfold Stmt.check
    split_ifs
    · exact ⟨rfl, .single (.of_cause _ hp)⟩
    · refine ⟨?_, (hdeclare.errors.append hheader.errors).append hbody.errors⟩
      exact congrArg (fun d : Context =>
        { d.leave.leave with inFunction := c.inFunction, result? := c.result? }) hbody.context_eq

theorem Stmt.AllAlike.checkAll {ss ss' : List Stmt} : Stmt.AllAlike ρ ss ss' →
    ∀ {c c' : Context}, c = c' → (Stmt.checkAll c ss).Alike ρ (Stmt.checkAll c' ss')
  | .nil, _, _, rfl => ⟨rfl, .nil⟩
  | .cons h hs, c, _, rfl => by
    have hfirst := h.check (rfl : c = c)
    have hothers := hs.checkAll hfirst.context_eq
    exact ⟨hothers.context_eq, hfirst.errors.append hothers.errors⟩

theorem Stmt.OptionAlike.checkOption {s s' : Option Stmt} : Stmt.OptionAlike ρ s s' →
    ∀ {c c' : Context}, c = c' → (Stmt.checkOption c s).Alike ρ (Stmt.checkOption c' s')
  | .none, _, _, rfl => ⟨rfl, .nil⟩
  | .some h, _, _, hc => h.check hc

end

/-! ### Code -/

theorem Literal.Alike.labels_eq {l l' : Literal} (h : l.Alike l') : l.labels = l'.labels := by
  cases h <;> rfl

theorem Literal.Alike.code_eq {l l' : Literal} (h : l.Alike l') (n : Nat) :
    l.code n = l'.code n := by
  cases h <;> rfl

mutual

theorem Expr.Alike.labels_eq {e e' : Expr} : e.Alike ρ e' → e.labels = e'.labels
  | .literal h _ => h.labels_eq
  | .var _ _ => rfl
  | .unary _ h _ => h.labels_eq
  | .binary _ hl hr _ => congrArg₂ (· + ·) hl.labels_eq hr.labels_eq
  | .call h hs _ => by
    rw [Expr.labels, Expr.labels, h.name?_eq, hs.labelsAll_eq]
  | .assign _ h _ => h.labels_eq

theorem Expr.AllAlike.labelsAll_eq {es es' : List Expr} :
    Expr.AllAlike ρ es es' → Expr.labelsAll es = Expr.labelsAll es'
  | .nil => rfl
  | .cons h hs => congrArg₂ (· + ·) hs.labelsAll_eq h.labels_eq

end

theorem Expr.AllAlike.length_eq {es es' : List Expr} (h : Expr.AllAlike ρ es es') :
    es.length = es'.length := by
  induction es generalizing es' with
  | nil => cases h; rfl
  | cons e es ih =>
    cases h with
    | cons h hs => exact congrArg (· + 1) (ih hs)

mutual

/-- **Alike expressions have the same code.** -/
theorem Expr.Alike.code_eq {e e' : Expr} : e.Alike ρ e' → ∀ n, e.code n = e'.code n
  | .literal h _, n => h.code_eq n
  | .var _ _, _ => rfl
  | .unary _ h _, n => by rw [Expr.code, Expr.code, h.code_eq n]
  | .binary _ hl hr _, n => by
    rw [Expr.code, Expr.code, hl.code_eq n, hl.labels_eq, hr.code_eq]
  | .call h hs _, n => by
    rw [Expr.code, Expr.code, h.name?_eq, hs.codeAll_eq n 0, hs.length_eq]
  | .assign _ h _, n => by rw [Expr.code, Expr.code, h.code_eq n]

theorem Expr.AllAlike.codeAll_eq {es es' : List Expr} :
    Expr.AllAlike ρ es es' → ∀ n i, Expr.codeAll n i es = Expr.codeAll n i es'
  | .nil, _, _ => rfl
  | .cons h hs, n, i => by
    rw [Expr.codeAll, Expr.codeAll, hs.codeAll_eq n (i + 1), hs.labelsAll_eq, h.code_eq]

end

namespace Expr

variable {e e' : Option Expr}

theorem labelsOption_eq (h : Option.Rel (Alike ρ) e e') : labelsOption e = labelsOption e' := by
  cases h with
  | none => rfl
  | some h => exact h.labels_eq

theorem codeOption_eq (h : Option.Rel (Alike ρ) e e') (n : Nat) :
    codeOption n e = codeOption n e' := by
  cases h with
  | none => rfl
  | some h => exact h.code_eq n

end Expr

namespace Stmt

variable {e e' : Option Expr}

theorem variableCode_eq (h : Option.Rel (Expr.Alike ρ) e e') (n : Nat) (name : String) :
    variableCode n name e = variableCode n name e' := by
  cases h with
  | none => rfl
  | some h => rw [variableCode, variableCode, h.code_eq n]

theorem giveBackCode_eq (h : Option.Rel (Expr.Alike ρ) e e') (n : Nat) :
    giveBackCode n e = giveBackCode n e' := by
  cases h with
  | none => rfl
  | some h => exact h.code_eq n

theorem conditionCode_eq (h : Option.Rel (Expr.Alike ρ) e e') (n : Nat) (exit : Label) :
    conditionCode n exit e = conditionCode n exit e' := by
  cases h with
  | none => rfl
  | some h => rw [conditionCode, conditionCode, h.code_eq n]

end Stmt

mutual

theorem Stmt.Alike.labels_eq {s s' : Stmt} : s.Alike ρ s' → s.labels = s'.labels
  | .expr h => h.labels_eq
  | .print h _ => h.labels_eq
  | .giveBack h _ => Expr.labelsOption_eq h
  | .variableDecl _ _ h _ => Expr.labelsOption_eq h
  | .block h _ => h.labelsAll_eq
  | .branch hc h ho _ => by
    rw [Stmt.labels, Stmt.labels, hc.labels_eq, h.labels_eq, ho.labelsOption_eq]
  | .whileLoop hc h _ => by rw [Stmt.labels, Stmt.labels, hc.labels_eq, h.labels_eq]
  | .forLoop ho hc hi h _ => by
    rw [Stmt.labels, Stmt.labels, ho.labelsOption_eq, Expr.labelsOption_eq hc,
      Expr.labelsOption_eq hi, h.labels_eq]
  | .functionDecl _ _ _ h _ _ => h.labelsAll_eq

theorem Stmt.AllAlike.labelsAll_eq {ss ss' : List Stmt} :
    Stmt.AllAlike ρ ss ss' → Stmt.labelsAll ss = Stmt.labelsAll ss'
  | .nil => rfl
  | .cons h hs => congrArg₂ (· + ·) h.labels_eq hs.labelsAll_eq

theorem Stmt.OptionAlike.labelsOption_eq {s s' : Option Stmt} :
    Stmt.OptionAlike ρ s s' → Stmt.labelsOption s = Stmt.labelsOption s'
  | .none => rfl
  | .some h => h.labels_eq

end

mutual

/-- **Alike statements have the same code.** -/
theorem Stmt.Alike.code_eq {s s' : Stmt} : s.Alike ρ s' → ∀ n, s.code n = s'.code n
  | .expr h, n => h.code_eq n
  | .print h _, n => by rw [Stmt.code, Stmt.code, h.code_eq n]
  | .giveBack h _, n => by rw [Stmt.code, Stmt.code, Stmt.giveBackCode_eq h n]
  | .variableDecl _ name h _, n => by rw [Stmt.code, Stmt.code, Stmt.variableCode_eq h n name]
  | .block h _, n => by rw [Stmt.code, Stmt.code, h.codeAll_eq n]
  | .branch hc h ho _, n => by
    rw [Stmt.code, Stmt.code, hc.labels_eq, hc.code_eq, h.labels_eq, h.code_eq, ho.codeOption_eq]
  | .whileLoop hc h _, n => by
    rw [Stmt.code, Stmt.code, hc.labels_eq, hc.code_eq, h.code_eq]
  | .forLoop ho hc hi h _, n => by
    rw [Stmt.code, Stmt.code, ho.labelsOption_eq, ho.codeOption_eq, Expr.labelsOption_eq hc,
      Stmt.conditionCode_eq hc, h.labels_eq, h.code_eq, Expr.codeOption_eq hi]
  | .functionDecl _ _ _ h _ _, n => by rw [Stmt.code, Stmt.code, h.codeAll_eq n]

theorem Stmt.AllAlike.codeAll_eq {ss ss' : List Stmt} :
    Stmt.AllAlike ρ ss ss' → ∀ n, Stmt.codeAll n ss = Stmt.codeAll n ss'
  | .nil, _ => rfl
  | .cons h hs, n => by
    rw [Stmt.codeAll, Stmt.codeAll, h.code_eq n, h.labels_eq, hs.codeAll_eq]

theorem Stmt.OptionAlike.codeOption_eq {s s' : Option Stmt} :
    Stmt.OptionAlike ρ s s' → ∀ n, Stmt.codeOption n s = Stmt.codeOption n s'
  | .none, _ => rfl
  | .some h, n => h.code_eq n

end

/-! ### Programs -/

/-- Programs that only places and string contents tell apart. -/
def Program.Alike (ρ : Position → Position → Prop) (p p' : Program) : Prop :=
  Stmt.AllAlike ρ p.statements p'.statements

namespace Program.Alike

variable {p p' : Program}

theorem check (h : p.Alike ρ p') : Diagnostics.Alike ρ p.check p'.check :=
  (Stmt.AllAlike.checkAll h rfl).errors

theorem listing_eq (h : p.Alike ρ p') : p.listing = p'.listing := by
  unfold Program.listing Program.code
  rw [Stmt.AllAlike.codeAll_eq h 0]

end Program.Alike

end StackListing
