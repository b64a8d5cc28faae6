import StackListing.Proofs.Typing.Framing

/-!
# Complaints of one sort

Checking mixes complaints of many sorts in one list.  Those of one sort, in order, are selected by a
property of their causes.  If the property says nothing about types and declarations, then what a
part of a statement adds to the selection comes from the expressions in it (`select_checkCondition`
and the lemmas behind it), and declarations add nothing.
-/

namespace StackListing

/-- The complaints whose causes have the property, in order. -/
def Diagnostics.select (P : Cause → Bool) (ds : Diagnostics) : Diagnostics :=
  ds.filter fun d => P d.cause

/-- No complaint about types or about a name that is taken has the property. -/
structure Cause.Apart (P : Cause → Bool) : Prop where
  typing : ∀ {cause : Cause}, cause.category = .typing → P cause = false
  redeclaration : ∀ {cause : Cause}, cause.category = .redeclaration → P cause = false

variable {P : Cause → Bool}

namespace Diagnostics

@[simp] theorem select_nil : select P [] = [] := rfl

@[simp] theorem select_append (ds es : Diagnostics) :
    select P (ds ++ es) = select P ds ++ select P es := List.filter_append ds es

@[simp] theorem select_cons (d : Diagnostic) (ds : Diagnostics) :
    select P (d :: ds) = if P d.cause then d :: select P ds else select P ds := List.filter_cons

end Diagnostics

open Diagnostics (select)

namespace Cause.Apart

variable (hP : Apart P)

include hP

theorem select_mismatch {cause : String → String → Cause}
    (h : ∀ expected actual, (cause expected actual).category = .typing) (expected : ValueType)
    (position : Position) (actual : Option ValueType) :
    select P (Inference.mismatch cause expected position actual) = [] := by
  unfold Inference.mismatch
  split
  · rfl
  · split_ifs
    · rfl
    · simp [hP.typing (h _ _)]

theorem select_redeclared (role : Role) (name : String) (position : Position) :
    select P [SymbolTable.redeclared role name position] = [] := by
  have hcause : P (SymbolTable.redeclared role name position).cause = false := hP.redeclaration rfl
  simp [hcause]

variable (c : Context)

theorem select_declare (name : String) (type : ValueType) (role : Role) (position : Position) :
    select P (c.declare name type role position).errors = [] := by
  unfold Context.declare SymbolTable.declare
  cases c.table.definedHere name with
  | true => exact hP.select_redeclared role name position
  | false => rfl

theorem select_declareAll (ps : List Parameter) : select P (c.declareAll ps).errors = [] := by
  induction ps generalizing c with
  | nil => rfl
  | cons p ps ih =>
    rw [Context.declareAll]
    simp [hP.select_declare, ih]

theorem select_checkCondition (construct : String) (e : Expr) :
    select P (c.checkCondition construct e) = select P (e.infer c.table).errors := by
  unfold Context.checkCondition
  rw [Diagnostics.select_append, List.append_right_eq_self]
  split
  · rfl
  · rename_i type _
    have hcause : P (.nonBooleanCondition construct type.name) = false := hP.typing rfl
    split_ifs <;> simp [hcause]

/-- The condition of a loop header is judged like its increment. -/
theorem select_checkHeader (condition increment : Option Expr) :
    select P (c.checkHeader condition increment) =
      select P (c.checkValue condition) ++ select P (c.checkValue increment) := by
  unfold Context.checkHeader
  rw [Diagnostics.select_append]
  cases condition with
  | none => rfl
  | some e => exact congrArg (· ++ _) (hP.select_checkCondition c "For" e)

theorem select_checkInitial (type : ValueType) (position : Position) (e : Option Expr) :
    select P (c.checkInitial type position e) = select P (c.checkValue e) := by
  cases e with
  | none => rfl
  | some e =>
    unfold Context.checkInitial
    rw [Diagnostics.select_append, hP.select_mismatch fun _ _ => rfl, List.append_nil]
    rfl

theorem select_checkGiveBack (position : Position) (value : Option Expr) :
    select P (c.checkGiveBack position value) =
      if c.inFunction then select P (c.checkValue value)
      else select P [⟨.returnOutsideFunction, position⟩] := by
  unfold Context.checkGiveBack
  split_ifs
  · split
    · rfl
    · rw [Diagnostics.select_append, hP.select_mismatch fun _ _ => rfl, List.append_nil]
      rfl
    · rfl
    · rename_i type _
      have hcause : P (.missingReturnValue type.name) = false := hP.typing rfl
      simp [hcause, Context.checkValue]
  · rfl

end Cause.Apart

end StackListing
