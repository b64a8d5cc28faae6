import StackListing.Compilation
import StackListing.Proofs.Typing.Checking
import StackListing.Proofs.Typing.Selection

/-!
# Names without a declaration

The occurrences of names that no visible declaration has: variables that are read, and targets of
assignments.  They are listed in the order of the text, whatever else is wrong around them, and each
is marked by whether checking gets to it.  It does not get to what is inside

* a call of anything but a function that is declared,
* the value of an assignment whose target is itself undeclared,
* a value that is given back outside any function,
* the initial value or the body of a declaration whose name its scope already has.

The complaints about undeclared variables are those about the occurrences that are reached
(`Stmt.undeclared_check`).  So there is one for every occurrence exactly if all of them are.
-/

namespace StackListing

/-! ### What a name means -/

/-- The declaration of a name in the innermost scope that has one: the one that the rules of typing
make visible (`meaning?_eq_some_iff`). -/
def meaning? (Γ : List Scope) (name : String) : Option Declaration :=
  Γ.findSome? fun S => S.declarations.find? fun d => decide (d.name = name)

/-- What a symbol was declared as. -/
def Symbol.declaration (s : Symbol) : Declaration := ⟨s.name, s.type, s.role⟩

theorem SymbolTable.lookup_eq_meaning (Γ : List Scope) (name : String) :
    ((ofScopes Γ).lookup? name).map Symbol.declaration = meaning? Γ name := by
  induction Γ with
  | nil => rfl
  | cons S Δ ih =>
    rw [lookup_cons, meaning?, List.findSome?_cons]
    cases S.declarations.find? fun d => decide (d.name = name) with
    | none => exact ih
    | some d => rfl

/-- The meaning of a name is the declaration that the rules make visible. -/
theorem meaning?_eq_some_iff {Γ : List Scope} {name : String} {d : Declaration} :
    meaning? Γ name = some d ↔ Visible Γ d ∧ d.name = name := by
  constructor
  · intro h
    obtain ⟨S, -, hd⟩ := List.exists_of_findSome?_eq_some h
    have hname : d.name = name := by simpa using List.find?_some hd
    rw [← SymbolTable.lookup_eq_meaning] at h
    obtain ⟨s, hs, rfl⟩ := Option.map_eq_some_iff.mp h
    refine ⟨?_, hname⟩
    rw [show s.declaration = ⟨name, s.type, s.role⟩ by rw [← hname]; rfl]
    exact SymbolTable.visible_of_lookup hs
  · rintro ⟨hd, rfl⟩
    obtain ⟨l, hl⟩ := SymbolTable.lookup_of_visible hd
    rw [← SymbolTable.lookup_eq_meaning, hl]
    rfl

/-! ### The scope behind a statement -/

namespace Scope

instance decidableFresh (S : Scope) (name : String) : Decidable (S.Fresh name) :=
  inferInstanceAs (Decidable (∀ d ∈ S.declarations, d.name ≠ name))

/-- The scope with a further declaration, unless it has the name already. -/
def declare (S : Scope) (d : Declaration) : Scope :=
  if h : S.Fresh d.name then S.add d h else S

/-- The scope with parameters declared one after the other. -/
def declareAll (S : Scope) (ps : List Parameter) : Scope :=
  ps.foldl (fun S p => S.declare p.declaration) S

end Scope

namespace Stmt

mutual

/-- What a statement that stands in the scope `S` makes of it. -/
def scopeAfter (S : Scope) : Stmt → Scope
  | expr _ | print _ _ | giveBack _ _ | block _ _ | forLoop _ _ _ _ _ => S
  | variableDecl type name _ _ => S.declare ⟨name, type, .var⟩
  | functionDecl result name _ _ _ _ => S.declare ⟨name, result, .function⟩
  | branch _ yes no _ => scopeAfterOption (scopeAfter S yes) no
  | whileLoop _ body _ => scopeAfter S body

@[inherit_doc scopeAfter]
def scopeAfterOption (S : Scope) : Option Stmt → Scope
  | none => S
  | some s => scopeAfter S s

end

end Stmt

/-! ### Occurrences -/

/-- An occurrence of a name without a declaration, and whether checking gets to it. -/
structure Occurrence where
  name : String
  position : Position
  reached : Bool
deriving DecidableEq

namespace Occurrence

/-- The complaint about an occurrence. -/
def diagnostic (o : Occurrence) : Diagnostic := ⟨.variableNotDeclared o.name, o.position⟩

/-- Occurrences inside something that is checked only if `b`. -/
def within (b : Bool) (os : List Occurrence) : List Occurrence :=
  if b then os else os.map fun o => { o with reached := false }

/-- The complaints about the occurrences that are reached. -/
def reports (os : List Occurrence) : Diagnostics := (os.filter (·.reached)).map diagnostic

@[simp] theorem reports_nil : reports [] = [] := rfl

@[simp] theorem reports_append (os os' : List Occurrence) :
    reports (os ++ os') = reports os ++ reports os' := by
  simp [reports]

@[simp] theorem reports_within (b : Bool) (os : List Occurrence) :
    reports (within b os) = if b then reports os else [] := by
  cases b with
  | true => rfl
  | false => simp [within, reports]

end Occurrence

open Occurrence (within reports)

/-- The occurrence of a name, unless there is a declaration of it. -/
def undeclaredName (Γ : List Scope) (name : String) (position : Position) : List Occurrence :=
  if (meaning? Γ name).isSome then [] else [⟨name, position, true⟩]

namespace Expr

/-- Whether the expression is the name of a function that is declared. -/
def isFunction (Γ : List Scope) (e : Expr) : Bool :=
  (e.name?.bind (meaning? Γ)).any fun d => d.role = .function

mutual

/-- **The undeclared names of an expression** where the scopes `Γ` are open.  A bare name that is
called is not read. -/
def undeclared (Γ : List Scope) : Expr → List Occurrence
  | literal _ _ => []
  | var name position => undeclaredName Γ name position
  | unary _ operand _ => undeclared Γ operand
  | binary _ left right _ => undeclared Γ left ++ undeclared Γ right
  | call callee arguments _ =>
    within (callee.isFunction Γ)
      ((if callee.name?.isSome then [] else undeclared Γ callee) ++ undeclaredAll Γ arguments)
  | assign name value position =>
    undeclaredName Γ name position ++ within (meaning? Γ name).isSome (undeclared Γ value)

@[inherit_doc undeclared]
def undeclaredAll (Γ : List Scope) : List Expr → List Occurrence
  | [] => []
  | e :: es => undeclared Γ e ++ undeclaredAll Γ es

end

@[inherit_doc undeclared]
def undeclaredOption (Γ : List Scope) : Option Expr → List Occurrence
  | none => []
  | some e => undeclared Γ e

end Expr

namespace Stmt

mutual

/-- **The undeclared names of a statement** that stands in the scope `S` inside `Δ`, and in a
function or not. -/
def undeclared (Δ : List Scope) (inFunction : Bool) (S : Scope) : Stmt → List Occurrence
  | expr e => e.undeclared (S :: Δ)
  | print e _ => e.undeclared (S :: Δ)
  | giveBack value _ => within inFunction (Expr.undeclaredOption (S :: Δ) value)
  | variableDecl _ name initial _ => within (S.Fresh name) (Expr.undeclaredOption (S :: Δ) initial)
  | block body _ => undeclaredAll (S :: Δ) inFunction .empty body
  | branch condition yes no _ =>
    condition.undeclared (S :: Δ) ++ undeclared Δ inFunction S yes ++
      undeclaredOption Δ inFunction (yes.scopeAfter S) no
  | whileLoop condition body _ => condition.undeclared (S :: Δ) ++ undeclared Δ inFunction S body
  | forLoop initial condition increment body _ =>
    let header := scopeAfterOption .empty initial
    undeclaredOption (S :: Δ) inFunction .empty initial ++
      (Expr.undeclaredOption (header :: S :: Δ) condition ++
        Expr.undeclaredOption (header :: S :: Δ) increment) ++
      undeclared (S :: Δ) inFunction header body
  | functionDecl result name parameters body _ _ =>
    within (S.Fresh name) (undeclaredAll
      (Scope.empty.declareAll parameters :: S.declare ⟨name, result, .function⟩ :: Δ) true .empty
      body)

@[inherit_doc undeclared]
def undeclaredAll (Δ : List Scope) (inFunction : Bool) (S : Scope) : List Stmt → List Occurrence
  | [] => []
  | s :: rest => undeclared Δ inFunction S s ++ undeclaredAll Δ inFunction (s.scopeAfter S) rest

@[inherit_doc undeclared]
def undeclaredOption (Δ : List Scope) (inFunction : Bool) (S : Scope) :
    Option Stmt → List Occurrence
  | none => []
  | some s => undeclared Δ inFunction S s

end

end Stmt

/-- **The undeclared names of a program,** in the order of the text. -/
def Program.undeclared (p : Program) : List Occurrence :=
  Stmt.undeclaredAll [] false .empty p.statements

/-! ### Inference -/

/-- The causes of complaints about undeclared variables. -/
def Cause.isUndeclared (cause : Cause) : Bool := cause.category = .undeclaredVariable

theorem Cause.apart_isUndeclared : Cause.Apart Cause.isUndeclared where
  typing h := by simp [Cause.isUndeclared, h]
  redeclaration h := by simp [Cause.isUndeclared, h]

open Cause (isUndeclared apart_isUndeclared)
open Diagnostics (select)

section Inference

variable {Γ : List Scope} {name : String}

open SymbolTable

theorem meaning_of_none (h : (ofScopes Γ).lookup? name = none) : meaning? Γ name = none := by
  rw [← lookup_eq_meaning, h]
  rfl

theorem meaning_of_some {s : Symbol} (h : (ofScopes Γ).lookup? name = some s) :
    meaning? Γ name = some s.declaration := by
  rw [← lookup_eq_meaning, h]
  rfl

mutual

/-- **Inference complains about the undeclared names that it reaches.** -/
theorem Expr.undeclared_infer : ∀ e : Expr,
    select isUndeclared (e.infer (ofScopes Γ)).errors = reports (e.undeclared Γ)
  | .literal _ _ => rfl
  | .var name position => by
    unfold Expr.infer Expr.undeclared undeclaredName
    cases hs : (ofScopes Γ).lookup? name with
    | none =>
      rw [meaning_of_none hs]
      rfl
    | some s =>
      rw [meaning_of_some hs]
      rfl
  | .unary op operand position => by
    have ih := Expr.undeclared_infer operand
    unfold Expr.infer Expr.undeclared
    dsimp only
    split
    · exact ih
    · split
      · exact ih
      · simp [ih, isUndeclared, Cause.category]
  | .binary op left right position => by
    have hl := Expr.undeclared_infer left
    have hr := Expr.undeclared_infer right
    unfold Expr.infer Expr.undeclared
    dsimp only
    split
    · split
      · simp [hl, hr]
      · simp [hl, hr, isUndeclared, Cause.category]
    · simp [hl, hr]
  | .call callee arguments position => by
    have ha := Expr.undeclaredAll_infer arguments
    unfold Expr.infer Expr.undeclared Expr.isFunction
    cases hname : callee.name? with
    | none => simp [Inference.failure, isUndeclared, Cause.category]
    | some name =>
      dsimp only
      cases hs : (ofScopes Γ).lookup? name with
      | none => simp [meaning_of_none hs, Inference.failure, isUndeclared, Cause.category]
      | some s =>
        by_cases hrole : s.role = .function
        · simp [meaning_of_some hs, Symbol.declaration, hrole, ha]
        · simp [meaning_of_some hs, Symbol.declaration, hrole, Inference.failure, isUndeclared,
            Cause.category]
  | .assign name value position => by
    have ih := Expr.undeclared_infer value
    unfold Expr.infer Expr.undeclared undeclaredName
    cases hs : (ofScopes Γ).lookup? name with
    | none =>
      rw [meaning_of_none hs, Occurrence.reports_append, Occurrence.reports_within]
      rfl
    | some s =>
      dsimp only
      rw [Diagnostics.select_append, ih, apart_isUndeclared.select_mismatch fun _ _ => rfl,
        meaning_of_some hs]
      simp

theorem Expr.undeclaredAll_infer : ∀ es : List Expr,
    select isUndeclared (Expr.inferAll (ofScopes Γ) es) = reports (Expr.undeclaredAll Γ es)
  | [] => rfl
  | e :: es => by
    unfold Expr.inferAll Expr.undeclaredAll
    simp [Expr.undeclared_infer e, Expr.undeclaredAll_infer es]

end

end Inference

/-! ### Checking -/

namespace Context

variable {ρ : Option ValueType} {S : Scope} {Δ : List Scope} {name : String}

/-- Declaring a name adds it to the current scope if it is new there. -/
theorem declare_ofScopes (type : ValueType) (role : Role) (position : Position) :
    ((ofScopes ρ S Δ).declare name type role position).context =
      ofScopes ρ (S.declare ⟨name, type, role⟩) Δ := by
  by_cases h : S.Fresh name
  · rw [declare_of_fresh h, Scope.declare, dif_pos h]
  · have hdef := Stmt.definedHere_of_not_fresh (ρ := ρ) (Δ := Δ) h
    rw [Scope.declare, dif_neg h]
    simp [Context.declare, SymbolTable.declare, hdef]

theorem declareAll_ofScopes (ps : List Parameter) :
    ((ofScopes ρ S Δ).declareAll ps).context = ofScopes ρ (S.declareAll ps) Δ := by
  induction ps generalizing S with
  | nil => rfl
  | cons p ps ih =>
    rw [declareAll, Scope.declareAll, List.foldl_cons, ← Scope.declareAll]
    exact (congrArg (fun c => (declareAll c ps).context) (declare_ofScopes _ _ _)).trans ih

theorem undeclared_checkValue (e : Option Expr) :
    select isUndeclared ((ofScopes ρ S Δ).checkValue e) =
      reports (Expr.undeclaredOption (S :: Δ) e) := by
  cases e with
  | none => rfl
  | some e => exact e.undeclared_infer

theorem undeclared_checkCondition (construct : String) (e : Expr) :
    select isUndeclared ((ofScopes ρ S Δ).checkCondition construct e) =
      reports (e.undeclared (S :: Δ)) := by
  rw [apart_isUndeclared.select_checkCondition]
  exact e.undeclared_infer

theorem undeclared_checkHeader (condition increment : Option Expr) :
    select isUndeclared ((ofScopes ρ S Δ).checkHeader condition increment) =
      reports (Expr.undeclaredOption (S :: Δ) condition ++
        Expr.undeclaredOption (S :: Δ) increment) := by
  rw [apart_isUndeclared.select_checkHeader, undeclared_checkValue, undeclared_checkValue,
    Occurrence.reports_append]

theorem undeclared_checkGiveBack (position : Position) (value : Option Expr) :
    select isUndeclared ((ofScopes ρ S Δ).checkGiveBack position value) =
      reports (within ρ.isSome (Expr.undeclaredOption (S :: Δ) value)) := by
  rw [apart_isUndeclared.select_checkGiveBack, undeclared_checkValue, Occurrence.reports_within]
  rfl

end Context

namespace Stmt

open Context

/-- The current scope has a name exactly if checking finds it defined there. -/
theorem definedHere_iff {ρ : Option ValueType} {S : Scope} {Δ : List Scope} {name : String} :
    (ofScopes ρ S Δ).table.definedHere name = true ↔ ¬ S.Fresh name := by
  rw [table_ofScopes, ← SymbolTable.definedHere_ofScopes (Δ := Δ), Bool.not_eq_false]

mutual

/-- **Checking ends in the scope that the statement makes,** whatever it complains about. -/
theorem context_check {ρ : Option ValueType} {Δ : List Scope} : ∀ (s : Stmt) (S : Scope),
    (s.check (ofScopes ρ S Δ)).context = ofScopes ρ (s.scopeAfter S) Δ
  | expr _, _ => rfl
  | print _ _, _ => rfl
  | giveBack _ _, _ => rfl
  | variableDecl type name initial position, S => by
    unfold scopeAfter check
    split_ifs with h
    · rw [Scope.declare, dif_neg (definedHere_iff.mp h)]
    · exact declare_ofScopes _ _ _
  | block body position, S => context_check_of_keepsScope _ rfl
  | branch c yes no position, S => by
    have hyes := context_check (ρ := ρ) (Δ := Δ) yes S
    have hno := context_checkOption (ρ := ρ) (Δ := Δ) no (yes.scopeAfter S)
    unfold scopeAfter check
    dsimp only
    rw [hyes, hno]
  | whileLoop c body position, S => context_check body S
  | forLoop initial c i body position, S => context_check_of_keepsScope _ rfl
  | functionDecl result name parameters body bodyPosition position, S => by
    unfold scopeAfter check
    split_ifs with h
    · rw [Scope.declare, dif_neg (definedHere_iff.mp h)]
    · -- the two scopes of the function are left again, and only its name stays
      have hheader := Context.declareAll_grows
        ((ofScopes ρ (S.declare ⟨name, result, .function⟩) Δ).enterFunction result) parameters
      dsimp only
      rw [declare_ofScopes, hheader.leaveFunction (checkAll_grows _ body)]
      rfl

theorem context_checkOption {ρ : Option ValueType} {Δ : List Scope} :
    ∀ (s : Option Stmt) (S : Scope),
      (checkOption (ofScopes ρ S Δ) s).context = ofScopes ρ (scopeAfterOption S s) Δ
  | none, _ => rfl
  | some s, S => context_check s S

end

mutual

/-- **Checking complains about the undeclared names that it reaches.** -/
theorem undeclared_check : ∀ (s : Stmt) (Δ : List Scope) (ρ : Option ValueType) (S : Scope),
    select isUndeclared (s.check (ofScopes ρ S Δ)).errors = reports (s.undeclared Δ ρ.isSome S)
  | expr e, _, _, _ => e.undeclared_infer
  | print e _, _, _, _ => e.undeclared_infer
  | giveBack value position, _, _, _ => undeclared_checkGiveBack position value
  | variableDecl type name initial position, Δ, ρ, S => by
    unfold undeclared check
    rw [Occurrence.reports_within]
    split_ifs with h hfresh hfresh
    · exact absurd (of_decide_eq_true hfresh) (definedHere_iff.mp h)
    · exact apart_isUndeclared.select_redeclared _ _ _
    · rw [Diagnostics.select_append, apart_isUndeclared.select_checkInitial,
        apart_isUndeclared.select_declare, undeclared_checkValue, List.append_nil]
    · exact absurd (definedHere_iff.mpr fun h => hfresh (decide_eq_true h)) h
  | block body position, Δ, ρ, S => by
    unfold undeclared check
    rw [enter_ofScopes]
    exact undeclared_checkAll body (S :: Δ) ρ .empty
  | branch c yes no position, Δ, ρ, S => by
    have hyes := undeclared_check yes Δ ρ S
    have hno := undeclared_checkOption no Δ ρ (yes.scopeAfter S)
    unfold undeclared check
    simp [context_check, undeclared_checkCondition, hyes, hno]
  | whileLoop c body position, Δ, ρ, S => by
    have hbody := undeclared_check body Δ ρ S
    unfold undeclared check
    simp [undeclared_checkCondition, hbody]
  | forLoop initial c i body position, Δ, ρ, S => by
    have hinitial := undeclared_checkOption initial (S :: Δ) ρ .empty
    have hbody := undeclared_check body (S :: Δ) ρ (scopeAfterOption .empty initial)
    unfold undeclared check
    simp [enter_ofScopes, context_checkOption, undeclared_checkHeader, hinitial, hbody]
  | functionDecl result name parameters body bodyPosition position, Δ, ρ, S => by
    unfold undeclared
    rw [Occurrence.reports_within]
    by_cases hname : S.Fresh name
    · have hbody := undeclared_checkAll body
        (Scope.empty.declareAll parameters :: S.declare ⟨name, result, .function⟩ :: Δ)
        (some result) .empty
      have hdeclare : S.declare ⟨name, result, .function⟩ = S.add _ hname := dif_pos hname
      rw [hdeclare] at hbody ⊢
      rw [check_functionDecl hname]
      simp [apart_isUndeclared.select_declareAll, declareAll_ofScopes, enter_ofScopes, hbody,
        hname]
    · unfold check
      rw [if_pos (definedHere_iff.mpr hname), apart_isUndeclared.select_redeclared]
      simp [hname]

theorem undeclared_checkAll : ∀ (ss : List Stmt) (Δ : List Scope) (ρ : Option ValueType)
    (S : Scope), select isUndeclared (checkAll (ofScopes ρ S Δ) ss).errors =
      reports (undeclaredAll Δ ρ.isSome S ss)
  | [], _, _, _ => rfl
  | s :: rest, Δ, ρ, S => by
    have hs := undeclared_check s Δ ρ S
    have hrest := undeclared_checkAll rest Δ ρ (s.scopeAfter S)
    unfold undeclaredAll checkAll
    simp [context_check, hs, hrest]

theorem undeclared_checkOption : ∀ (s : Option Stmt) (Δ : List Scope) (ρ : Option ValueType)
    (S : Scope), select isUndeclared (checkOption (ofScopes ρ S Δ) s).errors =
      reports (undeclaredOption Δ ρ.isSome S s)
  | none, _, _, _ => rfl
  | some s, Δ, ρ, S => undeclared_check s Δ ρ S

end

end Stmt

/-- **Undeclared names are complained about once for each occurrence that is reached.**  In order
and with their places, the complaints about undeclared variables are those about the reached
occurrences of names that are read or assigned to without a visible declaration.  So there are never
more of them than occurrences, and as many exactly if every occurrence is reached. -/
theorem Program.check_undeclared (p : Program) :
    (p.check.filter fun d => d.category = .undeclaredVariable) =
      (p.undeclared.filter (·.reached)).map Occurrence.diagnostic ∧
    p.check.countOf .undeclaredVariable ≤ p.undeclared.length ∧
    (p.check.countOf .undeclaredVariable = p.undeclared.length ↔
      ∀ o ∈ p.undeclared, o.reached = true) := by
  have hreports : select isUndeclared p.check = reports p.undeclared :=
    Stmt.undeclared_checkAll p.statements [] none .empty
  have hcount : p.check.countOf .undeclaredVariable = (p.undeclared.filter (·.reached)).length := by
    have hlength := congrArg List.length hreports
    rw [reports, List.length_map] at hlength
    rw [Diagnostics.countOf, List.countP_eq_length_filter]
    exact hlength
  refine ⟨hreports, ?_, ?_⟩
  · rw [hcount]
    exact List.length_filter_le _ _
  · rw [hcount]
    exact List.length_filter_eq_length_iff

/-- An assignment with neither its target nor its value declared. -/
def chained : String := "x = y;"

/-- An undeclared target hides what is undeclared in the value. -/
theorem chained_undeclared : (tokenize chained).errors = [] ∧
    (parse (tokenize chained).tokens).errors = [] ∧
    (parse (tokenize chained).tokens).program.undeclared =
      [⟨"x", ⟨1, 1⟩, true⟩, ⟨"y", ⟨1, 5⟩, false⟩] ∧
    (parse (tokenize chained).tokens).program.check = [⟨.variableNotDeclared "x", ⟨1, 1⟩⟩] := by
  decide +kernel

end StackListing
