import StackListing.Expr.Infer
import StackListing.Stmt

/-!
# Typing rules

The rules of types and scopes, stated without reference to a procedure.  A scope holds the
declarations made in it so far, with distinct names; scopes are nested, and a name means the
declaration in the innermost scope that has one.

`HasType Γ e τ` says that the expression `e` has the type `τ` where the scopes `Γ` are open, the
innermost first.  `Stmt.WellTyped Δ ρ S s S'` says that the statement `s` obeys the rules in the
scope `S` inside the scopes `Δ`, in a function that gives back `ρ` (or in none), and that it leaves
`S'` as the current scope.  Only declarations change the current scope, and nothing changes the
scopes around it.
-/

namespace StackListing

/-! ### Scopes -/

/-- What a name was declared as. -/
structure Declaration where
  name : String
  type : ValueType
  role : Role
deriving DecidableEq

/-- **The declarations of one scope,** the latest first. -/
@[ext]
structure Scope where
  declarations : List Declaration
  nodup : (declarations.map (·.name)).Nodup

namespace Scope

/-- The scope has no declaration of the name. -/
def Fresh (S : Scope) (name : String) : Prop := ∀ d ∈ S.declarations, d.name ≠ name

/-- The scope in which nothing is declared. -/
def empty : Scope := ⟨[], List.nodup_nil⟩

/-- The scope with a further declaration, of a name that it does not have. -/
def add (S : Scope) (d : Declaration) (h : S.Fresh d.name) : Scope :=
  ⟨d :: S.declarations, by
    rw [List.map_cons, List.nodup_cons]
    refine ⟨fun hmem => ?_, S.nodup⟩
    obtain ⟨d', hd', hname⟩ := List.mem_map.mp hmem
    exact h d' hd' hname⟩

end Scope

/-- **The meaning of a name:** the declaration in the innermost scope that has one. -/
inductive Visible : List Scope → Declaration → Prop
  | here {S : Scope} {Δ : List Scope} {d : Declaration} (h : d ∈ S.declarations) :
      Visible (S :: Δ) d
  | outside {S : Scope} {Δ : List Scope} {d : Declaration} (h : S.Fresh d.name)
      (hd : Visible Δ d) : Visible (S :: Δ) d

/-! ### Types -/

/-- A value of type `actual` may stand where `expected` is declared: the types are the same, or an
integer stands for a float. -/
inductive Fits : ValueType → ValueType → Prop
  | same (τ : ValueType) : Fits τ τ
  | widened : Fits .float .int

/-- The types that can be calculated with. -/
inductive Numeric : ValueType → Prop
  | int : Numeric .int
  | float : Numeric .float

/-- The operator takes operands of types `σ` and `τ` and gives a value of type `ρ`. -/
inductive BinaryOp.Takes : BinaryOp → ValueType → ValueType → ValueType → Prop
  | arithmetic {op : BinaryOp} (hop : op ∈ [add, subtract, multiply, divide, modulo])
      {σ τ : ValueType} (hσ : Numeric σ) (hτ : Numeric τ) : Takes op σ τ (.promote σ τ)
  | relational {op : BinaryOp} (hop : op ∈ [less, lessEqual, greater, greaterEqual])
      {σ τ : ValueType} (hσ : Numeric σ) (hτ : Numeric τ) : Takes op σ τ .bool
  | equality {op : BinaryOp} (hop : op ∈ [equal, notEqual]) {σ τ : ValueType} (h : Fits σ τ) :
      Takes op σ τ .bool
  | logical {op : BinaryOp} (hop : op ∈ [and, or]) : Takes op .bool .bool .bool

/-- The operator takes an operand of type `σ` and gives a value of type `ρ`. -/
inductive UnaryOp.Takes : UnaryOp → ValueType → ValueType → Prop
  | negate {σ : ValueType} (h : Numeric σ) : Takes negate σ σ
  | not : Takes not .bool .bool

mutual

/-- **The type of an expression** where the scopes `Γ` are open. -/
inductive HasType (Γ : List Scope) : Expr → ValueType → Prop
  | literal (value : Literal) (position : Position) :
      HasType Γ (.literal value position) value.type
  | var {d : Declaration} (hd : Visible Γ d) (position : Position) :
      HasType Γ (.var d.name position) d.type
  | unary {op : UnaryOp} {e : Expr} {σ ρ : ValueType} (he : HasType Γ e σ) (hop : op.Takes σ ρ)
      (position : Position) : HasType Γ (.unary op e position) ρ
  | binary {op : BinaryOp} {l r : Expr} {σ τ ρ : ValueType} (hl : HasType Γ l σ)
      (hr : HasType Γ r τ) (hop : op.Takes σ τ ρ) (position : Position) :
      HasType Γ (.binary op l r position) ρ
  /-- Only names of functions are called; nothing is asked of the number of the arguments. -/
  | call {d : Declaration} (hd : Visible Γ d) (hrole : d.role = .function) (place : Position)
      {arguments : List Expr} (ha : AllTyped Γ arguments) (position : Position) :
      HasType Γ (.call (.var d.name place) arguments position) d.type
  | assign {d : Declaration} (hd : Visible Γ d) {e : Expr} {τ : ValueType} (he : HasType Γ e τ)
      (hτ : Fits d.type τ) (position : Position) :
      HasType Γ (.assign d.name e position) d.type

/-- Every one of the expressions has a type. -/
inductive AllTyped (Γ : List Scope) : List Expr → Prop
  | nil : AllTyped Γ []
  | cons {e : Expr} {τ : ValueType} {es : List Expr} (he : HasType Γ e τ) (hes : AllTyped Γ es) :
      AllTyped Γ (e :: es)

end

/-! ### Statements -/

/-- The declaration that a parameter makes. -/
def Parameter.declaration (p : Parameter) : Declaration := ⟨p.name, p.type, .parameter⟩

namespace Stmt

mutual

/-- **The statement obeys the rules** in the scope `S` inside `Δ`, and leaves `S'`. -/
inductive WellTyped : List Scope → Option ValueType → Scope → Stmt → Scope → Prop
  | expr {Δ : List Scope} {ρ : Option ValueType} {S : Scope} {e : Expr} {τ : ValueType}
      (he : HasType (S :: Δ) e τ) : WellTyped Δ ρ S (.expr e) S
  | print {Δ : List Scope} {ρ : Option ValueType} {S : Scope} {e : Expr} {τ : ValueType}
      (he : HasType (S :: Δ) e τ) (position : Position) : WellTyped Δ ρ S (.print e position) S
  /-- A value is given back inside a function only, and there is always one. -/
  | giveBack {Δ : List Scope} {ρ : ValueType} {S : Scope} {e : Expr} {τ : ValueType}
      (he : HasType (S :: Δ) e τ) (hτ : Fits ρ τ) (position : Position) :
      WellTyped Δ (some ρ) S (.giveBack (some e) position) S
  /-- The initial value is judged before the name is declared. -/
  | variableDecl {Δ : List Scope} {ρ : Option ValueType} {S : Scope} {type : ValueType}
      {name : String} {initial : Option Expr} (hname : S.Fresh name)
      (hi : ∀ e ∈ initial, ∃ τ, HasType (S :: Δ) e τ ∧ Fits type τ) (position : Position) :
      WellTyped Δ ρ S (.variableDecl type name initial position) (S.add ⟨name, type, .var⟩ hname)
  | block {Δ : List Scope} {ρ : Option ValueType} {S B : Scope} {body : List Stmt}
      (hb : AllWellTyped (S :: Δ) ρ .empty body B) (position : Position) :
      WellTyped Δ ρ S (.block body position) S
  /-- Branches open no scope of their own. -/
  | branch {Δ : List Scope} {ρ : Option ValueType} {S S₁ S₂ : Scope} {c : Expr} {yes : Stmt}
      {no : Option Stmt} (hc : HasType (S :: Δ) c .bool) (hy : WellTyped Δ ρ S yes S₁)
      (hn : OptionWellTyped Δ ρ S₁ no S₂) (position : Position) :
      WellTyped Δ ρ S (.branch c yes no position) S₂
  | whileLoop {Δ : List Scope} {ρ : Option ValueType} {S S' : Scope} {c : Expr} {body : Stmt}
      (hc : HasType (S :: Δ) c .bool) (hb : WellTyped Δ ρ S body S') (position : Position) :
      WellTyped Δ ρ S (.whileLoop c body position) S'
  /-- The header opens a scope, in which the body stands too. -/
  | forLoop {Δ : List Scope} {ρ : Option ValueType} {S H B : Scope} {initial : Option Stmt}
      {c i : Option Expr} {body : Stmt} (hh : OptionWellTyped (S :: Δ) ρ .empty initial H)
      (hc : ∀ e ∈ c, HasType (H :: S :: Δ) e .bool) (hi : ∀ e ∈ i, ∃ τ, HasType (H :: S :: Δ) e τ)
      (hb : WellTyped (S :: Δ) ρ H body B) (position : Position) :
      WellTyped Δ ρ S (.forLoop initial c i body position) S
  /-- The name of the function is declared before its body, which is a block inside the scope of
  the parameters. -/
  | functionDecl {Δ : List Scope} {ρ : Option ValueType} {S P B : Scope} {result : ValueType}
      {name : String} {parameters : List Parameter} {body : List Stmt} (hname : S.Fresh name)
      (hp : P.declarations = (parameters.map Parameter.declaration).reverse)
      (hb : AllWellTyped (P :: S.add ⟨name, result, .function⟩ hname :: Δ) (some result) .empty
        body B) (bodyPosition position : Position) :
      WellTyped Δ ρ S (.functionDecl result name parameters body bodyPosition position)
        (S.add ⟨name, result, .function⟩ hname)

/-- The statements obey the rules one after the other. -/
inductive AllWellTyped : List Scope → Option ValueType → Scope → List Stmt → Scope → Prop
  | nil {Δ : List Scope} {ρ : Option ValueType} {S : Scope} : AllWellTyped Δ ρ S [] S
  | cons {Δ : List Scope} {ρ : Option ValueType} {S S₁ S₂ : Scope} {s : Stmt} {rest : List Stmt}
      (hs : WellTyped Δ ρ S s S₁) (hr : AllWellTyped Δ ρ S₁ rest S₂) :
      AllWellTyped Δ ρ S (s :: rest) S₂

/-- The statement obeys the rules if there is one. -/
inductive OptionWellTyped : List Scope → Option ValueType → Scope → Option Stmt → Scope → Prop
  | none {Δ : List Scope} {ρ : Option ValueType} {S : Scope} : OptionWellTyped Δ ρ S none S
  | some {Δ : List Scope} {ρ : Option ValueType} {S S' : Scope} {s : Stmt}
      (hs : WellTyped Δ ρ S s S') : OptionWellTyped Δ ρ S (some s) S'

end

end Stmt

/-- **The program obeys the rules,** from an empty global scope and outside any function. -/
def Program.WellTyped (p : Program) : Prop :=
  ∃ S, Stmt.AllWellTyped [] none .empty p.statements S

end StackListing
