import StackListing.Grammar
import StackListing.Number.Reading
import StackListing.Stmt

/-!
# Derivation trees

The grammar of the language, as a family of derivation trees.  A tree has one constructor for each
alternative of a rule and its children are the symbols of that alternative in order, so a tree of
the type `StmtTree` is a derivation of a statement.  The tokens at the leaves, from left to right,
are what the tree derives (`tokens`), and the tree stands for an expression or a statement (`expr`,
`stmt`).

Expressions come in levels, named by powers.  The rule of a level joins trees of the next tighter
level, from the left, by the operators of the level; assignments are read from the right, and their
target is a variable, perhaps in parentheses.  The bodies of branches and loops are statements other
than declarations.  They come in two types, by whether an `else` behind the body would belong to an
`if` inside it: the body before an `else` is of the type that leaves the `else` alone, so that every
`else` belongs to the nearest `if`.
-/

namespace StackListing

/-! ### Words -/

/-- A token of a given kind. -/
abbrev Word (k : Kind) : Type := { t : Token // t.kind = k }

/-- A type keyword and the type that it names. -/
structure TypeWord where
  token : Token
  type : ValueType
  named : token.kind.type? = some type

/-- The constant that a token writes; a number must be one that can be represented. -/
def Literal.ofToken? (t : Token) : Option Literal :=
  match t.kind with
  | .integerLiteral => (Number.readInteger? t.value).map .integer
  | .floatLiteral => (Number.readFloat? t.value).map .float
  | .stringLiteral => some (.string t.value)
  | .trueWord => some (.boolean true)
  | .falseWord => some (.boolean false)
  | _ => none

/-- A token that writes a constant. -/
structure LiteralWord where
  token : Token
  value : Literal
  written : Literal.ofToken? token = some value

/-- An operator before an operand. -/
structure PrefixWord where
  token : Token
  op : UnaryOp
  named : UnaryOp.ofKind? token.kind = some op

/-- The level at which an operator joins its operands. -/
def BinaryOp.level : BinaryOp → Power
  | .or => .logicalOr
  | .and => .logicalAnd
  | .equal | .notEqual => .equality
  | .less | .lessEqual | .greater | .greaterEqual => .relational
  | .add | .subtract => .additive
  | .multiply | .divide | .modulo => .multiplicative

/-- An operator of level `p` between two operands. -/
structure InfixWord (p : Power) where
  token : Token
  op : BinaryOp
  named : BinaryOp.ofKind? token.kind = some op
  level : op.level = p

/-- The next tighter level. -/
def Power.tighter? : Power → Option Power
  | .lowest => some .assignment
  | .assignment => some .logicalOr
  | .logicalOr => some .logicalAnd
  | .logicalAnd => some .equality
  | .equality => some .relational
  | .relational => some .additive
  | .additive => some .multiplicative
  | .multiplicative => some .unary
  | .unary => some .call
  | .call => some .primary
  | .primary => none

/-! ### Expressions -/

/-- The target of an assignment: `target = IDENT | '(' target ')'`. -/
inductive TargetTree where
  | name (t : Word .identifier)
  | paren (l : Word .openParen) (inner : TargetTree) (r : Word .closeParen)

namespace TargetTree

def tokens : TargetTree → List Token
  | name t => [t.1]
  | paren l inner r => l.1 :: (inner.tokens ++ [r.1])

/-- The token that names the variable. -/
def token : TargetTree → Token
  | name t => t.1
  | paren _ inner _ => inner.token

end TargetTree

mutual

/-- **A derivation of an expression of level `p`.** -/
inductive ExprTree : Power → Type
  | literal (t : LiteralWord) : ExprTree .primary
  | var (t : Word .identifier) : ExprTree .primary
  | paren (l : Word .openParen) (inner : ExprTree .assignment) (r : Word .closeParen) :
      ExprTree .primary
  | unary (t : PrefixWord) (operand : ExprTree .unary) : ExprTree .unary
  | assign (target : TargetTree) (sign : Word .assign) (value : ExprTree .assignment) :
      ExprTree .assignment
  /-- An operand of the next level, and what the operators of this level join to it. -/
  | joined {p q : Power} (h : p.tighter? = some q) (first : ExprTree q) (links : LinkTrees p) :
      ExprTree p

/-- What the operators of level `p` join to the expression before them, from left to right. -/
inductive LinkTrees : Power → Type
  | nil {p : Power} : LinkTrees p
  | binary {p q : Power} (h : p.tighter? = some q) (t : InfixWord p) (right : ExprTree q)
      (rest : LinkTrees p) : LinkTrees p
  | callEmpty (l : Word .openParen) (r : Word .closeParen) (rest : LinkTrees .call) :
      LinkTrees .call
  | call (l : Word .openParen) (args : ArgumentTrees) (r : Word .closeParen)
      (rest : LinkTrees .call) : LinkTrees .call

/-- Arguments with commas between them. -/
inductive ArgumentTrees : Type
  | one (e : ExprTree .assignment) : ArgumentTrees
  | more (e : ExprTree .assignment) (comma : Word .comma) (rest : ArgumentTrees) : ArgumentTrees

end

mutual

/-- The tokens that an expression's tree derives. -/
def ExprTree.tokens {p : Power} : ExprTree p → List Token
  | .literal t => [t.token]
  | .var t => [t.1]
  | .paren l inner r => l.1 :: (inner.tokens ++ [r.1])
  | .unary t operand => t.token :: operand.tokens
  | .assign target sign value => target.tokens ++ sign.1 :: value.tokens
  | .joined _ first links => first.tokens ++ links.tokens

@[inherit_doc ExprTree.tokens]
def LinkTrees.tokens {p : Power} : LinkTrees p → List Token
  | .nil => []
  | .binary _ t right rest => t.token :: (right.tokens ++ rest.tokens)
  | .callEmpty l r rest => l.1 :: r.1 :: rest.tokens
  | .call l args r rest => l.1 :: (args.tokens ++ r.1 :: rest.tokens)

@[inherit_doc ExprTree.tokens]
def ArgumentTrees.tokens : ArgumentTrees → List Token
  | .one e => e.tokens
  | .more e comma rest => e.tokens ++ comma.1 :: rest.tokens

end

mutual

/-- The expression that a tree stands for. -/
def ExprTree.expr {p : Power} : ExprTree p → Expr
  | .literal t => .literal t.value t.token.position
  | .var t => .var t.1.value t.1.position
  | .paren _ inner _ => inner.expr
  | .unary t operand => .unary t.op operand.expr t.token.position
  | .assign target _ value => .assign target.token.value value.expr target.token.position
  | .joined _ first links => links.join first.expr

/-- The expression that results when the links are joined to `left`. -/
def LinkTrees.join {p : Power} (left : Expr) : LinkTrees p → Expr
  | .nil => left
  | .binary _ t right rest => rest.join (.binary t.op left right.expr t.token.position)
  | .callEmpty _ r rest => rest.join (.call left [] r.1.position)
  | .call _ args r rest => rest.join (.call left args.exprs r.1.position)

/-- The expressions that arguments stand for. -/
def ArgumentTrees.exprs : ArgumentTrees → List Expr
  | .one e => [e.expr]
  | .more e _ rest => e.expr :: rest.exprs

end

/-! ### Statements -/

/-- A parameter: `type IDENT`. -/
structure ParameterTree where
  type : TypeWord
  name : Word .identifier

def ParameterTree.tokens (p : ParameterTree) : List Token := [p.type.token, p.name.1]

def ParameterTree.parameter (p : ParameterTree) : Parameter :=
  ⟨p.type.type, p.name.1.value, p.name.1.position⟩

/-- Parameters with commas between them. -/
inductive ParameterTrees where
  | one (p : ParameterTree)
  | more (p : ParameterTree) (comma : Word .comma) (rest : ParameterTrees)

namespace ParameterTrees

def tokens : ParameterTrees → List Token
  | one p => p.tokens
  | more p comma rest => p.tokens ++ comma.1 :: rest.tokens

def parameters : ParameterTrees → List Parameter
  | one p => [p.parameter]
  | more p _ rest => p.parameter :: rest.parameters

end ParameterTrees

/-- An expression that may be absent: `[expr]`. -/
abbrev OptionTree : Type := Option (ExprTree .assignment)

def OptionTree.tokens (e : OptionTree) : List Token := e.elim [] ExprTree.tokens

def OptionTree.expr (e : OptionTree) : Option Expr := e.map ExprTree.expr

/-- The initial value of a variable: `['=' expr]`. -/
abbrev InitialTree : Type := Option (Word .assign × ExprTree .assignment)

def InitialTree.tokens (i : InitialTree) : List Token := i.elim [] fun v => v.1.1 :: v.2.tokens

def InitialTree.expr (i : InitialTree) : Option Expr := i.map fun v => v.2.expr

/-- The declaration of a variable: `type IDENT ['=' expr] ';'`. -/
structure VariableTree where
  type : TypeWord
  name : Word .identifier
  initial : InitialTree
  semi : Word .semicolon

def VariableTree.tokens (v : VariableTree) : List Token :=
  v.type.token :: v.name.1 :: (v.initial.tokens ++ [v.semi.1])

def VariableTree.stmt (v : VariableTree) : Stmt :=
  .variableDecl v.type.type v.name.1.value v.initial.expr v.name.1.position

/-- The first part of a loop header: `';' | type IDENT ['=' expr] ';' | expr ';'`. -/
inductive HeaderTree where
  | absent (semi : Word .semicolon)
  | var (v : VariableTree)
  | expr (e : ExprTree .assignment) (semi : Word .semicolon)

def HeaderTree.tokens : HeaderTree → List Token
  | absent semi => [semi.1]
  | var v => v.tokens
  | expr e semi => e.tokens ++ [semi.1]

def HeaderTree.stmt : HeaderTree → Option Stmt
  | absent _ => none
  | var v => some v.stmt
  | expr e _ => some (.expr e.expr)

mutual

/-- **A derivation of a statement.** -/
inductive StmtTree : Type
  | body {o : Bool} (s : BodyTree o) : StmtTree
  | var (v : VariableTree) : StmtTree
  | function (type : TypeWord) (name : Word .identifier) (l : Word .openParen)
      (parameters : Option ParameterTrees) (r : Word .closeParen) (lb : Word .openCurly)
      (body : StmtTrees) (rb : Word .closeCurly) : StmtTree

/-- Statements one after the other. -/
inductive StmtTrees : Type
  | nil : StmtTrees
  | cons (s : StmtTree) (rest : StmtTrees) : StmtTrees

/-- A derivation of a statement that is not a declaration.  The flag says whether an `else` behind
it would belong to an `if` inside it. -/
inductive BodyTree : Bool → Type
  | block (l : Word .openCurly) (body : StmtTrees) (r : Word .closeCurly) : BodyTree false
  | ifOnly {o : Bool} (kw : Word .ifWord) (l : Word .openParen) (c : ExprTree .assignment)
      (r : Word .closeParen) (yes : BodyTree o) : BodyTree true
  | ifElse {o : Bool} (kw : Word .ifWord) (l : Word .openParen) (c : ExprTree .assignment)
      (r : Word .closeParen) (yes : BodyTree false) (kw' : Word .elseWord) (no : BodyTree o) :
      BodyTree o
  | whileLoop {o : Bool} (kw : Word .whileWord) (l : Word .openParen) (c : ExprTree .assignment)
      (r : Word .closeParen) (body : BodyTree o) : BodyTree o
  | forLoop {o : Bool} (kw : Word .forWord) (l : Word .openParen) (initial : HeaderTree)
      (c : OptionTree) (semi : Word .semicolon) (i : OptionTree) (r : Word .closeParen)
      (body : BodyTree o) : BodyTree o
  | giveBack (kw : Word .returnWord) (value : OptionTree) (semi : Word .semicolon) : BodyTree false
  | print (kw : Word .printWord) (l : Word .openParen) (e : ExprTree .assignment)
      (r : Word .closeParen) (semi : Word .semicolon) : BodyTree false
  | expr (e : ExprTree .assignment) (semi : Word .semicolon) : BodyTree false

end

mutual

/-- The tokens that a statement's tree derives. -/
def StmtTree.tokens : StmtTree → List Token
  | .body s => s.tokens
  | .var v => v.tokens
  | .function type name l parameters r lb body rb =>
    type.token :: name.1 :: l.1 :: (parameters.elim [] ParameterTrees.tokens ++
      r.1 :: lb.1 :: (body.tokens ++ [rb.1]))

@[inherit_doc StmtTree.tokens]
def StmtTrees.tokens : StmtTrees → List Token
  | .nil => []
  | .cons s rest => s.tokens ++ rest.tokens

@[inherit_doc StmtTree.tokens]
def BodyTree.tokens {o : Bool} : BodyTree o → List Token
  | .block l body r => l.1 :: (body.tokens ++ [r.1])
  | .ifOnly kw l c r yes => kw.1 :: l.1 :: (c.tokens ++ r.1 :: yes.tokens)
  | .ifElse kw l c r yes kw' no =>
    kw.1 :: l.1 :: (c.tokens ++ r.1 :: (yes.tokens ++ kw'.1 :: no.tokens))
  | .whileLoop kw l c r body => kw.1 :: l.1 :: (c.tokens ++ r.1 :: body.tokens)
  | .forLoop kw l initial c semi i r body =>
    kw.1 :: l.1 :: (initial.tokens ++ (c.tokens ++ semi.1 :: (i.tokens ++ r.1 :: body.tokens)))
  | .giveBack kw value semi => kw.1 :: (value.tokens ++ [semi.1])
  | .print kw l e r semi => kw.1 :: l.1 :: (e.tokens ++ [r.1, semi.1])
  | .expr e semi => e.tokens ++ [semi.1]

end

mutual

/-- The statement that a tree stands for. -/
def StmtTree.stmt : StmtTree → Stmt
  | .body s => s.stmt
  | .var v => v.stmt
  | .function type name _ parameters _ lb body _ =>
    .functionDecl type.type name.1.value (parameters.elim [] ParameterTrees.parameters) body.stmts
      lb.1.position name.1.position

/-- The statements that trees stand for. -/
def StmtTrees.stmts : StmtTrees → List Stmt
  | .nil => []
  | .cons s rest => s.stmt :: rest.stmts

@[inherit_doc StmtTree.stmt]
def BodyTree.stmt {o : Bool} : BodyTree o → Stmt
  | .block l body _ => .block body.stmts l.1.position
  | .ifOnly kw _ c _ yes => .branch c.expr yes.stmt none kw.1.position
  | .ifElse kw _ c _ yes _ no => .branch c.expr yes.stmt (some no.stmt) kw.1.position
  | .whileLoop kw _ c _ body => .whileLoop c.expr body.stmt kw.1.position
  | .forLoop kw _ initial c _ i _ body =>
    .forLoop initial.stmt c.expr i.expr body.stmt kw.1.position
  | .giveBack kw value _ => .giveBack value.expr kw.1.position
  | .print kw _ e _ _ => .print e.expr kw.1.position
  | .expr e _ => .expr e.expr

end

/-- **A derivation of a program:** statements up to the end of the tokens. -/
structure ProgramTree where
  statements : StmtTrees

namespace ProgramTree

/-- The tokens that a program's tree derives. -/
def tokens (p : ProgramTree) : List Token := p.statements.tokens

/-- The program that a tree stands for. -/
def program (p : ProgramTree) : Program := ⟨p.statements.stmts⟩

end ProgramTree

end StackListing
