import StackListing.Expr.Parse
import StackListing.Stmt

/-!
# Parsing statements

The first token of a statement decides its form.  The rules are functions of the step `stmt` that
reads the statements inside them; each reads a token before it uses `stmt`, so the number of tokens
left bounds the depth of statements.  A statement that fails is reported, and reading goes on at the
next boundary.
-/

namespace StackListing.Parse

/-- Reads a statement; a failure is reported, and the stream moves to the next boundary. -/
def recover (stmt : Parse Stmt) : Parse (Option Stmt) := fun s =>
  match stmt s with
  | .ok x t => .ok (some x) t
  | .error d t => .ok none ⟨t.stream.synchronize, t.errors ++ [d]⟩

/-- Reads statements up to the end or to a token that `stops`, recovering from failures.  At most
`n` attempts are made. -/
def statements (stops : Kind → Bool) (stmt : Parse Stmt) : Nat → Parse (List Stmt)
  | 0 => return []
  | n + 1 => do
    if (← get).stream.atEnd || stops (← current).kind then return []
    else
      match ← recover stmt with
      | some s => return s :: (← statements stops stmt n)
      | none => statements stops stmt n

/-- Reads a parameter. -/
def parameter : Parse Parameter := do
  let type ← type parameterType
  let name ← expect .identifier "Expected parameter name"
  return ⟨type, name.value, name.position⟩

/-- Reads at most `n + 1` parameters with commas between them. -/
def parameters : Nat → Parse (List Parameter)
  | 0 => return [← parameter]
  | n + 1 => do
    let p ← parameter
    if ← accept .comma then return p :: (← parameters n) else return [p]

/-! ### The rules, given a step for the statements inside -/

section Rules

variable (g : Grammar)

/-- Reads an expression unless the current token has the given kind. -/
def exprUnless (kind : Kind) : Parse (Option Expr) := do
  if (← current).kind = kind then return none else return some (← expr g .lowest)

/-- Reads an expression and a semicolon. -/
def expressionStmt : Parse Stmt := do
  let e ← expr g .lowest
  let _ ← expect .semicolon "Expected ';' after expression"
  return .expr e

/-- Reads the declaration of a variable. -/
def variableDecl : Parse Stmt := do
  let type ← type declarationType
  let name ← expect .identifier "Expected variable name"
  let initial ← if ← accept .assign then some <$> expr g .lowest else pure none
  let _ ← expect .semicolon "Expected ';' after variable declaration"
  return .variableDecl type name.value initial name.position

/-- Reads a value to give back from a function. -/
def giveBack : Parse Stmt := do
  let t ← advance
  let value ← exprUnless g .semicolon
  let _ ← expect .semicolon "Expected ';' after return value"
  return .giveBack value t.position

/-- Reads a value to print. -/
def print : Parse Stmt := do
  let t ← advance
  let _ ← expect .openParen "Expected '(' after 'print'"
  let e ← expr g .lowest
  let _ ← expect .closeParen "Expected ')' after print expression"
  let _ ← expect .semicolon "Expected ';' after print statement"
  return .print e t.position

variable (stmt : Parse Stmt)

/-- Reads the statements of a block and its closing brace. -/
def blockBody : Parse (List Stmt) := do
  let body ← statements (· = .closeCurly) stmt (← remaining)
  let _ ← expect .closeCurly "Expected '\x7d' after block"
  return body

/-- Reads a block. -/
def block : Parse Stmt := do
  let t ← advance
  return .block (← blockBody stmt) t.position

/-- Reads the declaration of a function. -/
def functionDecl : Parse Stmt := do
  let result ← type declarationType
  let name ← expect .identifier "Expected function name"
  let _ ← expect .openParen "Expected '(' after function name"
  let params ← if (← current).kind = .closeParen then pure [] else parameters (← remaining)
  let _ ← expect .closeParen "Expected ')' after parameters"
  let brace ← expect .openCurly "Expected '\x7b' before function body"
  let body ← blockBody stmt
  return .functionDecl result name.value params body brace.position name.position

/-- Reads a declaration: of a function if a name and a parenthesis follow the type. -/
def declarationStmt : Parse Stmt := do
  if (← peek 1).kind = .identifier && (← peek 2).kind = .openParen then functionDecl stmt
  else variableDecl g

/-- Reads the statement that a branch or a loop governs.  A declaration is none: its type keyword is
taken for the beginning of an expression. -/
def bodyStmt : Parse Stmt := do
  if (← current).kind.isType then expressionStmt g else stmt

/-- Reads a branch. -/
def branch : Parse Stmt := do
  let t ← advance
  let _ ← expect .openParen "Expected '(' after 'if'"
  let condition ← expr g .lowest
  let _ ← expect .closeParen "Expected ')' after if condition"
  let yes ← bodyStmt g stmt
  let no ← if ← accept .elseWord then some <$> bodyStmt g stmt else pure none
  return .branch condition yes no t.position

/-- Reads a loop with a condition. -/
def whileLoop : Parse Stmt := do
  let t ← advance
  let _ ← expect .openParen "Expected '(' after 'while'"
  let condition ← expr g .lowest
  let _ ← expect .closeParen "Expected ')' after while condition"
  return .whileLoop condition (← bodyStmt g stmt) t.position

/-- Reads the first part of a loop header and its semicolon. -/
def forInitial : Parse (Option Stmt) := do
  if ← accept .semicolon then return none
  else if (← current).kind.isType then return some (← variableDecl g)
  else return some (← expressionStmt g)

/-- Reads a loop with a header of three parts. -/
def forLoop : Parse Stmt := do
  let t ← advance
  let _ ← expect .openParen "Expected '(' after 'for'"
  let initial ← forInitial g
  let condition ← exprUnless g .semicolon
  let _ ← expect .semicolon "Expected ';' after loop condition"
  let increment ← exprUnless g .closeParen
  let _ ← expect .closeParen "Expected ')' after for clauses"
  return .forLoop initial condition increment (← bodyStmt g stmt) t.position

/-- Reads a statement of the given form. -/
def statement : StatementForm → Parse Stmt
  | .declaration => declarationStmt g stmt
  | .branch => branch g stmt
  | .whileLoop => whileLoop g stmt
  | .forLoop => forLoop g stmt
  | .giveBack => giveBack g
  | .print => print g
  | .block => block stmt

end Rules

/-! ### Statements and programs -/

/-- Reads a statement when at most `n` tokens are left. -/
def stmtWithin (g : Grammar) : Nat → Parse Stmt
  | 0 => expressionStmt g
  | n + 1 => do
    match g.statement? (← current).kind with
    | none => expressionStmt g
    | some form => statement g (stmtWithin g n) form

/-- **Reads a statement.** -/
def stmt (g : Grammar) : Parse Stmt := do stmtWithin g (← remaining)

/-- Reads statements up to the end. -/
def program (g : Grammar) : Parse Program := do
  return ⟨← statements (fun _ => false) (stmt g) (← remaining)⟩

end Parse

/-- A program and the complaints about it. -/
structure ParseResult where
  program : Program
  errors : Diagnostics

/-- **The program that tokens write,** with the statements that could be read. -/
def parse (tokens : List Token) : ParseResult :=
  match Parse.program Grammar.standard ⟨TokenStream.ofTokens tokens, []⟩ with
  | .ok program s => ⟨program, s.errors⟩
  | .error d s => ⟨⟨[]⟩, s.errors ++ [d]⟩

end StackListing
