import StackListing.Stmt.Code

/-!
# Listings under construction

A draft is a listing to which lines are added at its end, with the number of the next label.  The
code of an expression or a statement is added line by line, from the outside in: a label is taken
when it is first needed, and what is inside is added to the draft as it then stands.  All labels come
from the one number, so the labels of a draft are numbered in the order in which they were taken.

The number of the next label is unbounded.  Code of sources shorter than `2 ^ 31` characters is
meant, in which the labels are so few that their numbers stay within the range of unsigned numbers
of 32 bits.
-/

namespace StackListing

/-- Lines so far, and the number of the next label. -/
structure Draft where
  lines : Listing
  next : Nat
deriving DecidableEq

namespace Draft

/-- The draft without lines. -/
def empty : Draft := ⟨[], 0⟩

/-- Adds lines that take no label. -/
def add (d : Draft) (lines : Listing) : Draft := { d with lines := d.lines ++ lines }

/-- Takes the next label. -/
def newLabel (d : Draft) (stem : String) : Label × Draft :=
  (⟨stem, d.next⟩, { d with next := d.next + 1 })

/-- Adds the code of a constant; a text takes a label. -/
def addLiteral (d : Draft) : Literal → Draft
  | .string _ =>
    let (text, d) := d.newLabel "str"
    d.add [.noted (.mov Register.eax (.label text)) "string literal"]
  | value => d.add (value.code d.next)

mutual

/-- Adds the code of an expression. -/
def addExpr (d : Draft) : Expr → Draft
  | .literal value _ => d.addLiteral value
  | .var name _ => d.add [.noted (.mov Register.eax (.memory name)) ("load variable " ++ name)]
  | .unary op operand _ => (d.addExpr operand).add op.code
  | .binary op left right _ =>
    let d := (d.addExpr left).add [.noted (.push .eax) "save left operand"]
    let d := (d.addExpr right).add
      [.noted (.mov Register.ebx Register.eax) "right operand in ebx",
        .noted (.pop .eax) "left operand in eax"]
    d.add op.code
  | .call callee arguments _ =>
    match callee.name? with
    | none => d
    | some name =>
      let d := (d.add [.comment ("Function call: " ++ name)]).addArguments 0 arguments
      (d.add [.plain (.call name)]).add (Expr.cleanup arguments.length)
  | .assign name value _ =>
    (d.addExpr value).add [.noted (.mov (.memory name) Register.eax) ("assign to " ++ name)]

/-- Adds the code that pushes arguments, from the last to the first, which has the number
`index`. -/
def addArguments (d : Draft) (index : Nat) : List Expr → Draft
  | [] => d
  | e :: es =>
    ((d.addArguments (index + 1) es).addExpr e).add
      [.noted (.push .eax) ("push argument " ++ toString index)]

end

/-- Adds the code of an expression that may be absent, and lines behind it if it is there. -/
def addOptional (d : Draft) (lines : Listing) : Option Expr → Draft
  | none => d
  | some e => (d.addExpr e).add lines

/-- Adds the code that makes the value to give back. -/
def addGiveBack (d : Draft) : Option Expr → Draft
  | none => d.add [.noted (.mov Register.eax (.immediate 0)) "default return value"]
  | some e => d.addExpr e

mutual

/-- Adds the code of a statement. -/
def addStmt (d : Draft) : Stmt → Draft
  | .expr e => d.addExpr e
  | .print e _ => ((d.add [.comment "Print statement"]).addExpr e).add Stmt.printCode
  | .giveBack value _ => ((d.add [.comment "Return statement"]).addGiveBack value).add epilogue
  | .variableDecl _ name initial _ =>
    (d.add [.comment ("Variable declaration: " ++ name)]).addOptional
      [.noted (.mov (.memory name) Register.eax) "store initial value"] initial
  | .block body _ =>
    ((d.add [.comment "Block start"]).addStmts body).add [.comment "Block end"]
  | .branch condition yes no _ =>
    let (otherwise, d) := d.newLabel "else"
    let (done, d) := d.newLabel "endif"
    let d := (d.add [.comment "If statement"]).addExpr condition
    let d := (d.add (jumpIfZero otherwise)).addStmt yes
    let d := (d.add [.plain (.jmp done), .label otherwise]).addOption no
    d.add [.label done]
  | .whileLoop condition body _ =>
    let (again, d) := d.newLabel "loop"
    let (done, d) := d.newLabel "endloop"
    let d := (d.add [.comment "While loop", .label again]).addExpr condition
    let d := (d.add (jumpIfZero done)).addStmt body
    d.add [.plain (.jmp again), .label done]
  | .forLoop initial condition increment body _ =>
    let (again, d) := d.newLabel "forloop"
    let (done, d) := d.newLabel "endfor"
    let d := (d.add [.comment "For loop"]).addOption initial
    let d := (d.add [.label again]).addOptional (jumpIfZero done) condition
    let d := (d.addStmt body).addOptional [] increment
    d.add [.plain (.jmp again), .label done]
  | .functionDecl _ name _ body _ _ =>
    let d := (d.add [.blank, .entry name]).add prologue
    (((d.add [.comment "Block start"]).addStmts body).add [.comment "Block end"]).add epilogue

/-- Adds the code of statements one after the other. -/
def addStmts (d : Draft) : List Stmt → Draft
  | [] => d
  | s :: rest => (d.addStmt s).addStmts rest

/-- Adds the code of a statement that may be absent. -/
def addOption (d : Draft) : Option Stmt → Draft
  | none => d
  | some s => d.addStmt s

end

/-- Adds the listing of a program. -/
def addProgram (d : Draft) (p : Program) : Draft :=
  ((d.add Program.header).addStmts p.statements).add Program.footer

/-- The text of the lines. -/
def text (d : Draft) : String := d.lines.text

end Draft

end StackListing
