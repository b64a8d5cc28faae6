import StackListing.Expr

/-!
# Statements and programs

Statements with the place that complaints about them are charged to: the declared name, the keyword,
or the opening brace.  A block is printed with its statements indented by two spaces; the further
lines of a statement are not indented again.
-/

namespace StackListing

/-- A parameter of a function. -/
structure Parameter where
  type : ValueType
  name : String
  position : Position
deriving DecidableEq

/-- A statement. -/
inductive Stmt where
  | expr (value : Expr)
  | variableDecl (type : ValueType) (name : String) (initial : Option Expr) (position : Position)
  | block (body : List Stmt) (position : Position)
  | branch (condition : Expr) (thenBranch : Stmt) (elseBranch : Option Stmt) (position : Position)
  | whileLoop (condition : Expr) (body : Stmt) (position : Position)
  | forLoop (initial : Option Stmt) (condition increment : Option Expr) (body : Stmt)
      (position : Position)
  | giveBack (value : Option Expr) (position : Position)
  | functionDecl (result : ValueType) (name : String) (parameters : List Parameter)
      (body : List Stmt) (bodyPosition position : Position)
  | print (value : Expr) (position : Position)

/-- The statements of a source text. -/
structure Program where
  statements : List Stmt

/-- A parameter as a program writes it. -/
def Parameter.text (p : Parameter) : String := p.type.name ++ " " ++ p.name

namespace Stmt

/-- The place that complaints about the statement are charged to. -/
def position : Stmt → Position
  | expr e => e.position
  | variableDecl _ _ _ p => p
  | block _ p => p
  | branch _ _ _ p => p
  | whileLoop _ _ p => p
  | forLoop _ _ _ _ p => p
  | giveBack _ p => p
  | functionDecl _ _ _ _ _ p => p
  | print _ p => p

/-- The initial value of a declaration. -/
def valueText : Option Expr → String
  | none => ""
  | some e => " = " ++ e.text

/-- An expression that may be absent. -/
def optionText (e : Option Expr) : String := (e.map Expr.text).getD ""

mutual

/-- The statement as a program writes it. -/
def text : Stmt → String
  | expr e => e.text ++ ";"
  | variableDecl type name initial _ => type.name ++ " " ++ name ++ valueText initial ++ ";"
  | block body _ => "\x7b\n" ++ linesText body ++ "\x7d"
  | branch c yes no _ => "if (" ++ c.text ++ ") " ++ yes.text ++ elseText no
  | whileLoop c body _ => "while (" ++ c.text ++ ") " ++ body.text
  | forLoop initial c i body _ =>
    "for (" ++ initialText initial ++ optionText c ++ "; " ++ optionText i ++ ") " ++ body.text
  | giveBack none _ => "return;"
  | giveBack (some e) _ => "return " ++ e.text ++ ";"
  | functionDecl result name parameters body _ _ =>
    result.name ++ " " ++ name ++ "(" ++ ", ".intercalate (parameters.map (·.text)) ++ ") " ++
      "\x7b\n" ++ linesText body ++ "\x7d"
  | print e _ => "print(" ++ e.text ++ ");"

/-- The statements of a block, each on a line of its own. -/
def linesText : List Stmt → String
  | [] => ""
  | s :: rest => "  " ++ s.text ++ "\n" ++ linesText rest

/-- The alternative of a branch. -/
def elseText : Option Stmt → String
  | none => ""
  | some s => " else " ++ s.text

/-- The first part of a loop header with its semicolon. -/
def initialText : Option Stmt → String
  | none => "; "
  | some s => s.text ++ " "

end

end Stmt

namespace Program

/-- The program as text, each statement followed by a newline. -/
def text (p : Program) : String := String.join (p.statements.map (·.text ++ "\n"))

/-- The names of the functions declared at the top level, in order. -/
def functions (p : Program) : List String :=
  p.statements.filterMap fun
    | .functionDecl _ name _ _ _ _ => some name
    | _ => none

end Program

end StackListing
