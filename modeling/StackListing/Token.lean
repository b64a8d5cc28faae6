import StackListing.Position
import StackListing.ValueType

/-!
# Tokens

A token is a word of the language with its text and the place where it begins.  The keywords are the
entries of one table, `Kind.keywords`; every other word that begins with a letter is an identifier.
-/

namespace StackListing

/-- The kinds of words. -/
inductive Kind where
  | endOfInput
  | newline
  | integerLiteral
  | floatLiteral
  | stringLiteral
  | identifier
  | openBracket
  | closeBracket
  | openCurly
  | closeCurly
  | openParen
  | closeParen
  | assign
  | equal
  | bang
  | notEqual
  | less
  | lessEqual
  | greater
  | greaterEqual
  | barBar
  | ampAmp
  | semicolon
  | comma
  | plus
  | dash
  | slash
  | star
  | percent
  | intWord
  | floatWord
  | boolWord
  | stringWord
  | ifWord
  | elseWord
  | whileWord
  | forWord
  | functionWord
  | returnWord
  | trueWord
  | falseWord
  | printWord
deriving DecidableEq

namespace Kind

/-- The name under which a kind is shown. -/
def name : Kind → String
  | endOfInput => "EOF"
  | newline => "Newline"
  | integerLiteral => "IntegerLiteral"
  | floatLiteral => "FloatLiteral"
  | stringLiteral => "StringLiteral"
  | identifier => "Identifier"
  | openBracket => "OpenBracket"
  | closeBracket => "CloseBracket"
  | openCurly => "OpenCurly"
  | closeCurly => "CloseCurly"
  | openParen => "OpenParen"
  | closeParen => "CloseParen"
  | assign => "Assignment"
  | equal => "Equals"
  | bang => "Not"
  | notEqual => "NotEquals"
  | less => "Less"
  | lessEqual => "LessEquals"
  | greater => "Greater"
  | greaterEqual => "GreaterEquals"
  | barBar => "Or"
  | ampAmp => "And"
  | semicolon => "Semicolon"
  | comma => "Comma"
  | plus => "Plus"
  | dash => "Dash"
  | slash => "Slash"
  | star => "Star"
  | percent => "Percent"
  | intWord => "Int"
  | floatWord => "Float"
  | boolWord => "Bool"
  | stringWord => "String"
  | ifWord => "If"
  | elseWord => "Else"
  | whileWord => "While"
  | forWord => "For"
  | functionWord => "Function"
  | returnWord => "Return"
  | trueWord => "True"
  | falseWord => "False"
  | printWord => "Print"

/-- Every kind. -/
def all : List Kind :=
  [endOfInput, newline, integerLiteral, floatLiteral, stringLiteral, identifier, openBracket,
    closeBracket, openCurly, closeCurly, openParen, closeParen, assign, equal, bang, notEqual, less,
    lessEqual, greater, greaterEqual, barBar, ampAmp, semicolon, comma, plus, dash, slash, star,
    percent, intWord, floatWord, boolWord, stringWord, ifWord, elseWord, whileWord, forWord,
    functionWord, returnWord, trueWord, falseWord, printWord]

theorem mem_all (k : Kind) : k ∈ all := by cases k <;> decide

/-- The reserved words and the kinds they have. -/
def keywords : List (String × Kind) :=
  [("int", intWord), ("float", floatWord), ("bool", boolWord), ("string", stringWord),
    ("if", ifWord), ("else", elseWord), ("while", whileWord), ("for", forWord),
    ("function", functionWord), ("return", returnWord), ("true", trueWord), ("false", falseWord),
    ("print", printWord)]

/-- The kind of a reserved word. -/
def ofKeyword? (word : String) : Option Kind := keywords.lookup word

/-- The kind of a word: that of the keyword it is, else an identifier. -/
def ofWord (word : String) : Kind := (ofKeyword? word).getD identifier

/-- The type that a type keyword names. -/
def type? : Kind → Option ValueType
  | intWord => some .int
  | floatWord => some .float
  | boolWord => some .bool
  | stringWord => some .string
  | _ => none

/-- Whether the kind is that of a type keyword. -/
def isType (k : Kind) : Bool := k.type?.isSome

end Kind

/-- A word of the language: its kind, its text and the place where it begins.  The text of a string
literal is what stands between its quotes. -/
structure Token where
  kind : Kind
  value : String
  position : Position
deriving DecidableEq

namespace Token

/-- The token as one line of a token listing. -/
def text (t : Token) : String :=
  "Token\x7btype=" ++ t.kind.name ++ ", value='" ++ t.value ++ "', line=" ++
    toString t.position.line ++ ", column=" ++ toString t.position.column ++ "\x7d"

/-- How a complaint refers to the token. -/
def describe (t : Token) : String :=
  match t.kind with
  | .endOfInput => "end of input"
  | .newline => "newline"
  | .stringLiteral => "\"" ++ t.value ++ "\""
  | _ => t.value

end Token

end StackListing
