import StackListing.Token

/-!
# The grammar table

Statements and expressions are read by what the current token can begin or join.  The table says,
for each kind of token, which form of statement it begins, which form of operand it begins, and
with what power and in which form it joins the operand on its left to what follows.
-/

namespace StackListing

/-- How strongly an operator holds its operands, from the weakest on. -/
inductive Power where
  | lowest
  | assignment
  | logicalOr
  | logicalAnd
  | equality
  | relational
  | additive
  | multiplicative
  | unary
  | call
  | primary
deriving DecidableEq

namespace Power

/-- The place of a power in the order. -/
def rank : Power → Nat
  | lowest => 0
  | assignment => 1
  | logicalOr => 2
  | logicalAnd => 3
  | equality => 4
  | relational => 5
  | additive => 6
  | multiplicative => 7
  | unary => 8
  | call => 9
  | primary => 10

instance : LT Power := ⟨fun p q => p.rank < q.rank⟩

instance (p q : Power) : Decidable (p < q) := inferInstanceAs (Decidable (p.rank < q.rank))

end Power

/-- The forms of statements other than expression statements. -/
inductive StatementForm where
  | declaration
  | branch
  | whileLoop
  | forLoop
  | giveBack
  | print
  | block
deriving DecidableEq

/-- The forms of operands. -/
inductive OperandForm where
  | primary
  | unary
  | grouping
deriving DecidableEq

/-- The ways in which a token joins an operand to what follows. -/
inductive OperatorForm where
  | binary
  | assignment
  | call
deriving DecidableEq

/-- What each kind of token begins or joins. -/
structure Grammar where
  statement? : Kind → Option StatementForm
  operand? : Kind → Option OperandForm
  operator? : Kind → Option (Power × OperatorForm)

namespace Grammar

/-- The table of the language. -/
def standard : Grammar where
  statement?
    | .intWord | .floatWord | .boolWord | .stringWord => some .declaration
    | .ifWord => some .branch
    | .whileWord => some .whileLoop
    | .forWord => some .forLoop
    | .returnWord => some .giveBack
    | .printWord => some .print
    | .openCurly => some .block
    | _ => none
  operand?
    | .integerLiteral | .floatLiteral | .stringLiteral | .trueWord | .falseWord | .identifier =>
      some .primary
    | .dash | .bang => some .unary
    | .openParen => some .grouping
    | _ => none
  operator?
    | .assign => some (.assignment, .assignment)
    | .barBar => some (.logicalOr, .binary)
    | .ampAmp => some (.logicalAnd, .binary)
    | .equal | .notEqual => some (.equality, .binary)
    | .less | .lessEqual | .greater | .greaterEqual => some (.relational, .binary)
    | .plus | .dash => some (.additive, .binary)
    | .star | .slash | .percent => some (.multiplicative, .binary)
    | .openParen => some (.call, .call)
    | _ => none

/-- The table in which no token begins or joins anything. -/
def empty : Grammar := ⟨fun _ => none, fun _ => none, fun _ => none⟩

/-- The power of a kind of token as an operator; it is the lowest for other tokens. -/
def power (g : Grammar) (k : Kind) : Power := ((g.operator? k).map (·.1)).getD .lowest

end Grammar

end StackListing
