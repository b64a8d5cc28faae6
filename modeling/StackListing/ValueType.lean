/-!
# Value types

The language has four types.  An integer may stand where a float is expected; there is no other
conversion.
-/

namespace StackListing

/-- The types of values. -/
inductive ValueType where
  | int
  | float
  | bool
  | string
deriving DecidableEq

namespace ValueType

/-- The keyword that names the type. -/
def name : ValueType → String
  | int => "int"
  | float => "float"
  | bool => "bool"
  | string => "string"

/-- Every value type. -/
def all : List ValueType := [int, float, bool, string]

/-- Whether values of the type can be calculated with. -/
def isNumeric : ValueType → Bool
  | int | float => true
  | bool | string => false

/-- Whether a value of type `actual` may be stored where `expected` is declared: the types are the
same, or an integer widens to a float. -/
def accepts (expected actual : ValueType) : Bool :=
  expected = actual || (expected = float && actual = int)

/-- The type of an arithmetic result: a float as soon as one operand is one. -/
def promote (left right : ValueType) : ValueType :=
  if left = float || right = float then float else int

theorem mem_all (t : ValueType) : t ∈ all := by cases t <;> decide

@[simp] theorem accepts_self (t : ValueType) : t.accepts t = true := by simp [accepts]

theorem accepts_iff {s t : ValueType} :
    s.accepts t = true ↔ s = t ∨ (s = float ∧ t = int) := by
  simp [accepts]

theorem promote_comm (s t : ValueType) : promote s t = promote t s := by
  simp [promote, Bool.or_comm]

end ValueType

end StackListing
