import StackListing.Number.Shortest
import StackListing.ValueType

/-!
# Literals

A literal is a constant as a program writes it.
-/

namespace StackListing

/-- A constant. -/
inductive Literal where
  | integer (value : Int)
  | float (value : Binary64)
  | string (value : String)
  | boolean (value : Bool)
deriving DecidableEq

namespace Literal

/-- The type of a constant. -/
def type : Literal → ValueType
  | integer _ => .int
  | float _ => .float
  | string _ => .string
  | boolean _ => .bool

/-- The constant as a program writes it. -/
def text : Literal → String
  | integer n => toString n
  | float x => x.text
  | string s => "\"" ++ s ++ "\""
  | boolean b => if b then "true" else "false"

end Literal

end StackListing
