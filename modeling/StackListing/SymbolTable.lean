import StackListing.Diagnostic
import StackListing.ValueType

/-!
# Symbol tables

A symbol table holds the declared names that are visible at a point of a program.  It is a list of
scopes, the innermost last.  Each scope holds its symbols by name, the place of the scope around it
and its level; the global scope has level zero and no scope around it.  Opening a scope puts a new
one behind the last, closing it drops it with its symbols, and a name is looked for in the current
scope first and then in the scopes around it, from place to place.
-/

namespace StackListing

/-- What a declared name stands for. -/
inductive Role where
  | var
  | parameter
  | function
deriving DecidableEq

/-- The name under which a role is shown. -/
def Role.name : Role → String
  | var => "Variable"
  | parameter => "Parameter"
  | function => "Function"

/-- A declared name; the type of a function is the type of its result. -/
structure Symbol where
  name : String
  type : ValueType
  role : Role
  level : Nat
deriving DecidableEq

/-- One scope of a symbol table. -/
structure SymbolTable.Frame where
  /-- The symbols under their names, the latest first. -/
  symbols : List (String × Symbol)
  /-- The place of the scope around it. -/
  parent : Option Nat
  level : Nat
deriving DecidableEq

/-- The open scopes, the innermost last, and the place of the current one. -/
structure SymbolTable where
  frames : List SymbolTable.Frame
  current : Nat
deriving DecidableEq

namespace SymbolTable

namespace Frame

/-- The symbol that the scope itself has under a name. -/
def find? (f : Frame) (name : String) : Option Symbol := f.symbols.lookup name

/-- The scope with a symbol put under a name. -/
def insert (f : Frame) (name : String) (s : Symbol) : Frame :=
  { f with symbols := (name, s) :: f.symbols }

end Frame

/-- The table with nothing declared, in the global scope. -/
def empty : SymbolTable := ⟨[⟨[], none, 0⟩], 0⟩

/-- The current scope. -/
def frame (t : SymbolTable) : Frame := t.frames[t.current]?.getD ⟨[], none, 0⟩

/-- The level of the current scope. -/
def level (t : SymbolTable) : Nat := t.frame.level

/-- Opens a scope. -/
def enter (t : SymbolTable) : SymbolTable :=
  ⟨t.frames ++ [⟨[], some t.current, t.level + 1⟩], t.frames.length⟩

/-- Closes the current scope; the global scope stays. -/
def leave (t : SymbolTable) : SymbolTable :=
  match t.frame.parent with
  | none => t
  | some parent => ⟨t.frames.take t.current, parent⟩

/-- The symbol of a name in the scope at a place, or else in the scopes around it.  At most `n`
scopes are looked at. -/
def search (frames : List Frame) (name : String) : Nat → Option Nat → Option Symbol
  | 0, _ => none
  | _ + 1, none => none
  | n + 1, some place =>
    match frames[place]? with
    | none => none
    | some f =>
      match f.find? name with
      | some s => some s
      | none => search frames name n f.parent

/-- The innermost symbol of a name. -/
def lookup? (t : SymbolTable) (name : String) : Option Symbol :=
  search t.frames name t.frames.length (some t.current)

/-- Whether the current scope itself has the name. -/
def definedHere (t : SymbolTable) (name : String) : Bool := (t.frame.find? name).isSome

/-- The complaint about a name that the current scope has already. -/
def redeclared (role : Role) (name : String) (position : Position) : Diagnostic :=
  ⟨.alreadyDeclared role.name name, position⟩

/-- Adds a symbol to the current scope. -/
def insert (t : SymbolTable) (name : String) (type : ValueType) (role : Role) : SymbolTable :=
  { t with frames := t.frames.modify t.current (·.insert name ⟨name, type, role, t.level⟩) }

/-- **Declares a name in the current scope,** which must not have it yet. -/
def declare (t : SymbolTable) (name : String) (type : ValueType) (role : Role)
    (position : Position) : Except Diagnostic SymbolTable :=
  if t.definedHere name then .error (redeclared role name position)
  else .ok (t.insert name type role)

end SymbolTable

end StackListing
