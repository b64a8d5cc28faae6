import Mathlib.Data.Finmap
import StackListing.Proofs.Symbols.Arena

/-!
# Symbol tables are stacks of finite maps

A stack of finite maps from names to symbols is what a symbol table stands for: `SymbolTable.stack`
reads it off, the innermost scope first.  The operations of tables do to it what the operations of
stacks do (`Arena.apply`), and a look-up finds what a search through the stack finds.  Between the
opening of a scope and its closing nothing can happen that the closing does not undo
(`Balanced.grows`).
-/

namespace StackListing

/-! ### Stacks of finite maps -/

/-- The symbols of one scope under their names. -/
abbrev Bindings := Finmap fun _ : String => Symbol

/-- **Scopes as finite maps,** the innermost first. -/
abbrev ScopeStack := List Bindings

namespace ScopeStack

/-- A single scope with nothing in it. -/
def start : ScopeStack := [∅]

/-- The stack with a new innermost map. -/
def push (σ : ScopeStack) : ScopeStack := ∅ :: σ

/-- The stack without its innermost map; the last map stays. -/
def pop : ScopeStack → ScopeStack
  | _ :: m :: σ => m :: σ
  | σ => σ

/-- The innermost map has the name. -/
def Holds (σ : ScopeStack) (name : String) : Prop := ∃ m ∈ σ.head?, name ∈ m

instance decidableHolds (σ : ScopeStack) (name : String) : Decidable (σ.Holds name) := by
  unfold Holds; infer_instance

/-- The stack with an entry in its innermost map. -/
def add (name : String) (s : Symbol) : ScopeStack → ScopeStack
  | m :: σ => m.insert name s :: σ
  | [] => []

/-- The stack with a new name in its innermost map; a name that it holds is left as it is. -/
def declare (σ : ScopeStack) (name : String) (type : ValueType) (role : Role) : ScopeStack :=
  if σ.Holds name then σ else σ.add name ⟨name, type, role, σ.length - 1⟩

/-- The symbol of a name in the first map that has one. -/
def find? (σ : ScopeStack) (name : String) : Option Symbol := σ.findSome? (·.lookup name)

end ScopeStack

/-! ### What a table stands for -/

namespace SymbolTable

variable {t : SymbolTable} {name : String} {type : ValueType} {role : Role} {position : Position}

/-- The symbols of a scope as a finite map. -/
def Frame.bindings (f : Frame) : Bindings :=
  (f.symbols.map fun e => (⟨e.1, e.2⟩ : Σ _ : String, Symbol)).toFinmap

/-- **The stack that a table stands for.** -/
def stack (t : SymbolTable) : ScopeStack := t.frames.reverse.map Frame.bindings

theorem Frame.lookup_bindings (f : Frame) (name : String) :
    f.bindings.lookup name = f.find? name := by
  unfold bindings find?
  rw [Finmap.dlookup_list_toFinmap]
  induction f.symbols with
  | nil => rfl
  | cons e es ih =>
    obtain ⟨key, s⟩ := e
    rw [List.map_cons, List.lookup_cons]
    by_cases h : name = key
    · subst h
      simp
    · rw [List.dlookup_cons_ne _ _ h, ih, beq_false_of_ne h]

theorem Frame.bindings_insert (f : Frame) (name : String) (s : Symbol) :
    (f.insert name s).bindings = f.bindings.insert name s :=
  Finmap.toFinmap_cons _ _ _

theorem stack_concat {outside : List Frame} {f : Frame} {current : Nat} :
    (mk (outside ++ [f]) current).stack = f.bindings :: outside.reverse.map Frame.bindings := by
  simp [stack]

theorem Arena.length_stack (h : t.Arena) : t.stack.length = t.level + 1 := by
  rw [stack, List.length_map, List.length_reverse, ← h.current, ← h.frame_stands.level]
  rfl

/-- **A look-up searches the stack,** from the innermost map on. -/
theorem Arena.lookup?_eq_find? (h : t.Arena) (name : String) :
    t.lookup? name = t.stack.find? name := by
  rw [h.lookup?_eq, ScopeStack.find?, stack, List.findSome?_map]
  simp only [Function.comp_def, Frame.lookup_bindings]

theorem Arena.holds_iff (h : t.Arena) : t.stack.Holds name ↔ t.definedHere name = true := by
  obtain ⟨outside, f, rfl, -⟩ := h.exists_concat
  rw [definedHere, frame_concat, stack_concat, ← Frame.lookup_bindings, Finmap.lookup_isSome]
  simp [ScopeStack.Holds]

/-! ### The operations -/

theorem stack_enter (t : SymbolTable) : t.enter.stack = t.stack.push := stack_concat

/-- Closing a scope removes the innermost map and nothing else. -/
theorem Arena.stack_leave (h : t.Arena) : t.leave.stack = t.stack.pop := by
  obtain ⟨outside, f, rfl, hf⟩ := h.exists_concat
  rcases List.eq_nil_or_concat' outside with rfl | ⟨outside, g, rfl⟩
  · rw [leave_global (by rw [frame_concat]; exact hf.parent)]
    rfl
  · have hparent : f.parent = some outside.length := by rw [hf.parent, List.length_append]; rfl
    rw [leave_concat hparent, stack_concat, stack_concat, List.reverse_append]
    rfl

theorem Arena.stack_insert (h : t.Arena) : (t.insert name type role).stack =
    t.stack.add name ⟨name, type, role, t.level⟩ := by
  obtain ⟨outside, f, rfl, -⟩ := h.exists_concat
  rw [insert_concat, stack_concat, stack_concat, Frame.bindings_insert, level, frame_concat]
  rfl

theorem Arena.leave_of_level_zero (h : t.Arena) (hlevel : t.level = 0) : t.leave = t := by
  have hparent := h.frame_stands.parent
  rw [← h.frame_stands.level, show t.frame.level = 0 from hlevel] at hparent
  exact leave_global hparent

/-- **A name is declared unless the innermost map holds it.** -/
theorem Arena.declare_eq (h : t.Arena) : t.declare name type role position =
    if t.stack.Holds name then .error (redeclared role name position)
    else .ok (t.insert name type role) := by
  simp only [SymbolTable.declare, h.holds_iff]

/-- Adding a name to the current scope changes what is found for this name only. -/
theorem Arena.lookup?_insert (h : t.Arena) (other : String) :
    (t.insert name type role).lookup? other =
      if other = name then some ⟨name, type, role, t.level⟩ else t.lookup? other := by
  have harena : (t.insert name type role).Arena := h.insert
  rw [harena.lookup?_eq_find?, h.lookup?_eq_find?, h.stack_insert]
  obtain ⟨outside, f, rfl, -⟩ := h.exists_concat
  rw [stack_concat, ScopeStack.add, ScopeStack.find?, ScopeStack.find?, List.findSome?_cons,
    List.findSome?_cons]
  split_ifs with hname
  · rw [hname, Finmap.lookup_insert]
  · rw [Finmap.lookup_insert_of_ne _ hname]

end SymbolTable

/-! ### Sequences of operations -/

/-- What can be done to a symbol table. -/
inductive Action where
  | enter
  | leave
  | declare (name : String) (type : ValueType) (role : Role) (position : Position)

namespace SymbolTable

/-- The table after an action; a declaration that fails leaves it as it is. -/
def apply (t : SymbolTable) : Action → SymbolTable
  | .enter => t.enter
  | .leave => t.leave
  | .declare name type role position =>
    match t.declare name type role position with
    | .ok t' => t'
    | .error _ => t

/-- **The table after a sequence of actions** on the empty table. -/
def after (actions : List Action) : SymbolTable := actions.foldl apply empty

end SymbolTable

namespace ScopeStack

/-- The stack after an action. -/
def apply (σ : ScopeStack) : Action → ScopeStack
  | .enter => σ.push
  | .leave => σ.pop
  | .declare name type role _ => σ.declare name type role

/-- The stack after a sequence of actions. -/
def after (actions : List Action) : ScopeStack := actions.foldl apply start

end ScopeStack

/-- **Actions inside one scope:** every scope that they open they close again, and they close no
other. -/
inductive Balanced : List Action → Prop
  | nil : Balanced []
  | declare (name : String) (type : ValueType) (role : Role) (position : Position)
      {rest : List Action} (hr : Balanced rest) :
      Balanced (.declare name type role position :: rest)
  | scope {inner rest : List Action} (hi : Balanced inner) (hr : Balanced rest) :
      Balanced (.enter :: (inner ++ .leave :: rest))

namespace SymbolTable

variable {t : SymbolTable} {name : String} {type : ValueType} {role : Role} {position : Position}

theorem Arena.apply_declare (h : t.Arena) : t.apply (.declare name type role position) =
    if t.stack.Holds name then t else t.insert name type role := by
  rw [apply, h.declare_eq]
  split_ifs <;> rfl

/-- One action keeps the shape of the table and does to the stack what it should. -/
theorem Arena.apply (h : t.Arena) (a : Action) :
    (t.apply a).Arena ∧ (t.apply a).stack = t.stack.apply a := by
  cases a with
  | enter => exact ⟨h.enter, stack_enter t⟩
  | leave => exact ⟨h.leave, h.stack_leave⟩
  | declare name type role position =>
    have hlevel : t.stack.length - 1 = t.level := by rw [h.length_stack, Nat.add_sub_cancel]
    rw [h.apply_declare, ScopeStack.apply, ScopeStack.declare, hlevel]
    split_ifs
    · exact ⟨h, rfl⟩
    · exact ⟨h.insert, h.stack_insert⟩

theorem Arena.foldl (h : t.Arena) (actions : List Action) :
    (actions.foldl SymbolTable.apply t).Arena ∧
      (actions.foldl SymbolTable.apply t).stack = actions.foldl ScopeStack.apply t.stack := by
  induction actions generalizing t with
  | nil => exact ⟨h, rfl⟩
  | cons a rest ih =>
    obtain ⟨harena, hstack⟩ := h.apply a
    rw [List.foldl_cons, List.foldl_cons, ← hstack]
    exact ih harena

theorem arena_after (actions : List Action) : (after actions).Arena :=
  (arena_empty.foldl actions).1

theorem grows_declare (t : SymbolTable) (name : String) (type : ValueType) (role : Role)
    (position : Position) : t.Grows (t.apply (.declare name type role position)) := by
  simp only [apply, declare]
  by_cases h : t.definedHere name = true
  · rw [if_pos h]
    exact .refl t
  · rw [if_neg h]
    exact .insert (Bool.eq_false_of_not_eq_true h)

end SymbolTable

/-- **Actions inside one scope add names to it and do nothing else.** -/
theorem Balanced.grows {actions : List Action} (h : Balanced actions) :
    ∀ t : SymbolTable, t.Grows (actions.foldl SymbolTable.apply t) := by
  induction h with
  | nil => exact .refl
  | declare name type role position hr ih =>
    intro t
    exact (t.grows_declare name type role position).trans (ih _)
  | @scope inner rest hi hr ihi ihr =>
    intro t
    have hinner : (inner.foldl SymbolTable.apply t.enter).leave = t := (ihi t.enter).leave
    rw [List.foldl_cons, List.foldl_append, List.foldl_cons]
    show t.Grows (rest.foldl SymbolTable.apply (inner.foldl SymbolTable.apply t.enter).leave)
    rw [hinner]
    exact ihr t

/-- A scope that is opened, used and closed leaves the table as it was. -/
theorem Balanced.restores {inner : List Action} (h : Balanced inner) (t : SymbolTable) :
    (Action.enter :: (inner ++ [.leave])).foldl SymbolTable.apply t = t := by
  rw [List.foldl_cons, List.foldl_append, List.foldl_cons, List.foldl_nil]
  exact (h.grows t.enter).leave

namespace SymbolTable

/-- **Symbol tables refine stacks of finite maps.**  After any sequence of actions the table has its
shape, stands for the stack after the same actions, and looks names up as the stack does, by a walk
that ends.  Closing a scope removes the innermost map if another is left, and else does nothing.  A
declaration fails exactly if the innermost map holds the name, and then leaves the table as it is;
otherwise it adds the one entry and changes no other look-up.  A scope that is opened, used and
closed again leaves no trace. -/
theorem after_refines_stack (actions : List Action) :
    let t := after actions
    t.Arena ∧ t.stack = ScopeStack.after actions ∧
    (∀ name, Walk t.frames name (some t.current) (t.lookup? name) ∧
      t.lookup? name = t.stack.find? name) ∧
    t.leave.stack = t.stack.pop ∧ (t.level = 0 → t.leave = t) ∧
    (∀ name type role position,
      if t.stack.Holds name then
        t.declare name type role position = .error (redeclared role name position) ∧
          t.apply (.declare name type role position) = t
      else
        ∃ t', t.declare name type role position = .ok t' ∧
          t.apply (.declare name type role position) = t' ∧
          t'.stack = t.stack.add name ⟨name, type, role, t.level⟩ ∧
          t'.lookup? name = some ⟨name, type, role, t.level⟩ ∧
          ∀ other, other ≠ name → t'.lookup? other = t.lookup? other) ∧
    ∀ inner, Balanced inner → (Action.enter :: (inner ++ [.leave])).foldl apply t = t := by
  intro t
  have h : t.Arena := arena_after actions
  refine ⟨h, (arena_empty.foldl actions).2, fun name => ⟨h.walk name, h.lookup?_eq_find? name⟩,
    h.stack_leave, h.leave_of_level_zero, fun name type role position => ?_,
    fun inner hinner => hinner.restores t⟩
  rw [h.apply_declare, h.declare_eq]
  by_cases hname : t.stack.Holds name
  · rw [if_pos hname, if_pos hname, if_pos hname]
    exact ⟨rfl, rfl⟩
  · rw [if_neg hname, if_neg hname, if_neg hname]
    refine ⟨_, rfl, rfl, h.stack_insert, ?_, fun other hother => ?_⟩
    · rw [h.lookup?_insert, if_pos rfl]
    · rw [h.lookup?_insert, if_neg hother]

/-- A variable that a parameter of the same name shadows. -/
def shadowing : List Action :=
  [.declare "x" .int .var ⟨1, 5⟩, .enter, .declare "x" .bool .parameter ⟨2, 9⟩]

theorem after_refines_stack_shadowing :
    (after shadowing).lookup? "x" = some ⟨"x", .bool, .parameter, 1⟩ ∧
      (after shadowing).lookup? "x" = (after shadowing).stack.find? "x" ∧
      Balanced [.declare "y" .int .var ⟨3, 7⟩, .enter, .leave] ∧
      (Action.enter :: ([.declare "y" .int .var ⟨3, 7⟩, .enter, .leave] ++ [.leave])).foldl apply
        (after shadowing) = after shadowing := by
  have hnil : Balanced [] := .nil
  have hbalanced : Balanced [.declare "y" .int .var ⟨3, 7⟩, .enter, .leave] :=
    .declare _ _ _ _ (.scope hnil hnil)
  obtain ⟨-, -, hlookup, -, -, -, hrestores⟩ := after_refines_stack shadowing
  exact ⟨by decide, (hlookup "x").2, hbalanced, hrestores _ hbalanced⟩

end SymbolTable

end StackListing
