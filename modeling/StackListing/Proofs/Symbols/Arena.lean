import Mathlib.Tactic.Common
import StackListing.SymbolTable

/-!
# The shape of symbol tables

Scopes are opened and closed in the order of a stack, so a table keeps a simple shape: the current
scope is the last one, the scope at place `i` has level `i` and the scope at place `i - 1` around
it, and every symbol stands under its own name with the level of its scope.  `Arena` is this shape;
the operations of a table keep it.  In a table of this shape the walk from scope to scope is a
search through the scopes from the last to the first (`Arena.lookup?_eq`), and it ends by itself
(`Arena.walk`): the bound on its length plays no part.

What happens between the opening and the closing of a scope adds names to that scope only (`Grows`),
so that closing it gives back the table from before (`Grows.leave`).
-/

namespace StackListing.SymbolTable

variable {t : SymbolTable} {name : String} {type : ValueType} {role : Role}

/-- The place of the scope around the one at a place: there is none around the first. -/
def outer : Nat → Option Nat
  | 0 => none
  | i + 1 => some i

/-- The scope is as a scope at place `i` should be. -/
structure Frame.StandsAt (f : Frame) (i : Nat) : Prop where
  level : f.level = i
  parent : f.parent = outer i
  symbols : ∀ e ∈ f.symbols, e.2.name = e.1 ∧ e.2.level = i

/-- **The shape of a symbol table.** -/
structure Arena (t : SymbolTable) : Prop where
  current : t.current + 1 = t.frames.length
  stands : ∀ (i : Nat) (f : Frame), t.frames[i]? = some f → f.StandsAt i

/-! ### The current scope -/

theorem Arena.current_lt (h : t.Arena) : t.current < t.frames.length := by
  rw [← h.current]
  exact Nat.lt_succ_self _

theorem Arena.frames_current (h : t.Arena) : t.frames[t.current]? = some t.frame := by
  simp only [frame, List.getElem?_eq_getElem h.current_lt, Option.getD_some]

theorem Arena.frame_stands (h : t.Arena) : t.frame.StandsAt t.current :=
  h.stands _ _ h.frames_current

/-- The current scope stands behind all others. -/
theorem Arena.exists_concat (h : t.Arena) : ∃ (outside : List Frame) (f : Frame),
    t = ⟨outside ++ [f], outside.length⟩ ∧ f.StandsAt outside.length := by
  have hlt := h.current_lt
  have hlen : (t.frames.take t.current).length = t.current :=
    List.length_take_of_le (Nat.le_of_lt hlt)
  have hget : t.frames[t.current] = t.frame :=
    Option.some.inj ((List.getElem?_eq_getElem hlt).symm.trans h.frames_current)
  refine ⟨t.frames.take t.current, t.frame, ?_, hlen.symm ▸ h.frame_stands⟩
  rw [hlen, ← hget, ← List.take_succ_eq_append_getElem hlt, h.current, List.take_length]

/-! ### Tables whose last scope is the current one -/

section Concat

variable {outside : List Frame} {f : Frame}

theorem modify_concat {α : Type} (l : List α) (x : α) (g : α → α) :
    (l ++ [x]).modify l.length g = l ++ [g x] := by
  rw [List.modify_eq_take_drop, List.take_left, List.drop_left, List.modifyHead_cons]

theorem frame_concat : (mk (outside ++ [f]) outside.length).frame = f := by
  simp [frame]

theorem enter_concat : (mk (outside ++ [f]) outside.length).enter =
    ⟨outside ++ [f] ++ [⟨[], some outside.length, f.level + 1⟩], (outside ++ [f]).length⟩ := by
  rw [enter, level, frame_concat]

theorem leave_concat {parent : Nat} (h : f.parent = some parent) :
    (mk (outside ++ [f]) outside.length).leave = ⟨outside, parent⟩ := by
  rw [leave, frame_concat, h]
  simp

theorem insert_concat : (mk (outside ++ [f]) outside.length).insert name type role =
    ⟨outside ++ [f.insert name ⟨name, type, role, f.level⟩], outside.length⟩ := by
  rw [insert, level, frame_concat, modify_concat]

end Concat

/-! ### The operations keep the shape -/

theorem arena_empty : empty.Arena where
  current := rfl
  stands i f h := by
    cases i with
    | zero => cases h; exact ⟨rfl, rfl, nofun⟩
    | succ i => simp [empty] at h

theorem Arena.enter (h : t.Arena) : t.enter.Arena := by
  have hcurrent := h.current
  refine ⟨by simp [SymbolTable.enter], fun i f hf => ?_⟩
  -- a place of the longer list is an old place or the new last one
  rw [SymbolTable.enter, List.getElem?_append] at hf
  split_ifs at hf with hi
  · exact h.stands i f hf
  · obtain ⟨hi', rfl⟩ := List.getElem?_eq_some_iff.mp hf
    rw [List.length_singleton] at hi'
    obtain rfl : i = t.current + 1 := by omega
    have hlevel : t.level = t.current := h.frame_stands.level
    refine ⟨?_, ?_, ?_⟩ <;> simp [hlevel, outer]

theorem leave_global (h : t.frame.parent = none) : t.leave = t := by
  unfold leave
  rw [h]

theorem leave_inner {parent : Nat} (h : t.frame.parent = some parent) :
    t.leave = ⟨t.frames.take t.current, parent⟩ := by
  unfold leave
  rw [h]

theorem Arena.leave (h : t.Arena) : t.leave.Arena := by
  have hcurrent := h.current
  have hparent := h.frame_stands.parent
  cases hi : t.current with
  | zero =>
    rw [hi] at hparent
    rw [leave_global hparent]
    exact h
  | succ i =>
    rw [hi] at hparent
    rw [leave_inner hparent]
    refine ⟨?_, fun j f hf => ?_⟩
    · show i + 1 = (t.frames.take t.current).length
      rw [List.length_take]
      omega
    · rw [List.getElem?_take] at hf
      split_ifs at hf
      exact h.stands j f hf

theorem Arena.insert (h : t.Arena) : (t.insert name type role).Arena := by
  refine ⟨by simpa [SymbolTable.insert] using h.current, fun i f hf => ?_⟩
  rw [SymbolTable.insert, List.getElem?_modify] at hf
  obtain ⟨g, hg, rfl⟩ := Option.map_eq_some_iff.mp hf
  obtain ⟨hlevel, hparent, hsymbols⟩ := h.stands i g hg
  split_ifs with hi
  · subst hi
    refine ⟨hlevel, hparent, fun e he => ?_⟩
    rcases List.mem_cons.mp he with rfl | he
    · exact ⟨rfl, h.frame_stands.level⟩
    · exact hsymbols e he
  · exact ⟨hlevel, hparent, hsymbols⟩

/-! ### The walk outward -/

/-- **The walk from a place outward, without a bound:** it ends at a scope that has the name, or
behind the first scope.  All the places it comes to are places of the table. -/
inductive Walk (frames : List Frame) (name : String) : Option Nat → Option Symbol → Prop
  | outside : Walk frames name none none
  | found {place : Nat} {f : Frame} {s : Symbol} (hf : frames[place]? = some f)
      (hs : f.find? name = some s) : Walk frames name (some place) (some s)
  | outward {place : Nat} {f : Frame} {result : Option Symbol} (hf : frames[place]? = some f)
      (hs : f.find? name = none) (hr : Walk frames name f.parent result) :
      Walk frames name (some place) result

section Search

variable {frames : List Frame} {place n : Nat} {f : Frame}

theorem search_outside : search frames name n none = none := by
  cases n <;> rfl

theorem search_found {s : Symbol} (hf : frames[place]? = some f) (hs : f.find? name = some s) :
    search frames name (n + 1) (some place) = some s := by
  simp only [search, hf, hs]

theorem search_outward (hf : frames[place]? = some f) (hs : f.find? name = none) :
    search frames name (n + 1) (some place) = search frames name n f.parent := by
  simp only [search, hf, hs]

end Search

/-- In a table of the right shape the walk from place `i` goes through the scopes from `i` down,
and it ends within the bound. -/
theorem Arena.search_spec (h : t.Arena) (name : String) {i : Nat} : ∀ {n : Nat},
    i < t.frames.length → i < n → Walk t.frames name (some i) (search t.frames name n (some i)) ∧
      search t.frames name n (some i) =
        (t.frames.take (i + 1)).reverse.findSome? (·.find? name) := by
  induction i with
  | zero =>
    intro n hlt hn
    obtain ⟨n, rfl⟩ := Nat.exists_eq_succ_of_ne_zero (Nat.ne_of_gt hn)
    have hf := List.getElem?_eq_getElem hlt
    have hparent : t.frames[0].parent = none := (h.stands _ _ hf).parent
    rw [List.take_succ_eq_append_getElem hlt, List.take_zero, List.nil_append,
      List.reverse_singleton, List.findSome?_singleton]
    cases hs : t.frames[0].find? name with
    | some s =>
      rw [search_found hf hs]
      exact ⟨.found hf hs, rfl⟩
    | none =>
      rw [search_outward hf hs, hparent, search_outside]
      exact ⟨.outward hf hs (hparent ▸ .outside), rfl⟩
  | succ i ih =>
    intro n hlt hn
    obtain ⟨n, rfl⟩ := Nat.exists_eq_succ_of_ne_zero (Nat.ne_of_gt (Nat.zero_lt_of_lt hn))
    have hf := List.getElem?_eq_getElem hlt
    have hparent : t.frames[i + 1].parent = some i := (h.stands _ _ hf).parent
    obtain ⟨hwalk, hsearch⟩ := ih (Nat.lt_of_succ_lt hlt) (Nat.lt_of_succ_lt_succ hn)
    rw [List.take_succ_eq_append_getElem hlt, List.reverse_append, List.reverse_singleton,
      List.singleton_append, List.findSome?_cons]
    cases hs : t.frames[i + 1].find? name with
    | some s =>
      rw [search_found hf hs]
      exact ⟨.found hf hs, rfl⟩
    | none =>
      rw [search_outward hf hs, hparent]
      exact ⟨.outward hf hs (hparent ▸ hwalk), hsearch⟩

/-- **The walk from the current scope ends,** with what is looked up. -/
theorem Arena.walk (h : t.Arena) (name : String) :
    Walk t.frames name (some t.current) (t.lookup? name) := by
  exact (h.search_spec name h.current_lt h.current_lt).1

/-- **A name is looked for in the scopes from the last to the first.** -/
theorem Arena.lookup?_eq (h : t.Arena) (name : String) :
    t.lookup? name = t.frames.reverse.findSome? (·.find? name) := by
  have hsearch := (h.search_spec name h.current_lt h.current_lt).2
  rwa [h.current, List.take_length] at hsearch

/-! ### Further names in the current scope -/

/-- The scope with further symbols in front of those it has. -/
def Frame.extend (f : Frame) (added : List (String × Symbol)) : Frame :=
  { f with symbols := added ++ f.symbols }

/-- **The table `t'` is `t` with further names in the current scope:** what the scope had stays, and
the names are new to it. -/
structure Grows (t t' : SymbolTable) : Prop where
  current : t'.current = t.current
  frames : ∃ added : List (String × Symbol), (∀ e ∈ added, t.frame.find? e.1 = none) ∧
    t'.frames = t.frames.modify t.current (·.extend added)

variable {t' t'' : SymbolTable}

theorem Grows.refl (t : SymbolTable) : t.Grows t := by
  refine ⟨rfl, [], nofun, ?_⟩
  exact (List.modify_id _ _).symm

theorem Grows.length_frames (h : t.Grows t') : t'.frames.length = t.frames.length := by
  obtain ⟨-, added, -, hframes⟩ := h
  rw [hframes, List.length_modify]

/-- The scopes other than the current one stay. -/
theorem Grows.getElem?_of_ne (h : t.Grows t') {i : Nat} (hi : i ≠ t.current) :
    t'.frames[i]? = t.frames[i]? := by
  obtain ⟨-, added, -, hframes⟩ := h
  rw [hframes, List.getElem?_modify_ne _ _ (Ne.symm hi)]

/-- The current scope keeps what it had, behind names that it did not have. -/
theorem Grows.exists_added (h : t.Grows t') (ht : t.Arena) : ∃ added : List (String × Symbol),
    t'.frame = t.frame.extend added ∧ ∀ e ∈ added, t.frame.find? e.1 = none := by
  obtain ⟨hcurrent, added, hfresh, hframes⟩ := h
  refine ⟨added, ?_, hfresh⟩
  rw [frame, hcurrent, hframes, List.getElem?_modify_eq, ht.frames_current]
  rfl

theorem Grows.find?_eq_some (h : t.Grows t') (ht : t.Arena) {s : Symbol}
    (hs : t.frame.find? name = some s) : t'.frame.find? name = some s := by
  obtain ⟨added, hframe, hfresh⟩ := h.exists_added ht
  have hadded : added.lookup name = none := by
    rw [List.lookup_eq_none_iff]
    intro e he
    have hne : name ≠ e.1 := by
      rintro rfl
      rw [hfresh e he] at hs
      cases hs
    exact bne_iff_ne.mpr hne
  rw [hframe, Frame.find?, Frame.extend, List.lookup_append, hadded, Option.none_or]
  exact hs

/-- What a scope lacks after further names it lacked before. -/
theorem Grows.find?_eq_none (h : t.Grows t') (hname : t'.frame.find? name = none) :
    t.frame.find? name = none := by
  obtain ⟨hcurrent, added, -, hframes⟩ := h
  unfold frame at hname ⊢
  rw [hcurrent, hframes, List.getElem?_modify_eq] at hname
  cases hf : t.frames[t.current]? with
  | none => rfl
  | some f =>
    rw [hf] at hname
    have hboth : ((added.lookup name).or (f.symbols.lookup name)) = none :=
      List.lookup_append.symm.trans hname
    exact (Option.or_eq_none_iff.mp hboth).2

theorem Grows.trans (h : t.Grows t') (h' : t'.Grows t'') : t.Grows t'' := by
  have hlack (name : String) (hname : t'.frame.find? name = none) : t.frame.find? name = none :=
    h.find?_eq_none hname
  obtain ⟨hcurrent, added, hfresh, hframes⟩ := h
  obtain ⟨hcurrent', added', hfresh', hframes'⟩ := h'
  refine ⟨hcurrent'.trans hcurrent, added' ++ added, fun e he => ?_, ?_⟩
  · rcases List.mem_append.mp he with he | he
    · exact hlack _ (hfresh' e he)
    · exact hfresh e he
  · rw [hframes', hcurrent, hframes, List.modify_modify_eq]
    simp only [Function.comp_def, Frame.extend, List.append_assoc]

theorem Grows.insert (h : t.definedHere name = false) : t.Grows (t.insert name type role) := by
  refine ⟨rfl, [(name, ⟨name, type, role, t.level⟩)], fun e he => ?_, rfl⟩
  rw [List.mem_singleton.mp he]
  exact Option.isNone_iff_eq_none.mp (Option.isSome_eq_false_iff.mp h)

/-- **Closing a scope gives back the table in which it was opened,** whatever names were added to
the scope. -/
theorem Grows.leave (h : t.enter.Grows t') : t'.leave = t := by
  obtain ⟨frames, current⟩ := t'
  obtain ⟨rfl, added, -, hframes⟩ := h
  dsimp only at hframes
  rw [hframes, SymbolTable.enter, modify_concat]
  exact leave_concat rfl

end StackListing.SymbolTable
