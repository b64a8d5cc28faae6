import Mathlib.Tactic.Common
import StackListing.FileTree

/-!
# Writing a file changes that file alone

Putting content at a place changes what the tree holds there and nowhere else (`get?_put`).  A path
names the place of a file that is there or can be made (`target?`), and writing to the path puts the
text at that place (`write_eq_ok_iff`).  The way along the path is the same in the new tree, for it
leads through directories, and no directory became a file.  So what was written is what is read
(`read_put`).
-/

namespace StackListing.FileTree

variable {tree after : FileTree} {place dir parts rest : List String} {content : Content}
  {path text : String}

/-! ### Contents by place -/

theorem lookup_map_set (files : List (List String × Content)) (place q : List String)
    (content : Content) :
    (files.map fun (p, old) => (p, if p = place then content else old)).lookup q =
      (files.lookup q).map fun old => if q = place then content else old := by
  induction files with
  | nil => rfl
  | cons f files ih =>
    obtain ⟨p, old⟩ := f
    rw [List.map_cons, List.lookup_cons, List.lookup_cons]
    by_cases hq : q = p
    · simp [hq]
    · rw [beq_false_of_ne hq]
      exact ih

/-- **Putting content at a place changes that place alone.** -/
theorem get?_put (tree : FileTree) (place q : List String) (content : Content) :
    (tree.put place content).get? q = if q = place then some content else tree.get? q := by
  unfold put
  split_ifs with hthere hq hq
  · subst hq
    obtain ⟨old, hold⟩ := Option.isSome_iff_exists.mp hthere
    unfold get? at hold ⊢
    simp [lookup_map_set, hold]
  · unfold get?
    simp [lookup_map_set, hq]
  · subst hq
    unfold get? at hthere ⊢
    simp only [Option.isSome_iff_ne_none, ne_eq, not_not] at hthere
    simp [List.lookup_append, hthere]
  · unfold get?
    simp [List.lookup_append, List.lookup_cons, beq_false_of_ne hq]

@[simp] theorem directories_put (tree : FileTree) (place : List String) (content : Content) :
    (tree.put place content).directories = tree.directories := by
  unfold put
  split_ifs <;> rfl

@[simp] theorem isDirectory_put (tree : FileTree) (place q : List String) (content : Content) :
    (tree.put place content).isDirectory q = tree.isDirectory q := by
  simp [isDirectory]

/-! ### Paths -/

/-- A part of a path that names no file or directory of its own. -/
def IsDots (part : String) : Prop := part = "" ∨ part = "." ∨ part = ".."

section Step

variable {part : String}

theorem follow_dots (h : IsDots part) :
    tree.follow dir (part :: parts) = tree.follow (Path.enter dir part) parts := if_pos h

theorem follow_file (h : ¬ IsDots part) (hfile : tree.get? (Path.enter dir part) = some content) :
    tree.follow dir (part :: parts) = .file (Path.enter dir part) content parts := by
  refine (if_neg h).trans ?_
  rw [hfile]

theorem follow_directory (h : ¬ IsDots part) (hnone : tree.get? (Path.enter dir part) = none)
    (hdir : tree.isDirectory (Path.enter dir part) = true) :
    tree.follow dir (part :: parts) = tree.follow (Path.enter dir part) parts := by
  refine (if_neg h).trans ?_
  rw [hnone]
  exact if_pos hdir

theorem follow_absent (h : ¬ IsDots part) (hnone : tree.get? (Path.enter dir part) = none)
    (hdir : tree.isDirectory (Path.enter dir part) = false) :
    tree.follow dir (part :: parts) = .absent (Path.enter dir part) parts := by
  refine (if_neg h).trans ?_
  rw [hnone]
  exact if_neg (by simp [hdir])

end Step

/-- The place at which a path ends, with the parts of the path behind it: that of a file, or the
first at which there is nothing. -/
def Place.end? : Place → Option (List String × List String)
  | .directory => none
  | .file place _ rest => some (place, rest)
  | .absent place rest => some (place, rest)

/-- A path that ends at a place still ends there when other content is put there.  It goes through
directories only, and the place is none of them: at a directory without a file no path ends. -/
theorem follow_put (h : (tree.follow dir parts).end? = some (place, rest)) :
    (tree.get? place = none → tree.isDirectory place = false) ∧
      (tree.put place content).follow dir parts = .file place content rest := by
  induction parts generalizing dir with
  | nil => cases h
  | cons part parts ih =>
    have hhere : (tree.put (Path.enter dir part) content).get? (Path.enter dir part) =
        some content := by rw [get?_put, if_pos rfl]
    by_cases hdots : IsDots part
    · rw [follow_dots hdots] at h ⊢
      exact ih h
    cases hget : tree.get? (Path.enter dir part) with
    | some old =>
      rw [follow_file hdots hget] at h
      cases h
      refine ⟨fun hnone => ?_, follow_file hdots hhere⟩
      rw [hnone] at hget
      cases hget
    | none =>
      cases hdir : tree.isDirectory (Path.enter dir part) with
      | true =>
        rw [follow_directory hdots hget hdir] at h
        obtain ⟨hend, hfollow⟩ := ih h
        have hne : Path.enter dir part ≠ place := by
          rintro rfl
          rw [hend hget] at hdir
          cases hdir
        refine ⟨hend, (follow_directory hdots ?_ ?_).trans hfollow⟩
        · rw [get?_put, if_neg hne, hget]
        · rw [isDirectory_put, hdir]
      | false =>
        rw [follow_absent hdots hget hdir] at h
        cases h
        exact ⟨fun _ => hdir, follow_file hdots hhere⟩

/-- **The place of the file that a path names:** one that is there, or one that can be made. -/
def target? (tree : FileTree) (path : String) : Option (List String) :=
  match tree.locate path with
  | .ok (.file place _ []) => some place
  | .ok (.absent place []) => if isOverlong place then none else some place
  | _ => none

theorem locate_eq_ok_iff {end' : Place} : tree.locate path = .ok end' ↔
    path ≠ "" ∧ path.utf8ByteSize ≤ pathLimit ∧
      tree.follow (Path.origin path) (Path.parts path) = end' := by
  unfold locate
  split_ifs with hempty hlong
  · simp [hempty]
  · simp [Nat.not_le.mpr hlong]
  · simp [hempty, Nat.not_lt.mp hlong]

theorem target?_eq_some (h : tree.target? path = some place) :
    ∃ found, tree.locate path = .ok found ∧ found.end? = some (place, []) := by
  unfold target? at h
  split at h
  · rename_i place' content hlocate
    cases h
    exact ⟨_, hlocate, rfl⟩
  · rename_i place' hlocate
    split_ifs at h
    cases h
    exact ⟨_, hlocate, rfl⟩
  · cases h

/-- **What was written is what is read.** -/
theorem read_put (h : tree.target? path = some place) (text : String) :
    (tree.put place (.text text)).read path = .ok text := by
  obtain ⟨found, hlocate, hend⟩ := target?_eq_some h
  obtain ⟨hne, hlong, rfl⟩ := locate_eq_ok_iff.mp hlocate
  have hnew : (tree.put place (.text text)).locate path = .ok (.file place (.text text) []) :=
    locate_eq_ok_iff.mpr ⟨hne, hlong, (follow_put hend).2⟩
  unfold read
  rw [hnew]
  rfl

/-- **The tree `after` is `tree` with one file replaced:** the path now leads to the text, what is
held elsewhere is the same, and so are the directories. -/
structure Replaced (tree : FileTree) (path text : String) (after : FileTree) : Prop where
  read : after.read path = .ok text
  elsewhere : ∃ place, tree.target? path = some place ∧
    ∀ q, after.get? q = if q = place then some (.text text) else tree.get? q
  directories : after.directories = tree.directories

theorem replaced_put (h : tree.target? path = some place) (text : String) :
    tree.Replaced path text (tree.put place (.text text)) where
  read := read_put h text
  elsewhere := ⟨place, h, fun q => get?_put tree place q _⟩
  directories := directories_put tree place _

end StackListing.FileTree
