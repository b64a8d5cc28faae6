import StackListing.Session
import StackListing.Proofs.Files.Writing
import StackListing.Proofs.Phases.Gating

/-!
# What a run of the command leaves behind

A run goes through the phases that it is asked for, and what these make of the source it prints or
writes.  What the phases report is said one by one (`Phase.reports`), so that it can be seen which
of them a run depends on.  There are five ends of a run (`Session.Fate`), and in only one of them a
file changes: nothing was reported, nothing is to be printed, and the destination names a file that
is there or can be made.
-/

namespace StackListing

namespace Arguments

/-- The phases that a run goes through. -/
def phases (a : Arguments) : List Phase :=
  if a.tokens then [.scanning]
  else if a.ast then [.scanning, .parsing]
  else [.scanning, .parsing, .checking, .generation]

/-- What these phases make of a source: its tokens line by line, the program as text, or the
listing. -/
def product (a : Arguments) (source : String) : String :=
  if a.tokens then String.join ((tokenize source).tokens.map (·.text ++ "\n"))
  else if a.ast then (parsed source).program.text
  else (parsed source).program.listing

/-- Whether the run prints what it makes instead of writing it. -/
def prints (a : Arguments) : Bool := a.tokens || a.ast || a.toStdout

/-- No phase that the run goes through has anything to report. -/
def Passes (a : Arguments) (source : String) : Prop :=
  ∀ phase ∈ a.phases, phase.reports source = []

end Arguments

/-! ### Phases -/

section Phases

variable {source : String}

theorem compile_ok_iff (listing : String) : compile source = .ok listing ↔
    (∀ phase ∈ [Phase.scanning, .parsing, .checking, .generation], phase.reports source = []) ∧
      (parsed source).program.listing = listing := by
  rw [compile_eq_ok_iff, eq_comm]
  refine and_congr_left fun _ => ⟨fun h phase _ => h phase, fun h phase => h phase ?_⟩
  cases phase <;> decide

/-- A run that writes what it makes goes through all phases, and what it makes is the listing. -/
theorem Arguments.compile_of_passes {a : Arguments} (hprints : a.prints = false)
    (hpasses : a.Passes source) : compile source = .ok (a.product source) := by
  obtain ⟨path, output, toStdout, tokens, ast, verbosity⟩ := a
  simp only [prints, Bool.or_eq_false_iff] at hprints
  obtain ⟨⟨rfl, rfl⟩, rfl⟩ := hprints
  exact (compile_ok_iff _).mpr ⟨hpasses, rfl⟩

end Phases

namespace Session

variable {a : Arguments} {source : String}

/-- What a run does with what its phases made: it prints the text or writes it. -/
def Delivers (a : Arguments) (text : String) (p : Plan) : Prop :=
  if a.prints then ∃ stderr, p = .finish ⟨0, text, stderr⟩ else p = .write (destination a) text

/-- **The ends of a run.** -/
inductive Fate (tree : FileTree) (a : Arguments) : Outcome → FileTree → Prop
  | unreadable (hread : ∀ source, tree.read a.source ≠ .ok source) (stderr : String) :
      Fate tree a (.failure stderr) tree
  | faulty {source : String} (hread : tree.read a.source = .ok source)
      (hpasses : ¬ a.Passes source) (stderr : String) : Fate tree a (.failure stderr) tree
  | printed {source : String} (hread : tree.read a.source = .ok source) (hpasses : a.Passes source)
      (hprints : a.prints = true) (stderr : String) :
      Fate tree a ⟨0, a.product source, stderr⟩ tree
  | unwritable {source : String} (hread : tree.read a.source = .ok source)
      (hpasses : a.Passes source) (hprints : a.prints = false)
      (htarget : tree.target? (destination a) = none) (stderr : String) :
      Fate tree a (.failure stderr) tree
  | written {source : String} {place : List String} (hread : tree.read a.source = .ok source)
      (hpasses : a.Passes source) (hprints : a.prints = false)
      (htarget : tree.target? (destination a) = some place) (stdout : String) :
      Fate tree a (.success stdout) (tree.put place (.text (a.product source)))

namespace Fate

variable {tree after : FileTree} {a : Arguments} {outcome : Outcome} {source : String}

theorem result (h : Fate tree a outcome after) (hsource : tree.read a.source = .ok source)
    (hexit : outcome.exitCode = 0) :
    if a.prints then after = tree ∧ outcome.stdout = a.product source
    else ∃ listing, compile source = .ok listing ∧
      tree.Replaced (destination a) listing after := by
  cases h with
  | unreadable | faulty | unwritable => cases hexit
  | printed hread hpasses hprints stderr =>
    cases hread.symm.trans hsource
    rw [if_pos hprints]
    exact ⟨rfl, rfl⟩
  | written hread hpasses hprints htarget stdout =>
    cases hread.symm.trans hsource
    rw [if_neg (by simp [hprints])]
    exact ⟨_, Arguments.compile_of_passes hprints hpasses, FileTree.replaced_put htarget _⟩

end Fate

end Session

end StackListing
