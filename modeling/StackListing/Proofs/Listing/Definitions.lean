import StackListing.Proofs.Listing.Jumps
import StackListing.Proofs.Phases.Gating

/-!
# The names that a listing defines

A name is defined by a line that is the name and a colon: the label of a jump, the entry of a
function, or the start of the listing.  Entries and labels share one space of names, but nothing
keeps them apart: functions of different scopes can have the same name, and a function can have the
name of a label.  The main statement says when all names of a listing are different.
-/

namespace StackListing

/-- The name that a line defines. -/
def Line.defines? : Line → Option String
  | .label l => some l.text
  | .entry name => some name
  | .raw text => if text = "_start:" then some "_start" else none
  | .code _ _ | .comment _ | .blank => none

/-- A line that defines a name is the name and a colon. -/
theorem Line.text_of_defines {line : Line} {name : String} (h : line.defines? = some name) :
    line.text = name ++ ":" := by
  cases line with
  | label l =>
    obtain rfl := Option.some.inj h
    rfl
  | entry =>
    obtain rfl := Option.some.inj h
    rfl
  | raw text =>
    rw [Line.defines?] at h
    split_ifs at h with htext
    obtain rfl := Option.some.inj h
    exact htext
  | code | comment | blank => cases h

/-- **The names that a listing defines,** in order. -/
def definitions (lines : Listing) : List String := lines.filterMap Line.defines?

/-- Whether a line stands at the margin and is no label: an entry or a directive. -/
def Line.marginal : Line → Bool
  | .entry _ | .raw _ => true
  | .code _ _ | .label _ | .comment _ | .blank => false

/-- The entries and directives of a listing, in order. -/
def marginal (lines : Listing) : Listing := lines.filter Line.marginal

section Marginal

variable {lines xs ys : Listing}

@[simp] theorem marginal_nil : marginal [] = [] := rfl

@[simp] theorem marginal_append : marginal (xs ++ ys) = marginal xs ++ marginal ys :=
  List.filter_append ..

@[simp] theorem marginal_plain {i : Instruction} : marginal (.plain i :: lines) = marginal lines :=
  rfl

@[simp] theorem marginal_noted {i : Instruction} {remark : String} :
    marginal (.noted i remark :: lines) = marginal lines := rfl

@[simp] theorem marginal_label {l : Label} : marginal (.label l :: lines) = marginal lines := rfl

@[simp] theorem marginal_comment {text : String} :
    marginal (.comment text :: lines) = marginal lines := rfl

@[simp] theorem marginal_entry {name : String} :
    marginal (.entry name :: lines) = .entry name :: marginal lines := rfl

@[simp] theorem marginal_raw {text : String} :
    marginal (.raw text :: lines) = .raw text :: marginal lines := rfl

@[simp] theorem marginal_blank : marginal (.blank :: lines) = marginal lines := rfl

theorem Straight.marginal_eq_nil (h : Straight lines) : marginal lines = [] := by
  refine List.filter_eq_nil_iff.mpr fun line hmem => ?_
  have hline := h line hmem
  cases line with
  | entry | raw => cases hline
  | _ => simp [Line.marginal]

/-- **The names of a listing** are the texts of its labels and what its entries and directives
define. -/
theorem definitions_perm (lines : Listing) :
    (definitions lines).Perm ((placed lines).map Label.text ++ definitions (marginal lines)) := by
  induction lines with
  | nil => exact .refl _
  | cons line lines ih =>
    cases line with
    | label l => exact ih.cons l.text
    | entry name => exact (ih.cons name).trans List.perm_middle.symm
    | raw text =>
      by_cases htext : text = "_start:"
      · have hline : (Line.raw text).defines? = some "_start" := if_pos htext
        simpa [definitions, hline] using (ih.cons "_start").trans List.perm_middle.symm
      · have hline : (Line.raw text).defines? = none := if_neg htext
        simpa [definitions, hline] using ih
    | code | comment | blank => exact ih

end Marginal

@[simp] theorem Expr.marginal_code (e : Expr) (n : Nat) : marginal (e.code n) = [] :=
  (e.straight_code n).marginal_eq_nil

@[simp] theorem Expr.marginal_codeOption (n : Nat) (e : Option Expr) :
    marginal (Expr.codeOption n e) = [] := by
  cases e with
  | none => rfl
  | some e => exact e.marginal_code n

/-! ### Functions -/

namespace Stmt

mutual

/-- **The names of the functions declared in a statement,** at any depth and in order. -/
def functionNames : Stmt → List String
  | expr _ | print _ _ | giveBack _ _ | variableDecl _ _ _ _ => []
  | block body _ => functionNamesAll body
  | branch _ yes no _ => functionNames yes ++ functionNamesOption no
  | whileLoop _ body _ => functionNames body
  | forLoop initial _ _ body _ => functionNamesOption initial ++ functionNames body
  | functionDecl _ name _ body _ _ => name :: functionNamesAll body

@[inherit_doc functionNames]
def functionNamesAll : List Stmt → List String
  | [] => []
  | s :: rest => functionNames s ++ functionNamesAll rest

@[inherit_doc functionNames]
def functionNamesOption : Option Stmt → List String
  | none => []
  | some s => functionNames s

end

mutual

/-- The code of a statement has the entries of the functions declared in it and no directives. -/
theorem marginal_code : ∀ (s : Stmt) (n : Nat), marginal (s.code n) = s.functionNames.map .entry
  | expr e, n => e.marginal_code n
  | print e _, n => by simp [code, printCode, functionNames]
  | giveBack value _, n => by cases value <;> simp [code, giveBackCode, epilogue, functionNames]
  | variableDecl _ _ initial _, n => by cases initial <;> simp [code, variableCode, functionNames]
  | block body _, n => by simp [code, functionNames, marginal_codeAll body]
  | branch c yes no _, n => by
    simp [code, jumpIfZero, functionNames, marginal_code yes, marginal_codeOption no]
  | whileLoop c body _, n => by simp [code, jumpIfZero, functionNames, marginal_code body]
  | forLoop initial c i body _, n => by
    cases c <;> simp [code, conditionCode, jumpIfZero, functionNames, marginal_code body,
      marginal_codeOption initial]
  | functionDecl _ name _ body _ _, n => by
    simp [code, prologue, epilogue, functionNames, marginal_codeAll body]

theorem marginal_codeAll : ∀ (body : List Stmt) (n : Nat),
    marginal (codeAll n body) = (functionNamesAll body).map .entry
  | [], _ => rfl
  | s :: rest, n => by
    simp [codeAll, functionNamesAll, marginal_code s, marginal_codeAll rest]

theorem marginal_codeOption : ∀ (s : Option Stmt) (n : Nat),
    marginal (codeOption n s) = (functionNamesOption s).map .entry
  | none, _ => rfl
  | some s, n => marginal_code s n

end

end Stmt

theorem definitions_map_entry (names : List String) :
    definitions (names.map .entry) = names := by
  induction names with
  | nil => rfl
  | cons name names ih => exact congrArg (name :: ·) ih

/-! ### Programs -/

/-- No label has the name of the start. -/
theorem Label.text_ne_start (l : Label) : l.text ≠ "_start" := by
  intro h
  have hlist : l.stem.toList ++ '_' :: (toString l.id).toList = [] ++ '_' :: "start".toList := by
    rw [← l.toList_text, h]
    rfl
  obtain ⟨-, hdigits⟩ := split_underscore (underscore_not_mem_toString l.id) (by decide) hlist
  have hs : 's' ∈ Nat.toDigits 10 l.id := by
    rw [← toList_toString, hdigits]
    decide
  exact absurd (Nat.isDigit_of_mem_toDigits (by decide) (by decide) hs) (by decide)

namespace Program

/-- The names of the functions declared in a program, at any depth and in order. -/
def functionNames (p : Program) : List String := Stmt.functionNamesAll p.statements

theorem entry_mem_code_iff (p : Program) {name : String} :
    .entry name ∈ p.code 0 ↔ name ∈ p.functionNames := by
  have hmarginal : .entry name ∈ p.code 0 ↔ .entry name ∈ marginal (p.code 0) := by
    rw [marginal, List.mem_filter]
    exact (and_iff_left rfl).symm
  rw [hmarginal]
  simp [code, header, footer, Stmt.marginal_codeAll, functionNames]

/-- **The names of the listing of a program:** those of its labels, its functions and its start. -/
theorem definitions_code_perm (p : Program) : (definitions (p.code 0)).Perm
    ((placed (p.code 0)).map Label.text ++ (p.functionNames ++ ["_start"])) := by
  have hmarginal : definitions (marginal (p.code 0)) = p.functionNames ++ ["_start"] := by
    have hheader : definitions (marginal header) = [] := by decide
    have hfooter : definitions (marginal footer) = ["_start"] := by decide
    have happend : ∀ xs ys, definitions (xs ++ ys) = definitions xs ++ definitions ys :=
      fun _ _ => List.filterMap_append
    rw [code, marginal_append, marginal_append, happend, happend, hheader, hfooter,
      Stmt.marginal_codeAll, definitions_map_entry, List.nil_append, functionNames]
  rw [← hmarginal]
  exact definitions_perm _

/-- The names of a listing are different if those of the functions are, and if they are kept apart
from the start and from the labels. -/
theorem nodup_definitions_iff (p : Program) : (definitions (p.code 0)).Nodup ↔
    p.functionNames.Nodup ∧ "_start" ∉ p.functionNames ∧
      ∀ l ∈ placed (p.code 0), l.text ∉ p.functionNames := by
  have hlabels : ((placed (p.code 0)).map Label.text).Nodup :=
    (p.nodup_placed_code 0).map Label.text_injective
  rw [p.definitions_code_perm.nodup_iff, List.nodup_append', ← List.concat_eq_append,
    List.nodup_concat]
  constructor
  · rintro ⟨-, ⟨hstart, hnames⟩, hdisjoint⟩
    refine ⟨hnames, hstart, fun l hl hmem => ?_⟩
    exact hdisjoint (List.mem_map_of_mem hl) (by simp [hmem])
  · rintro ⟨hnames, hstart, hkept⟩
    refine ⟨hlabels, ⟨hstart, hnames⟩, fun name hlabel hname => ?_⟩
    obtain ⟨l, hl, rfl⟩ := List.mem_map.mp hlabel
    rw [List.concat_eq_append, List.mem_append, List.mem_singleton] at hname
    rcases hname with hname | hname
    · exact hkept l hl hname
    · exact l.text_ne_start hname

end Program

/-- **When the names of a listing are different.**  The listing of an accepted source defines each
name once exactly if all functions of the source, at any depth, have different names, none of which
is that of the start or of a label of the listing. -/
theorem compile_definitions_nodup_iff {source listing : String}
    (h : compile source = .ok listing) :
    listing = ((parsed source).program.code 0).text ∧
    (∀ line ∈ (parsed source).program.code 0, ∀ name ∈ line.defines?, line.text = name ++ ":") ∧
    ((definitions ((parsed source).program.code 0)).Nodup ↔
      (parsed source).program.functionNames.Nodup ∧
      "_start" ∉ (parsed source).program.functionNames ∧
      ∀ l ∈ placed ((parsed source).program.code 0),
        l.text ∉ (parsed source).program.functionNames) := by
  obtain ⟨-, hlisting⟩ := compile_eq_ok_iff.mp h
  refine ⟨hlisting, fun line _ name hname => ?_, Program.nodup_definitions_iff _⟩
  exact Line.text_of_defines hname

/-- A source with a loop, a string and a function inside a function. -/
def nestedSource : String :=
  "int main() \x7b int twice(int x) \x7b return x + x; \x7d while (true) \x7b print(twice(2)); " ++
    "string s = \"a\"; \x7d return 0; \x7d"

theorem compile_definitions_nodup_nested :
    compile nestedSource = .ok (parsed nestedSource).program.listing ∧
      (definitions ((parsed nestedSource).program.code 0)).Nodup := by
  have hsilent : (tokenize nestedSource).errors = [] ∧ (parsed nestedSource).errors = [] ∧
      (parsed nestedSource).program.check = [] := by decide +kernel
  have hcompile := compile_of_silent hsilent.1 hsilent.2.1 hsilent.2.2
  exact ⟨hcompile, (compile_definitions_nodup_iff hcompile).2.2.mpr (by decide +kernel)⟩

/-- The source is accepted, and its listing defines a name twice. -/
def Clashes (source : String) : Prop :=
  compile source = .ok (parsed source).program.listing ∧
    ¬ (definitions ((parsed source).program.code 0)).Nodup

theorem Clashes.of_silent {source : String} (h : (tokenize source).errors = [] ∧
    (parsed source).errors = [] ∧ (parsed source).program.check = [] ∧
    ¬ (definitions ((parsed source).program.code 0)).Nodup) : Clashes source := by
  obtain ⟨hscan, hparse, hcheck, hclash⟩ := h
  exact ⟨compile_of_silent hscan hparse hcheck, hclash⟩

/-- A source in which a function has the name of a label. -/
def labelClash : String :=
  "int else_0() \x7b return 0; \x7d int main() \x7b if (true) \x7b print(1); \x7d return 0; \x7d"

/-- A source in which a function has the name of the start. -/
def startClash : String := "int _start() \x7b return 0; \x7d int main() \x7b return 0; \x7d"

/-- A source in which two functions in different scopes have one name. -/
def scopeClash : String :=
  "int f() \x7b return 1; \x7d int main() \x7b int f() \x7b return 2; \x7d return f(); \x7d"

/-- Each of the three conditions can fail in an accepted source. -/
theorem clashing_definitions : Clashes labelClash ∧ Clashes startClash ∧ Clashes scopeClash := by
  refine ⟨.of_silent ?_, .of_silent ?_, .of_silent ?_⟩
  · decide +kernel
  · decide +kernel
  · decide +kernel

end StackListing
