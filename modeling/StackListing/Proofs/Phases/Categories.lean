import Mathlib.Tactic.Common
import StackListing.Compilation
import StackListing.Proofs.Parsing.Compositional

/-!
# What each phase complains about

Every phase has categories of its own.  Scanning reports lexical faults only, parsing syntactic ones
only, and checking never reports either (`tokenize_covers`, `parse_covers`, `Program.check_covers`).

For the parser this is a property of steps: a step is `Syntactic` if it keeps a list of syntactic
complaints one, the complaint with which it fails included.  For the checker it is an induction on
the tree that is checked.
-/

namespace StackListing

namespace Phase

/-- The categories of the complaints that belong to a phase. -/
def categories : Phase → List Category
  | scanning => [.lexical]
  | parsing => [.syntactic]
  | checking => [.semantic, .typing, .undeclaredVariable, .redeclaration, .functionNotFound]
  | generation => []

/-- **The phase covers the complaints:** they are all of its categories. -/
def Covers (phase : Phase) (ds : Diagnostics) : Prop :=
  ∀ d ∈ ds, d.category ∈ phase.categories

variable {phase : Phase} {d : Diagnostic} {ds es : Diagnostics}

@[simp] theorem covers_nil : phase.Covers [] := nofun

@[simp] theorem covers_cons :
    phase.Covers (d :: ds) ↔ d.category ∈ phase.categories ∧ phase.Covers ds := by
  simp [Covers]

@[simp] theorem covers_append : phase.Covers (ds ++ es) ↔ phase.Covers ds ∧ phase.Covers es := by
  simp [Covers, or_imp, forall_and]

theorem covers_one {k : Category} (hd : d.category = k) (hk : k ∈ phase.categories) :
    phase.Covers [d] := by
  simp [hd, hk]

end Phase

/-! ### Scanning -/

theorem Scan.ofSegments_covers : ∀ (segments : List Segment) (start : Position),
    Phase.scanning.Covers (Scan.ofSegments start segments).errors
  | [], start => Phase.covers_nil
  | s :: rest, start => by
    have ih := ofSegments_covers rest (start.advance s.text)
    unfold Scan.ofSegments
    dsimp only
    split
    · exact ih
    · exact ih
    · exact Phase.covers_cons.mpr ⟨List.mem_singleton_self _, ih⟩
    · exact Phase.covers_cons.mpr ⟨List.mem_singleton_self _, ih⟩

/-- **Scanning reports lexical faults only.** -/
theorem tokenize_covers (source : String) : Phase.scanning.Covers (tokenize source).errors :=
  Scan.ofSegments_covers _ _

/-! ### Parsing -/

namespace Parse

variable {α β : Type}

/-- All complaints of a run: those reported and the one it failed with. -/
def complaints : EStateM.Result Diagnostic ParseState α → Diagnostics
  | .ok _ t => t.errors
  | .error d t => t.errors ++ [d]

/-- **A syntactic step:** begun with syntactic complaints only, it ends with such complaints. -/
class Syntactic (p : Parse α) : Prop where
  covers : ∀ s : ParseState, Phase.parsing.Covers s.errors → Phase.parsing.Covers (complaints (p s))

theorem Syntactic.bind {p : Parse α} {f : α → Parse β} (hp : Syntactic p)
    (hf : ∀ a, Syntactic (f a)) : Syntactic (p >>= f) where
  covers s hs := by
    have h := hp.covers s hs
    rw [bind_apply]
    cases hr : p s with
    | ok a t =>
      rw [hr] at h
      exact (hf a).covers t h
    | error d t =>
      rw [hr] at h
      exact h

/-- Recovery turns the failure of a statement into a report, so nothing new is said. -/
theorem syntactic_recover {stmt : Parse Stmt} (hstmt : Syntactic stmt) :
    Syntactic (recover stmt) where
  covers s hs := by
    have h := hstmt.covers s hs
    unfold recover
    cases hr : stmt s with
    | ok x t =>
      rw [hr] at h
      exact h
    | error d t =>
      rw [hr] at h
      exact h

/-- **The parser is syntactic.** -/
instance recovering_syntactic : Recovering @Syntactic where
  pure _ := ⟨fun _ hs => hs⟩
  throw hd := ⟨fun _ hs => Phase.covers_append.mpr ⟨hs, Phase.covers_one hd (by decide)⟩⟩
  bind := Syntactic.bind
  atEnd := ⟨fun _ hs => hs⟩
  current := ⟨fun _ hs => hs⟩
  peek _ := ⟨fun _ hs => hs⟩
  remaining := ⟨fun _ hs => hs⟩
  advance := ⟨fun _ hs => hs⟩
  report hd := ⟨fun _ hs => Phase.covers_append.mpr ⟨hs, Phase.covers_one hd (by decide)⟩⟩
  recover := syntactic_recover

instance (g : Grammar) : Syntactic (program g) := Has.holds

end Parse

/-- **Parsing reports syntactic faults only,** whatever the tokens are. -/
theorem parse_covers (tokens : List Token) : Phase.parsing.Covers (parse tokens).errors := by
  have h := Parse.Syntactic.covers (p := Parse.program .standard)
    ⟨TokenStream.ofTokens tokens, []⟩ Phase.covers_nil
  unfold parse
  cases hr : Parse.program .standard ⟨TokenStream.ofTokens tokens, []⟩ with
  | ok p s =>
    rw [hr] at h
    exact h
  | error d s =>
    rw [hr] at h
    exact h

/-! ### Checking -/

theorem Inference.mismatch_covers {cause : String → String → Cause}
    (h : ∀ expected actual, (cause expected actual).category = .typing) (expected : ValueType)
    (position : Position) (actual : Option ValueType) :
    Phase.checking.Covers (Inference.mismatch cause expected position actual) := by
  unfold Inference.mismatch
  split
  · exact Phase.covers_nil
  · split_ifs
    · exact Phase.covers_nil
    · exact Phase.covers_one (h _ _) (by decide)

mutual

/-- Inference says nothing lexical or syntactic. -/
theorem Expr.infer_covers (t : SymbolTable) :
    ∀ e : Expr, Phase.checking.Covers (e.infer t).errors
  | .literal value position => Phase.covers_nil
  | .var name position => by
    unfold Expr.infer
    split
    · exact Phase.covers_nil
    · exact Phase.covers_one (k := .undeclaredVariable) rfl (by decide)
  | .unary op operand position => by
    have ih := Expr.infer_covers t operand
    unfold Expr.infer
    dsimp only
    split
    · exact ih
    · split
      · exact ih
      · exact Phase.covers_append.mpr ⟨ih, Phase.covers_one (k := .typing) rfl (by decide)⟩
  | .binary op left right position => by
    have ih := Phase.covers_append.mpr ⟨Expr.infer_covers t left, Expr.infer_covers t right⟩
    unfold Expr.infer
    dsimp only
    split
    · split
      · exact ih
      · exact Phase.covers_append.mpr ⟨ih, Phase.covers_one (k := .typing) rfl (by decide)⟩
    · exact ih
  | .call callee arguments position => by
    have ih := Expr.inferAll_covers t arguments
    unfold Expr.infer
    split
    · exact Phase.covers_one (k := .semantic) rfl (by decide)
    · split
      · exact Phase.covers_one (k := .functionNotFound) rfl (by decide)
      · split_ifs
        · exact ih
        · exact Phase.covers_one (k := .semantic) rfl (by decide)
  | .assign name value position => by
    have ih := Expr.infer_covers t value
    unfold Expr.infer
    split
    · exact Phase.covers_one (k := .undeclaredVariable) rfl (by decide)
    · exact Phase.covers_append.mpr ⟨ih, Inference.mismatch_covers (fun _ _ => rfl) _ _ _⟩

@[inherit_doc Expr.infer_covers]
theorem Expr.inferAll_covers (t : SymbolTable) :
    ∀ es : List Expr, Phase.checking.Covers (Expr.inferAll t es)
  | [] => Phase.covers_nil
  | e :: es => Phase.covers_append.mpr ⟨Expr.infer_covers t e, Expr.inferAll_covers t es⟩

end

namespace Context

variable (c : Context)

theorem declare_covers (name : String) (type : ValueType) (role : Role) (position : Position) :
    Phase.checking.Covers (c.declare name type role position).errors := by
  unfold Context.declare SymbolTable.declare
  split
  · exact Phase.covers_nil
  · rename_i d hd
    split_ifs at hd
    cases hd
    exact Phase.covers_one (k := .redeclaration) rfl (by decide)

theorem declareAll_covers : ∀ (ps : List Parameter) (c : Context),
    Phase.checking.Covers (c.declareAll ps).errors
  | [], _ => Phase.covers_nil
  | _ :: ps, c =>
    Phase.covers_append.mpr ⟨c.declare_covers _ _ _ _, declareAll_covers ps _⟩

theorem checkCondition_covers (construct : String) (condition : Expr) :
    Phase.checking.Covers (c.checkCondition construct condition) := by
  refine Phase.covers_append.mpr ⟨condition.infer_covers _, ?_⟩
  split
  · exact Phase.covers_nil
  · split_ifs
    · exact Phase.covers_nil
    · exact Phase.covers_one (k := .typing) rfl (by decide)

theorem checkValue_covers : ∀ value : Option Expr, Phase.checking.Covers (c.checkValue value)
  | none => Phase.covers_nil
  | some e => e.infer_covers _

theorem checkHeader_covers (condition increment : Option Expr) :
    Phase.checking.Covers (c.checkHeader condition increment) := by
  refine Phase.covers_append.mpr ⟨?_, c.checkValue_covers increment⟩
  cases condition with
  | none => exact Phase.covers_nil
  | some e => exact c.checkCondition_covers _ e

theorem checkInitial_covers (type : ValueType) (position : Position) :
    ∀ initial : Option Expr, Phase.checking.Covers (c.checkInitial type position initial)
  | none => Phase.covers_nil
  | some e => Phase.covers_append.mpr
      ⟨e.infer_covers _, Inference.mismatch_covers (fun _ _ => rfl) _ _ _⟩

theorem checkGiveBack_covers (position : Position) (value : Option Expr) :
    Phase.checking.Covers (c.checkGiveBack position value) := by
  unfold Context.checkGiveBack
  split_ifs
  · split
    · exact Expr.infer_covers _ _
    · exact Phase.covers_append.mpr
        ⟨Expr.infer_covers _ _, Inference.mismatch_covers (fun _ _ => rfl) _ _ _⟩
    · exact Phase.covers_nil
    · exact Phase.covers_one (k := .typing) rfl (by decide)
  · exact Phase.covers_one (k := .semantic) rfl (by decide)

end Context

namespace Stmt

mutual

/-- Checking a statement, in whatever context, says nothing lexical or syntactic. -/
theorem check_covers : ∀ (s : Stmt) (c : Context), Phase.checking.Covers (s.check c).errors
  | .expr e, c => e.infer_covers _
  | .print e _, c => e.infer_covers _
  | .giveBack value position, c => c.checkGiveBack_covers position value
  | .variableDecl type name initial position, c => by
    unfold Stmt.check
    split_ifs
    · exact Phase.covers_one (k := .redeclaration) rfl (by decide)
    · exact Phase.covers_append.mpr
        ⟨c.checkInitial_covers _ _ _, c.declare_covers _ _ _ _⟩
  | .block body _, c => checkAll_covers body c.enter
  | .branch condition yes no _, c => by
    have hyes := check_covers yes c
    have hno := checkOption_covers no (yes.check c).context
    exact Phase.covers_append.mpr
      ⟨Phase.covers_append.mpr ⟨c.checkCondition_covers _ _, hyes⟩, hno⟩
  | .whileLoop condition body _, c =>
    Phase.covers_append.mpr ⟨c.checkCondition_covers _ _, check_covers body c⟩
  | .forLoop initial condition increment body _, c => by
    have hinitial := checkOption_covers initial c.enter
    have hbody := check_covers body (checkOption c.enter initial).context
    exact Phase.covers_append.mpr
      ⟨Phase.covers_append.mpr ⟨hinitial, Context.checkHeader_covers _ _ _⟩, hbody⟩
  | .functionDecl result name parameters body _ position, c => by
    unfold Stmt.check
    split_ifs
    · exact Phase.covers_one (k := .redeclaration) rfl (by decide)
    · exact Phase.covers_append.mpr
        ⟨Phase.covers_append.mpr ⟨c.declare_covers _ _ _ _, Context.declareAll_covers _ _⟩,
          checkAll_covers body _⟩

@[inherit_doc check_covers]
theorem checkAll_covers : ∀ (ss : List Stmt) (c : Context),
    Phase.checking.Covers (checkAll c ss).errors
  | [], _ => Phase.covers_nil
  | s :: rest, c =>
    Phase.covers_append.mpr ⟨check_covers s c, checkAll_covers rest (s.check c).context⟩

@[inherit_doc check_covers]
theorem checkOption_covers : ∀ (s : Option Stmt) (c : Context),
    Phase.checking.Covers (checkOption c s).errors
  | none, _ => Phase.covers_nil
  | some s, c => check_covers s c

end

end Stmt

/-- **Checking reports faults of meaning only,** whatever the program is. -/
theorem Program.check_covers (p : Program) : Phase.checking.Covers p.check :=
  Stmt.checkAll_covers p.statements .empty

end StackListing
