import StackListing.Proofs.Symbols.Stack
import StackListing.Stmt.Check

/-!
# What checking leaves alone

Checking a statement can add names to the current scope.  It does nothing else to its context,
whether it complains or not: the scopes around the current one, what the current scope had, and the
function around the statement stay (`Context.Grows`).  Each statement form brings its context back
by hand, so this is shown by induction over statements (`Stmt.check_grows`).  Statements that open a
scope of their own, and those that are judged and nothing more, give back their context as it was.
-/

namespace StackListing

namespace Context

/-- **The context `c'` is `c` with further names in the current scope.** -/
structure Grows (c c' : Context) : Prop where
  table : c.table.Grows c'.table
  inFunction : c'.inFunction = c.inFunction
  result : c'.result? = c.result?

variable {c c' c'' : Context}

theorem Grows.refl (c : Context) : c.Grows c := ⟨.refl _, rfl, rfl⟩

theorem Grows.trans (h : c.Grows c') (h' : c'.Grows c'') : c.Grows c'' :=
  ⟨h.table.trans h'.table, h'.inFunction.trans h.inFunction, h'.result.trans h.result⟩

/-- A scope that is left after further names were declared in it leaves no trace. -/
theorem Grows.leave (h : c.enter.Grows c') : c'.leave = c := by
  obtain ⟨table, inFunction, result⟩ := c'
  obtain ⟨htable, rfl, rfl⟩ := h
  rw [Context.leave, show table.leave = c.table from htable.leave]
  rfl

/-- The same of the two scopes of a function; here the table alone comes back. -/
theorem Grows.leaveFunction {result : ValueType} (h : (c.enterFunction result).Grows c')
    (h' : c'.enter.Grows c'') : c''.leave.leave.table = c.table := by
  rw [h'.leave]
  exact h.table.leave

theorem declare_grows (c : Context) (name : String) (type : ValueType) (role : Role)
    (position : Position) : c.Grows (c.declare name type role position).context := by
  unfold declare SymbolTable.declare
  cases h : c.table.definedHere name with
  | true => exact .refl c
  | false => exact ⟨.insert h, rfl, rfl⟩

theorem declareAll_grows (c : Context) (ps : List Parameter) :
    c.Grows (c.declareAll ps).context := by
  induction ps generalizing c with
  | nil => exact .refl c
  | cons p ps ih => exact (c.declare_grows _ _ _ _).trans (ih _)

end Context

namespace Stmt

mutual

/-- **Checking a statement adds names to the current scope and does nothing else.** -/
theorem check_grows (c : Context) : ∀ s : Stmt, c.Grows (s.check c).context
  | expr _ => .refl c
  | print _ _ => .refl c
  | giveBack _ _ => .refl c
  | variableDecl type name initial position => by
    unfold check
    split_ifs
    · exact .refl c
    · exact c.declare_grows name type .var position
  | block body _ => by
    have hinner := (checkAll_grows c.enter body).leave
    show c.Grows (checkAll c.enter body).context.leave
    rw [hinner]
    exact .refl c
  | branch _ yes no _ => (check_grows c yes).trans (checkOption_grows _ no)
  | whileLoop _ body _ => check_grows c body
  | forLoop initial _ _ body _ => by
    have hheader := checkOption_grows c.enter initial
    have hinner := (hheader.trans (check_grows _ body)).leave
    show c.Grows (check (checkOption c.enter initial).context body).context.leave
    rw [hinner]
    exact .refl c
  | functionDecl result name parameters body _ position => by
    unfold check
    split_ifs
    · exact .refl c
    · have hdeclared := c.declare_grows name result .function position
      have hheader := Context.declareAll_grows
        ((c.declare name result .function position).context.enterFunction result) parameters
      have htable := hheader.leaveFunction (checkAll_grows _ body)
      exact ⟨htable ▸ hdeclared.table, rfl, rfl⟩

theorem checkAll_grows (c : Context) : ∀ ss : List Stmt, c.Grows (checkAll c ss).context
  | [] => .refl c
  | s :: rest => (check_grows c s).trans (checkAll_grows _ rest)

theorem checkOption_grows (c : Context) : ∀ s : Option Stmt, c.Grows (checkOption c s).context
  | none => .refl c
  | some s => check_grows c s

end

/-! ### Statements that give back their context -/

/-- Whether the statement declares nothing in the scope it stands in: it opens a scope of its own,
or it is judged and nothing more. -/
def keepsScope : Stmt → Bool
  | block _ _ | forLoop _ _ _ _ _ | expr _ | print _ _ | giveBack _ _ => true
  | variableDecl _ _ _ _ | branch _ _ _ _ | whileLoop _ _ _ | functionDecl _ _ _ _ _ _ => false

theorem context_check_of_keepsScope (c : Context) {s : Stmt} (h : s.keepsScope = true) :
    (s.check c).context = c := by
  cases s with
  | block body _ => exact (checkAll_grows c.enter body).leave
  | forLoop initial _ _ body _ =>
    exact ((checkOption_grows c.enter initial).trans (check_grows _ body)).leave
  | expr _ | print _ _ | giveBack _ _ => rfl
  | variableDecl _ _ _ _ | branch _ _ _ _ | whileLoop _ _ _ | functionDecl _ _ _ _ _ _ => cases h

/-- Complaints about what comes first stay in front. -/
theorem errors_checkAll_concat (c : Context) (s : Stmt) (before : List Stmt) :
    (checkAll c (before ++ [s])).errors =
      (checkAll c before).errors ++ (s.check (checkAll c before).context).errors := by
  induction before generalizing c with
  | nil => exact List.append_nil _
  | cons b before ih =>
    rw [List.cons_append, checkAll, checkAll]
    dsimp only
    rw [ih, List.append_assoc]

/-- **Checking a statement disturbs nothing that it should not.**  In every context whose table was
built by opening and closing scopes and declaring names, and however many complaints it makes,
checking leaves the function around the statement, the depth of scopes and all scopes but the
current one as they were; the current scope keeps its entries, and the names it gains are new to it.
Blocks, `for` loops, expressions, `print` and `return` leave the whole context as it was.  What was
reported before stays, in front of what is reported now. -/
theorem check_framed (actions : List Action) (inFunction : Bool) (result? : Option ValueType)
    (s : Stmt) :
    let c : Context := ⟨.after actions, inFunction, result?⟩
    let c' := (s.check c).context
    c'.inFunction = inFunction ∧ c'.result? = result? ∧
    c'.table.current = c.table.current ∧ c'.table.level = c.table.level ∧
    c'.table.frames.length = c.table.frames.length ∧
    (∀ i, i ≠ c.table.current → c'.table.frames[i]? = c.table.frames[i]?) ∧
    (∃ added, c'.table.frame = c.table.frame.extend added ∧
      ∀ e ∈ added, c.table.frame.find? e.1 = none) ∧
    (∀ name symbol, c.table.frame.find? name = some symbol →
      c'.table.frame.find? name = some symbol) ∧
    (s.keepsScope = true → c' = c) ∧ (∀ e, (expr e).check c = ⟨c, (e.infer c.table).errors⟩) ∧
    ∀ before, (checkAll c (before ++ [s])).errors =
      (checkAll c before).errors ++ (s.check (checkAll c before).context).errors := by
  intro c c'
  have harena : c.table.Arena := SymbolTable.arena_after actions
  have hgrows : c.Grows c' := s.check_grows c
  have hadded := hgrows.table.exists_added harena
  have hlevel : c'.table.level = c.table.level := by
    obtain ⟨added, hframe, -⟩ := hadded
    rw [SymbolTable.level, hframe]
    rfl
  exact ⟨hgrows.inFunction, hgrows.result, hgrows.table.current, hlevel,
    hgrows.table.length_frames, fun i hi => hgrows.table.getElem?_of_ne hi, hadded,
    fun name symbol hs => hgrows.table.find?_eq_some harena hs, context_check_of_keepsScope c,
    fun e => rfl, errors_checkAll_concat c s⟩

/-- A block with a function that is faulty in its parameters and in its body, and is declared again
behind it. -/
def faulty : Stmt :=
  .block
    [.functionDecl .int "f" [⟨.int, "a", ⟨1, 13⟩⟩, ⟨.bool, "a", ⟨1, 21⟩⟩]
      [.giveBack none ⟨1, 26⟩, .variableDecl .int "f" (some (.var "b" ⟨2, 9⟩)) ⟨2, 5⟩]
      ⟨1, 24⟩ ⟨1, 7⟩,
    .functionDecl .bool "f" [] [] ⟨3, 10⟩ ⟨3, 6⟩] ⟨1, 1⟩

theorem check_framed_faulty :
    let c : Context := ⟨.after [.declare "x" .int .var ⟨0, 5⟩, .enter], true, some .int⟩
    (faulty.check c).errors.length = 4 ∧ faulty.keepsScope = true ∧
      (faulty.check c).context = c := by
  obtain ⟨-, -, -, -, -, -, -, -, hkeeps, -, -⟩ :=
    check_framed [.declare "x" .int .var ⟨0, 5⟩, .enter] true (some .int) faulty
  exact ⟨by decide, rfl, hkeeps rfl⟩

end Stmt

end StackListing
