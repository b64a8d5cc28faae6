import StackListing.Proofs.Grammar.Acceptance
import StackListing.Proofs.Typing.Selection

/-!
# Return statements outside functions

The return statements of a program are listed in the order of the text, each with the number of
function declarations around it.  Checking keeps a mark for being inside a function; it sets the
mark at the body of a function and puts back what was there before.  Declarations of names that are
taken are passed over with their bodies.  Nevertheless the complaints about returns outside
functions are exactly those about the return statements with no function around them
(`Stmt.loose_check`): nothing outside functions is ever passed over.

The place of a return statement is that of its keyword: in a program that was read from tokens, the
places of its return statements are those of the keywords, in order (`StmtTree.returns_stmt`).
-/

namespace StackListing

/-! ### Return statements -/

/-- A return statement: the number of function declarations around it, and its place. -/
structure ReturnSite where
  functions : Nat
  position : Position
deriving DecidableEq

namespace ReturnSite

/-- The same statement, seen from outside a function that it is in. -/
def enclosed (r : ReturnSite) : ReturnSite := { r with functions := r.functions + 1 }

/-- The complaints about those with no function around them. -/
def loose (rs : List ReturnSite) : Diagnostics :=
  (rs.filter (·.functions = 0)).map fun r => ⟨.returnOutsideFunction, r.position⟩

@[simp] theorem loose_nil : loose [] = [] := rfl

@[simp] theorem loose_append (rs rs' : List ReturnSite) :
    loose (rs ++ rs') = loose rs ++ loose rs' := by
  simp [loose]

@[simp] theorem loose_enclosed (rs : List ReturnSite) : loose (rs.map enclosed) = [] := by
  simp [loose, enclosed]

end ReturnSite

namespace Stmt

mutual

/-- **The return statements of a statement,** in the order of the text. -/
def returns : Stmt → List ReturnSite
  | expr _ | print _ _ | variableDecl _ _ _ _ => []
  | giveBack _ position => [⟨0, position⟩]
  | block body _ => returnsAll body
  | branch _ yes no _ => returns yes ++ returnsOption no
  | whileLoop _ body _ => returns body
  | forLoop initial _ _ body _ => returnsOption initial ++ returns body
  | functionDecl _ _ _ body _ _ => (returnsAll body).map ReturnSite.enclosed

@[inherit_doc returns]
def returnsAll : List Stmt → List ReturnSite
  | [] => []
  | s :: rest => returns s ++ returnsAll rest

@[inherit_doc returns]
def returnsOption : Option Stmt → List ReturnSite
  | none => []
  | some s => returns s

end

end Stmt

/-- **The return statements of a program,** in the order of the text. -/
def Program.returns (p : Program) : List ReturnSite := Stmt.returnsAll p.statements

/-! ### Checking -/

/-- The cause of a complaint about a return outside functions. -/
def Cause.isLoose (cause : Cause) : Bool := cause = .returnOutsideFunction

theorem Cause.apart_isLoose : Cause.Apart Cause.isLoose where
  typing {cause} h := by
    cases cause <;> first | rfl | cases h
  redeclaration {cause} h := by
    cases cause <;> first | rfl | cases h

open Cause (isLoose apart_isLoose)
open Diagnostics (select)

mutual

/-- Expressions have no return statements in them. -/
theorem Expr.loose_infer (t : SymbolTable) : ∀ e : Expr, select isLoose (e.infer t).errors = []
  | .literal _ _ => rfl
  | .var name position => by
    unfold Expr.infer
    split <;> rfl
  | .unary op operand position => by
    have ih := Expr.loose_infer t operand
    unfold Expr.infer
    dsimp only
    split
    · exact ih
    · split <;> simp [ih, isLoose]
  | .binary op left right position => by
    have hl := Expr.loose_infer t left
    have hr := Expr.loose_infer t right
    unfold Expr.infer
    dsimp only
    split
    · split <;> simp [hl, hr, isLoose]
    · simp [hl, hr]
  | .call callee arguments position => by
    have ha := Expr.loose_inferAll t arguments
    unfold Expr.infer
    split
    · rfl
    · split
      · rfl
      · split_ifs
        · exact ha
        · rfl
  | .assign name value position => by
    have ih := Expr.loose_infer t value
    unfold Expr.infer
    split
    · rfl
    · rw [Diagnostics.select_append, ih, apart_isLoose.select_mismatch fun _ _ => rfl]
      rfl

theorem Expr.loose_inferAll (t : SymbolTable) :
    ∀ es : List Expr, select isLoose (Expr.inferAll t es) = []
  | [] => rfl
  | e :: es => by
    rw [Expr.inferAll, Diagnostics.select_append, Expr.loose_infer t e, Expr.loose_inferAll t es]
    rfl

end

namespace Context

variable (c : Context)

theorem loose_checkValue (e : Option Expr) : select isLoose (c.checkValue e) = [] := by
  cases e with
  | none => rfl
  | some e => exact e.loose_infer _

theorem loose_checkCondition (construct : String) (e : Expr) :
    select isLoose (c.checkCondition construct e) = [] := by
  rw [apart_isLoose.select_checkCondition, e.loose_infer]

theorem loose_checkHeader (condition increment : Option Expr) :
    select isLoose (c.checkHeader condition increment) = [] := by
  rw [apart_isLoose.select_checkHeader, c.loose_checkValue, c.loose_checkValue]
  rfl

/-- This is where the mark is asked for. -/
theorem loose_checkGiveBack (position : Position) (value : Option Expr) :
    select isLoose (c.checkGiveBack position value) =
      if c.inFunction then [] else [⟨.returnOutsideFunction, position⟩] := by
  rw [apart_isLoose.select_checkGiveBack, c.loose_checkValue]
  rfl

end Context

namespace Stmt

mutual

/-- **Checking complains about the return statements with no function around them,** if it begins
outside a function, and else about none. -/
theorem loose_check : ∀ (s : Stmt) (c : Context), select isLoose (s.check c).errors =
    if c.inFunction then [] else ReturnSite.loose s.returns
  | expr e, c => by
    rw [check, e.loose_infer]
    simp [returns]
  | print e _, c => by
    rw [check, e.loose_infer]
    simp [returns]
  | giveBack value position, c => c.loose_checkGiveBack position value
  | variableDecl type name initial position, c => by
    unfold check returns
    rw [ReturnSite.loose_nil, ite_self]
    split_ifs
    · exact apart_isLoose.select_redeclared _ _ _
    · simp [apart_isLoose.select_checkInitial, c.loose_checkValue, apart_isLoose.select_declare]
  | block body position, c => loose_checkAll body c.enter
  | branch condition yes no position, c => by
    have hyes := loose_check yes c
    have hno := loose_checkOption no (yes.check c).context
    rw [(check_grows c yes).inFunction] at hno
    unfold check returns
    simp only [Diagnostics.select_append, c.loose_checkCondition, hyes, hno]
    split_ifs <;> simp
  | whileLoop condition body position, c => by
    have hbody := loose_check body c
    unfold check returns
    simp [c.loose_checkCondition, hbody]
  | forLoop initial condition increment body position, c => by
    have henter : c.enter.inFunction = c.inFunction := rfl
    have hinitial := loose_checkOption initial c.enter
    have hbody := loose_check body (checkOption c.enter initial).context
    rw [(checkOption_grows c.enter initial).inFunction, henter] at hbody
    rw [henter] at hinitial
    unfold check returns
    simp only [Diagnostics.select_append, Context.loose_checkHeader, hinitial, hbody]
    split_ifs <;> simp
  | functionDecl result name parameters body bodyPosition position, c => by
    unfold check returns
    rw [ReturnSite.loose_enclosed, ite_self]
    split_ifs
    · exact apart_isLoose.select_redeclared _ _ _
    · -- the mark is set in the body
      let declared := (c.declare name result .function position).context
      let header := ((declared.enterFunction result).declareAll parameters).context
      have hinside : header.enter.inFunction = true :=
        ((declared.enterFunction result).declareAll_grows parameters).inFunction
      have hbody := loose_checkAll body header.enter
      rw [hinside] at hbody
      simp only [Diagnostics.select_append, apart_isLoose.select_declare,
        apart_isLoose.select_declareAll, List.nil_append]
      exact hbody

theorem loose_checkAll : ∀ (ss : List Stmt) (c : Context),
    select isLoose (checkAll c ss).errors =
      if c.inFunction then [] else ReturnSite.loose (returnsAll ss)
  | [], c => by simp [checkAll, returnsAll]
  | s :: rest, c => by
    have hs := loose_check s c
    have hrest := loose_checkAll rest (s.check c).context
    rw [(check_grows c s).inFunction] at hrest
    unfold checkAll returnsAll
    simp only [Diagnostics.select_append, hs, hrest]
    split_ifs <;> simp

theorem loose_checkOption : ∀ (s : Option Stmt) (c : Context),
    select isLoose (checkOption c s).errors =
      if c.inFunction then [] else ReturnSite.loose (returnsOption s)
  | none, c => by simp [checkOption, returnsOption]
  | some s, c => loose_check s c

end

end Stmt

/-! ### Keywords -/

/-- The places of the return keywords among tokens, in order. -/
def returnWords (ts : List Token) : List Position :=
  (ts.filter (·.kind = .returnWord)).map (·.position)

@[simp] theorem returnWords_nil : returnWords [] = [] := rfl

@[simp] theorem returnWords_append (ts us : List Token) :
    returnWords (ts ++ us) = returnWords ts ++ returnWords us := by
  simp [returnWords]

@[simp] theorem returnWords_cons (t : Token) (ts : List Token) : returnWords (t :: ts) =
    if t.kind = .returnWord then t.position :: returnWords ts else returnWords ts := by
  by_cases h : t.kind = .returnWord <;> simp [returnWords, h]

theorem LiteralWord.kind_ne_return (w : LiteralWord) : w.token.kind ≠ .returnWord := by
  obtain ⟨⟨k, v, pos⟩, l, hl⟩ := w
  rintro rfl
  cases hl

theorem PrefixWord.kind_ne_return (w : PrefixWord) : w.token.kind ≠ .returnWord := by
  obtain ⟨⟨k, v, pos⟩, op, hop⟩ := w
  rintro rfl
  cases hop

theorem InfixWord.kind_ne_return {p : Power} (w : InfixWord p) : w.token.kind ≠ .returnWord := by
  obtain ⟨⟨k, v, pos⟩, op, hop, -⟩ := w
  rintro rfl
  cases hop

theorem TypeWord.kind_ne_return (w : TypeWord) : w.token.kind ≠ .returnWord := by
  obtain ⟨⟨k, v, pos⟩, type, htype⟩ := w
  rintro rfl
  cases htype

theorem TargetTree.returnWords_tokens (d : TargetTree) : returnWords d.tokens = [] := by
  induction d with
  | name t => simp [TargetTree.tokens, t.2]
  | paren l inner r ih => simp [TargetTree.tokens, l.2, r.2, ih]

mutual

/-- There is no keyword inside an expression. -/
theorem ExprTree.returnWords_tokens {p : Power} : ∀ d : ExprTree p, returnWords d.tokens = []
  | .literal t => by simp [ExprTree.tokens, t.kind_ne_return]
  | .var t => by simp [ExprTree.tokens, t.2]
  | .paren l inner r => by simp [ExprTree.tokens, l.2, r.2, inner.returnWords_tokens]
  | .unary t operand => by simp [ExprTree.tokens, t.kind_ne_return, operand.returnWords_tokens]
  | .assign target sign value => by
    simp [ExprTree.tokens, target.returnWords_tokens, sign.2, value.returnWords_tokens]
  | .joined _ first links => by
    simp [ExprTree.tokens, first.returnWords_tokens, links.returnWords_tokens]

theorem LinkTrees.returnWords_tokens {p : Power} : ∀ d : LinkTrees p, returnWords d.tokens = []
  | .nil => rfl
  | .binary _ t right rest => by
    simp [LinkTrees.tokens, t.kind_ne_return, right.returnWords_tokens, rest.returnWords_tokens]
  | .callEmpty l r rest => by simp [LinkTrees.tokens, l.2, r.2, rest.returnWords_tokens]
  | .call l args r rest => by
    simp [LinkTrees.tokens, l.2, r.2, args.returnWords_tokens, rest.returnWords_tokens]

theorem ArgumentTrees.returnWords_tokens : ∀ d : ArgumentTrees, returnWords d.tokens = []
  | .one e => e.returnWords_tokens
  | .more e comma rest => by
    simp [ArgumentTrees.tokens, e.returnWords_tokens, comma.2, rest.returnWords_tokens]

end

theorem OptionTree.returnWords_tokens (d : OptionTree) : returnWords d.tokens = [] := by
  cases d with
  | none => rfl
  | some d => exact d.returnWords_tokens

theorem VariableTree.returnWords_tokens (d : VariableTree) : returnWords d.tokens = [] := by
  obtain ⟨type, name, initial, semi⟩ := d
  cases initial with
  | none => simp [VariableTree.tokens, InitialTree.tokens, type.kind_ne_return, name.2, semi.2]
  | some i =>
    simp [VariableTree.tokens, InitialTree.tokens, type.kind_ne_return, name.2, semi.2, i.1.2,
      i.2.returnWords_tokens]

theorem HeaderTree.returnWords_tokens (d : HeaderTree) : returnWords d.tokens = [] := by
  cases d with
  | absent semi => simp [HeaderTree.tokens, semi.2]
  | var v => exact v.returnWords_tokens
  | expr e semi => simp [HeaderTree.tokens, e.returnWords_tokens, semi.2]

theorem HeaderTree.returns_stmt (d : HeaderTree) : Stmt.returnsOption d.stmt = [] := by
  cases d <;> rfl

theorem ParameterTrees.returnWords_tokens (d : ParameterTrees) : returnWords d.tokens = [] := by
  induction d with
  | one p =>
    simp [ParameterTrees.tokens, ParameterTree.tokens, p.type.kind_ne_return, p.name.2]
  | more p comma rest ih =>
    simp [ParameterTrees.tokens, ParameterTree.tokens, p.type.kind_ne_return, p.name.2, comma.2, ih]

mutual

/-- **The places of return statements are those of their keywords.** -/
theorem StmtTree.returns_stmt : ∀ d : StmtTree,
    d.stmt.returns.map (·.position) = returnWords d.tokens
  | .body s => s.returns_stmt
  | .var v => by
    rw [StmtTree.tokens, v.returnWords_tokens]
    rfl
  | .function type name l parameters r lb body rb => by
    have hparameters : returnWords (parameters.elim [] ParameterTrees.tokens) = [] := by
      cases parameters with
      | none => rfl
      | some ps => exact ps.returnWords_tokens
    simp [StmtTree.tokens, StmtTree.stmt, Stmt.returns, type.kind_ne_return, name.2, l.2, r.2,
      lb.2, rb.2, hparameters, ← body.returns_stmts, ReturnSite.enclosed]

theorem StmtTrees.returns_stmts : ∀ d : StmtTrees,
    (Stmt.returnsAll d.stmts).map (·.position) = returnWords d.tokens
  | .nil => rfl
  | .cons s rest => by
    simp [StmtTrees.tokens, StmtTrees.stmts, Stmt.returnsAll, s.returns_stmt, rest.returns_stmts]

theorem BodyTree.returns_stmt {o : Bool} : ∀ d : BodyTree o,
    d.stmt.returns.map (·.position) = returnWords d.tokens
  | .block l body r => by
    simp [BodyTree.tokens, BodyTree.stmt, Stmt.returns, l.2, r.2, body.returns_stmts]
  | .ifOnly kw l c r yes => by
    simp [BodyTree.tokens, BodyTree.stmt, Stmt.returns, Stmt.returnsOption, kw.2, l.2, r.2,
      c.returnWords_tokens, yes.returns_stmt]
  | .ifElse kw l c r yes kw' no => by
    simp [BodyTree.tokens, BodyTree.stmt, Stmt.returns, Stmt.returnsOption, kw.2, l.2, r.2, kw'.2,
      c.returnWords_tokens, yes.returns_stmt, no.returns_stmt]
  | .whileLoop kw l c r body => by
    simp [BodyTree.tokens, BodyTree.stmt, Stmt.returns, kw.2, l.2, r.2, c.returnWords_tokens,
      body.returns_stmt]
  | .forLoop kw l initial c semi i r body => by
    simp [BodyTree.tokens, BodyTree.stmt, Stmt.returns, kw.2, l.2, r.2, semi.2,
      initial.returnWords_tokens, initial.returns_stmt, c.returnWords_tokens, i.returnWords_tokens,
      body.returns_stmt]
  | .giveBack kw value semi => by
    simp [BodyTree.tokens, BodyTree.stmt, Stmt.returns, kw.2, semi.2, value.returnWords_tokens]
  | .print kw l e r semi => by
    simp [BodyTree.tokens, BodyTree.stmt, Stmt.returns, kw.2, l.2, r.2, semi.2,
      e.returnWords_tokens]
  | .expr e semi => by
    simp [BodyTree.tokens, BodyTree.stmt, Stmt.returns, semi.2, e.returnWords_tokens]

end

/-- **Returns outside functions are complained about, and only they.**  In order and with the places
of the return statements, the complaints about returns outside functions are those about the return
statements of the program with no function declaration around them, whatever else is around them.
If the program was read from tokens, then the places of all its return statements, in order, are
those of the return keywords. -/
theorem Program.check_returns (p : Program) :
    (p.check.filter fun d => d.cause = .returnOutsideFunction) =
      ((p.returns.filter (·.functions = 0)).map fun r =>
        ⟨.returnOutsideFunction, r.position⟩) ∧
    ∀ tokens : List Token, (parse tokens).errors = [] → (parse tokens).program = p →
      p.returns.map (·.position) =
        ((significant tokens).filter (·.kind = .returnWord)).map (·.position) := by
  refine ⟨Stmt.loose_checkAll p.statements .empty, fun tokens herrors hprogram => ?_⟩
  obtain ⟨d, htokens, rfl⟩ := parse_iff_exists_tree.mp ⟨herrors, hprogram⟩
  rw [← htokens]
  exact d.statements.returns_stmts

/-- The tokens of `if (true) return; int f() { return 1; } int f() { return 2; }`, a column each:
one return outside functions, one in a function and one in a function that is passed over. -/
def strayReturn : List Token :=
  let body (value : String) : List (Kind × String) :=
    [(.intWord, "int"), (.identifier, "f"), (.openParen, "("), (.closeParen, ")"),
      (.openCurly, "\x7b"), (.returnWord, "return"), (.integerLiteral, value), (.semicolon, ";"),
      (.closeCurly, "\x7d")]
  let words : List (Kind × String) :=
    [(.ifWord, "if"), (.openParen, "("), (.trueWord, "true"), (.closeParen, ")"),
      (.returnWord, "return"), (.semicolon, ";")] ++ body "1" ++ body "2"
  (words.zipIdx 1).map fun w => ⟨w.1.1, w.1.2, ⟨1, w.2⟩⟩

theorem Program.check_returns_stray : (parse strayReturn).errors = [] ∧
    (parse strayReturn).program.check.filter (fun d => d.cause = .returnOutsideFunction) =
      [⟨.returnOutsideFunction, ⟨1, 5⟩⟩] ∧
    (parse strayReturn).program.returns.map (·.position) = [⟨1, 5⟩, ⟨1, 12⟩, ⟨1, 21⟩] := by
  have herrors : (parse strayReturn).errors = [] := by decide +kernel
  obtain ⟨hloose, hwords⟩ := Program.check_returns (parse strayReturn).program
  rw [hloose, hwords strayReturn herrors rfl]
  exact ⟨herrors, by decide +kernel, by decide +kernel⟩

end StackListing
