import StackListing.Proofs.Parsing.Consuming
import StackListing.Proofs.Printing.Shown

/-!
# The shape of what is read

Branches and loops do not govern declarations, a loop header begins with a declaration of a variable
or an expression, and an `else` belongs to the nearest `if`.  The type of statements does not say
so: it is what the rules of the parser make (`Stmt.Shapely`), whether or not there are complaints.

A rule is followed from the state in which it begins (`Parse.Gives`).  About the statement that it
ends with two more things must be known (`Parse.Made`): a declaration began with a type, and behind
a statement that an `else` could continue there is no `else`.  The first keeps declarations out of
the places where `bodyStmt` is used.  The second holds because an `if` takes an `else` that is
there, and it is why the outer one of two nested `if`s finds none that the inner one left.
Statements that fail are dropped whole, so recovery adds no new shapes.
-/

namespace StackListing

namespace Stmt

/-- Whether the statement declares a variable or a function. -/
def declares : Stmt → Bool
  | variableDecl .. => true
  | functionDecl .. => true
  | _ => false

/-- Whether a loop header may begin with the statement. -/
def opensHeader : Stmt → Bool
  | variableDecl .. => true
  | expr .. => true
  | _ => false

/-- **A statement of the right shape,** and all statements inside it. -/
inductive Shapely : Stmt → Prop
  | expr (e : Expr) : Shapely (expr e)
  | variableDecl (type : ValueType) (name : String) (initial : Option Expr) (p : Position) :
      Shapely (variableDecl type name initial p)
  | block {body : List Stmt} (hbody : ∀ s ∈ body, Shapely s) (p : Position) :
      Shapely (block body p)
  | ifOnly (c : Expr) {yes : Stmt} (hyes : Shapely yes) (hyes' : yes.declares = false)
      (p : Position) : Shapely (branch c yes none p)
  | ifElse (c : Expr) {yes no : Stmt} (hyes : Shapely yes) (hyes' : yes.declares = false)
      (hclosed : yes.dangles = false) (hno : Shapely no) (hno' : no.declares = false)
      (p : Position) : Shapely (branch c yes (some no) p)
  | whileLoop (c : Expr) {body : Stmt} (hbody : Shapely body) (hbody' : body.declares = false)
      (p : Position) : Shapely (whileLoop c body p)
  | forLoop {initial : Option Stmt} (hinitial : ∀ s ∈ initial, s.opensHeader = true)
      (c i : Option Expr) {body : Stmt} (hbody : Shapely body) (hbody' : body.declares = false)
      (p : Position) : Shapely (forLoop initial c i body p)
  | giveBack (value : Option Expr) (p : Position) : Shapely (giveBack value p)
  | functionDecl (result : ValueType) (name : String) (parameters : List Parameter)
      {body : List Stmt} (hbody : ∀ s ∈ body, Shapely s) (p p' : Position) :
      Shapely (functionDecl result name parameters body p p')
  | print (e : Expr) (p : Position) : Shapely (print e p)

end Stmt

/-- A program whose statements have the right shape. -/
def Program.Shapely (p : Program) : Prop := ∀ s ∈ p.statements, s.Shapely

namespace Parse

variable {α β : Type} {s : ParseState}

/-! ### What a step gives -/

/-- **What a step gives:** if it succeeds from `s`, then with a result and a state that satisfy
`Q`. -/
def Gives (p : Parse α) (s : ParseState) (Q : α → ParseState → Prop) : Prop :=
  ∀ a t, p s = .ok a t → Q a t

section Gives

variable {p : Parse α} {f : α → Parse β} {P : α → ParseState → Prop} {Q : β → ParseState → Prop}

theorem Gives.pure {a : α} (h : P a s) : Gives (Pure.pure a) s P := by
  intro b t hrun
  cases hrun
  exact h

theorem Gives.mono {P' : α → ParseState → Prop} (hp : Gives p s P) (h : ∀ a t, P a t → P' a t) :
    Gives p s P' := fun a t hrun => h a t (hp a t hrun)

theorem Gives.bind (hp : Gives p s P) (hf : ∀ a t, P a t → Gives (f a) t Q) :
    Gives (p >>= f) s Q := by
  intro b u hrun
  obtain ⟨a, t, hp', hf'⟩ := ok_of_bind hrun
  exact hf a t (hp a t hp') b u hf'

/-- A step whose result does not matter. -/
theorem Gives.skip (hf : ∀ a t, Gives (f a) t Q) : Gives (p >>= f) s Q :=
  Gives.bind (P := fun _ _ => True) (fun _ _ _ => trivial) fun a t _ => hf a t

theorem Gives.map {f : α → β} (hp : Gives p s P) :
    Gives (f <$> p) s fun b t => ∃ a, b = f a ∧ P a t :=
  hp.bind fun a _ ha => .pure ⟨a, rfl, ha⟩

theorem Gives.ite {c : Prop} [Decidable c] {q : Parse α} (hp : c → Gives p s P)
    (hq : ¬ c → Gives q s P) : Gives (if c then p else q) s P := by
  split_ifs with h
  · exact hp h
  · exact hq h

end Gives

theorem gives_type (cause : String → Cause) :
    Gives (type cause) s fun _ _ => s.stream.current.kind.isType = true := by
  intro a t hrun
  unfold type at hrun
  rw [current_bind] at hrun
  cases htype : s.stream.current.kind.type? with
  | none =>
    rw [htype] at hrun
    cases hrun
  | some type => rw [Kind.isType, htype, Option.isSome_some]

/-- A token that was not taken is of another kind and still there. -/
theorem gives_accept {kind : Kind} (hkind : kind ≠ .endOfInput) :
    Gives (accept kind) s fun taken t => if taken = true then s.stream.current.kind = kind
      else t.stream.current.kind ≠ kind := by
  unfold accept
  show Gives (if s.stream.current.kind = kind ∧ kind ≠ .endOfInput then _ else _) s _
  refine .ite (fun h => .skip fun _ _ => .pure ?_) fun h => .pure ?_
  · exact h.1
  · exact fun heq => h ⟨heq, hkind⟩

/-! ### Statements -/

/-- What is known of a statement that was read from `s` to `t`. -/
structure Made (s : ParseState) (x : Stmt) (t : ParseState) : Prop where
  shapely : x.Shapely
  declares : x.declares = true → s.stream.current.kind.isType = true
  dangles : x.dangles = true → t.stream.current.kind ≠ .elseWord

/-- What is known of a statement that a branch or a loop governs, read up to `t`. -/
structure Governed (x : Stmt) (t : ParseState) : Prop where
  shapely : x.Shapely
  declares : x.declares = false
  dangles : x.dangles = true → t.stream.current.kind ≠ .elseWord

/-- A step whose statements have the right shape. -/
def Makes (stmt : Parse Stmt) : Prop := ∀ s, Gives stmt s (Made s)

theorem gives_recover {stmt : Parse Stmt} (h : Makes stmt) :
    Gives (recover stmt) s fun v _ => ∀ x ∈ v, x.Shapely := by
  intro v t hrun
  unfold recover at hrun
  cases hstmt : stmt s with
  | ok x u =>
    rw [hstmt] at hrun
    cases hrun
    intro y hy
    cases hy
    exact (h s x t hstmt).shapely
  | error d u =>
    rw [hstmt] at hrun
    cases hrun
    exact nofun

theorem gives_statements (stops : Kind → Bool) {stmt : Parse Stmt} (h : Makes stmt) (n : Nat) :
    Gives (statements stops stmt n) s fun xs _ => ∀ x ∈ xs, x.Shapely := by
  induction n generalizing s with
  | zero => exact .pure (by simp)
  | succ n ih =>
    refine .skip fun _ _ => .skip fun _ _ => .ite (fun _ => .pure (by simp)) fun _ => ?_
    refine (gives_recover h).bind fun v t hv => ?_
    cases v with
    | none => exact ih
    | some x =>
      refine ih.bind fun xs _ hxs => .pure ?_
      exact List.forall_mem_cons.mpr ⟨hv x rfl, hxs⟩

section Rules

variable (g : Grammar)

theorem gives_expressionStmt : Gives (expressionStmt g) s fun x _ => ∃ e, x = .expr e :=
  .skip fun e _ => .skip fun _ _ => .pure ⟨e, rfl⟩

theorem makes_expressionStmt : Makes (expressionStmt g) := fun _ =>
  (gives_expressionStmt g).mono <| by
    rintro _ _ ⟨e, rfl⟩
    exact ⟨.expr e, nofun, nofun⟩

/-- A declaration begins with a type. -/
theorem gives_variableDecl : Gives (variableDecl g) s fun x _ =>
    s.stream.current.kind.isType = true ∧
      ∃ type name initial p, x = .variableDecl type name initial p := by
  refine (gives_type _).bind fun type _ htype => .skip fun name _ => .skip fun initialized _ => ?_
  refine .ite (fun _ => .skip fun initial _ => ?_) fun _ => .skip fun initial _ => ?_
  all_goals exact .skip fun _ _ => .pure ⟨htype, type, name.value, initial, name.position, rfl⟩

theorem makes_variableDecl : Makes (variableDecl g) := fun _ =>
  (gives_variableDecl g).mono <| by
    rintro _ _ ⟨htype, type, name, initial, p, rfl⟩
    exact ⟨.variableDecl type name initial p, fun _ => htype, nofun⟩

theorem makes_giveBack : Makes (giveBack g) := fun _ =>
  .skip fun _ _ => .skip fun value _ => .skip fun _ _ => .pure ⟨.giveBack value _, nofun, nofun⟩

theorem makes_print : Makes (print g) := fun _ =>
  .skip fun _ _ => .skip fun _ _ => .skip fun e _ => .skip fun _ _ => .skip fun _ _ =>
    .pure ⟨.print e _, nofun, nofun⟩

/-- A loop header begins with one of two forms of statements. -/
theorem gives_forInitial :
    Gives (forInitial g) s fun initial _ => ∀ x ∈ initial, x.opensHeader = true := by
  refine .skip fun absent _ => .ite (fun _ => .pure nofun) fun _ => .skip fun t _ => .ite ?_ ?_
  · refine fun _ => (gives_variableDecl g).bind fun x _ hx => .pure ?_
    obtain ⟨-, type, name, initial, p, rfl⟩ := hx
    intro y hy
    cases hy
    rfl
  · refine fun _ => (gives_expressionStmt g).bind fun x _ hx => .pure ?_
    obtain ⟨e, rfl⟩ := hx
    intro y hy
    cases hy
    rfl

variable {stmt : Parse Stmt} (hstmt : Makes stmt)
include hstmt

omit g in
theorem gives_blockBody : Gives (blockBody stmt) s fun xs _ => ∀ x ∈ xs, x.Shapely :=
  .skip fun n _ => (gives_statements _ hstmt n).bind fun _ _ hxs => .skip fun _ _ => .pure hxs

omit g in
theorem makes_block : Makes (block stmt) := fun _ =>
  .skip fun _ _ => (gives_blockBody hstmt).bind fun _ _ hxs => .pure ⟨.block hxs _, nofun, nofun⟩

omit g in
theorem makes_functionDecl : Makes (functionDecl stmt) := by
  intro s
  refine (gives_type _).bind fun result _ htype => .skip fun name _ => .skip fun _ _ =>
    .skip fun _ _ => .ite (fun _ => .skip fun params _ => ?_) fun _ =>
      .skip fun _ _ => .skip fun params _ => ?_
  all_goals
    refine .skip fun _ _ => .skip fun _ _ => (gives_blockBody hstmt).bind fun _ _ hbody => ?_
    exact .pure ⟨.functionDecl result name.value params hbody _ _, fun _ => htype, nofun⟩

theorem makes_declarationStmt : Makes (declarationStmt g stmt) := by
  intro s
  show Gives (if _ then functionDecl stmt else variableDecl g) s _
  exact .ite (fun _ => makes_functionDecl hstmt s) fun _ => makes_variableDecl g s

/-- **What branches and loops govern is not a declaration:** where one begins, an expression is
read. -/
theorem gives_bodyStmt : Gives (bodyStmt g stmt) s Governed := by
  show Gives (if s.stream.current.kind.isType = true then expressionStmt g else stmt) s _
  refine .ite (fun _ => (gives_expressionStmt g).mono ?_) fun hkind => (hstmt s).mono ?_
  · rintro _ _ ⟨e, rfl⟩
    exact ⟨.expr e, rfl, nofun⟩
  · rintro x t ⟨hshapely, hdeclares, hdangles⟩
    exact ⟨hshapely, Bool.eq_false_iff.mpr fun h => hkind (hdeclares h), hdangles⟩

/-- **An `else` that is there is taken.**  So what precedes it does not end with an `if` that could
have taken it, and behind an `if` without `else` there is none. -/
theorem makes_branch : Makes (branch g stmt) := by
  intro s
  refine .skip fun t _ => .skip fun _ _ => .skip fun c _ => .skip fun _ _ => ?_
  refine (gives_bodyStmt g hstmt).bind fun yes u hyes => ?_
  refine (gives_accept (by decide)).bind fun other v hother => ?_
  refine .ite (fun htaken => (gives_bodyStmt g hstmt).map.bind ?_) fun hleft => .pure ?_
  · rintro _ w ⟨no, rfl, hno⟩
    rw [if_pos htaken] at hother
    have hclosed : yes.dangles = false := Bool.eq_false_iff.mpr fun h => hyes.dangles h hother
    exact .pure ⟨.ifElse c hyes.shapely hyes.declares hclosed hno.shapely hno.declares _, nofun,
      hno.dangles⟩
  · rw [if_neg hleft] at hother
    exact ⟨.ifOnly c hyes.shapely hyes.declares _, nofun, fun _ => hother⟩

theorem makes_whileLoop : Makes (whileLoop g stmt) := fun _ =>
  .skip fun _ _ => .skip fun _ _ => .skip fun c _ => .skip fun _ _ =>
    (gives_bodyStmt g hstmt).bind fun _ _ hbody =>
      .pure ⟨.whileLoop c hbody.shapely hbody.declares _, nofun, hbody.dangles⟩

theorem makes_forLoop : Makes (forLoop g stmt) := fun _ =>
  .skip fun _ _ => .skip fun _ _ => (gives_forInitial g).bind fun _ _ hinitial =>
    .skip fun c _ => .skip fun _ _ => .skip fun i _ => .skip fun _ _ =>
      (gives_bodyStmt g hstmt).bind fun _ _ hbody =>
        .pure ⟨.forLoop hinitial c i hbody.shapely hbody.declares _, nofun, hbody.dangles⟩

theorem makes_statement (form : StatementForm) : Makes (statement g stmt form) := by
  cases form with
  | declaration => exact makes_declarationStmt g hstmt
  | branch => exact makes_branch g hstmt
  | whileLoop => exact makes_whileLoop g hstmt
  | forLoop => exact makes_forLoop g hstmt
  | giveBack => exact makes_giveBack g
  | print => exact makes_print g
  | block => exact makes_block hstmt

end Rules

theorem makes_stmtWithin (g : Grammar) (n : Nat) : Makes (stmtWithin g n) := by
  induction n with
  | zero => exact makes_expressionStmt g
  | succ n ih =>
    intro s x t hrun
    unfold stmtWithin at hrun
    rw [current_bind] at hrun
    cases hform : g.statement? s.stream.current.kind with
    | none =>
      rw [hform] at hrun
      exact makes_expressionStmt g s x t hrun
    | some form =>
      rw [hform] at hrun
      exact makes_statement g ih form s x t hrun

theorem makes_stmt (g : Grammar) : Makes (stmt g) := fun s =>
  makes_stmtWithin g s.stream.remaining s

theorem gives_program (g : Grammar) : Gives (program g) s fun p _ => p.Shapely :=
  .skip fun n _ => (gives_statements _ (makes_stmt g) n).bind fun _ _ hxs => .pure hxs

end Parse

/-- **What is read has the right shape,** also where there are complaints: in the program that comes
of any tokens, at any depth, branches and loops govern no declarations, loop headers begin with the
declaration of a variable or with an expression, and what stands before an `else` does not end with
an `if` without `else`. -/
theorem parse_shapely (tokens : List Token) : (parse tokens).program.Shapely := by
  unfold parse
  cases hrun : Parse.program .standard ⟨TokenStream.ofTokens tokens, []⟩ with
  | ok program t => exact Parse.gives_program .standard program t hrun
  | error d t => exact nofun

end StackListing
