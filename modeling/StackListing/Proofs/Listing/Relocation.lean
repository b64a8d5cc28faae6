import StackListing.Draft

/-!
# Code can be moved

Code is added to a draft line by line, and its labels are numbered from wherever the draft has come
to.  What is added does not depend on the lines that are there, and on the number only by a shift:
adding to a draft is the same as adding to an empty one and linking the two (`Draft.link`), that is,
appending the lines with the numbers of all labels raised.

There are two steps to this.  The lines that a draft gets are the code of the expression or the
statement, begun at the number of the draft (`Draft.addStmt_eq`).  And code that begins at a greater
number is the same code with its labels raised (`Stmt.code_raised`).
-/

namespace StackListing

/-! ### Raised labels -/

/-- The label with its number raised by `k`. -/
def Label.raised (k : Nat) (l : Label) : Label := ⟨l.stem, l.id + k⟩

@[inherit_doc Label.raised]
def Operand.raised (k : Nat) : Operand → Operand
  | .label l => .label (l.raised k)
  | .register r => .register r
  | .immediate n => .immediate n
  | .memory name => .memory name

/-- The instruction with the numbers of its labels raised by `k`. -/
def Instruction.raised (k : Nat) : Instruction → Instruction
  | .mov target source => .mov (target.raised k) (source.raised k)
  | .add target source => .add (target.raised k) (source.raised k)
  | .sub target source => .sub (target.raised k) (source.raised k)
  | .cmp left right => .cmp (left.raised k) (right.raised k)
  | .jmp target => .jmp (target.raised k)
  | .je target => .je (target.raised k)
  | i => i

/-- The line with the numbers of its labels raised by `k`. -/
def Line.raised (k : Nat) : Line → Line
  | .code i remark => .code (i.raised k) remark
  | .label l => .label (l.raised k)
  | line => line

/-- **The listing with the numbers of all labels raised by `k`.** -/
def Listing.raised (k : Nat) (lines : Listing) : Listing := lines.map (Line.raised k)

@[simp] theorem Listing.raised_append (k : Nat) (xs ys : Listing) :
    Listing.raised k (xs ++ ys) = Listing.raised k xs ++ Listing.raised k ys := List.map_append

/-! ### Code from a greater number on -/

theorem Literal.code_raised (value : Literal) (n k : Nat) :
    value.code (n + k) = (value.code n).raised k := by
  cases value <;> rfl

theorem UnaryOp.raised_code (op : UnaryOp) (k : Nat) : Listing.raised k op.code = op.code := by
  cases op <;> rfl

theorem BinaryOp.raised_code (op : BinaryOp) (k : Nat) : Listing.raised k op.code = op.code := by
  cases op <;> rfl

namespace Expr

theorem raised_cleanup (count k : Nat) : Listing.raised k (cleanup count) = cleanup count := by
  rw [cleanup]
  split <;> rfl

mutual

/-- **The code of an expression from a greater number on.** -/
theorem code_raised : ∀ (e : Expr) (n k : Nat), e.code (n + k) = (e.code n).raised k
  | literal value _, n, k => value.code_raised n k
  | var _ _, _, _ => rfl
  | unary op operand _, n, k => by
    simp only [code, code_raised operand, Listing.raised_append, UnaryOp.raised_code]
  | binary op left right _, n, k => by
    simp only [code, Nat.add_right_comm n k, code_raised left, code_raised right,
      Listing.raised_append, BinaryOp.raised_code]
    rfl
  | call callee arguments _, n, k => by
    rw [code, code]
    cases callee.name? with
    | none => rfl
    | some name =>
      simp only [codeAll_raised arguments, Listing.raised_append, raised_cleanup]
      rfl
  | assign _ value _, n, k => by
    simp only [code, code_raised value, Listing.raised_append]
    rfl

theorem codeAll_raised : ∀ (es : List Expr) (n index k : Nat),
    codeAll (n + k) index es = (codeAll n index es).raised k
  | [], _, _, _ => rfl
  | e :: es, n, index, k => by
    simp only [codeAll, Nat.add_right_comm n k, code_raised e, codeAll_raised es,
      Listing.raised_append]
    rfl

end

theorem codeOption_raised (e : Option Expr) (n k : Nat) :
    codeOption (n + k) e = (codeOption n e).raised k := by
  cases e with
  | none => rfl
  | some e => exact e.code_raised n k

end Expr

namespace Stmt

theorem giveBackCode_raised (value : Option Expr) (n k : Nat) :
    giveBackCode (n + k) value = (giveBackCode n value).raised k := by
  cases value with
  | none => rfl
  | some e => exact e.code_raised n k

theorem variableCode_raised (name : String) (initial : Option Expr) (n k : Nat) :
    variableCode (n + k) name initial = (variableCode n name initial).raised k := by
  cases initial with
  | none => rfl
  | some e =>
    rw [variableCode, variableCode, e.code_raised, Listing.raised_append]
    rfl

theorem conditionCode_raised (exit : Label) (c : Option Expr) (n k : Nat) :
    conditionCode (n + k) (exit.raised k) c = (conditionCode n exit c).raised k := by
  cases c with
  | none => rfl
  | some e =>
    rw [conditionCode, conditionCode, e.code_raised, Listing.raised_append]
    rfl

mutual

/-- **The code of a statement from a greater number on.** -/
theorem code_raised : ∀ (s : Stmt) (n k : Nat), s.code (n + k) = (s.code n).raised k
  | expr e, n, k => e.code_raised n k
  | print e _, n, k => by
    simp only [code, e.code_raised, Listing.raised_append]
    rfl
  | giveBack value _, n, k => by
    simp only [code, giveBackCode_raised, Listing.raised_append]
    rfl
  | variableDecl _ name initial _, n, k => by
    simp only [code, variableCode_raised, Listing.raised_append]
    rfl
  | block body _, n, k => by
    simp only [code, codeAll_raised body, Listing.raised_append]
    rfl
  | branch c yes no _, n, k => by
    simp only [code, Nat.add_right_comm n k, Nat.add_right_comm _ k, c.code_raised,
      code_raised yes, codeOption_raised no, Listing.raised_append]
    rfl
  | whileLoop c body _, n, k => by
    simp only [code, Nat.add_right_comm n k, Nat.add_right_comm _ k, c.code_raised,
      code_raised body, Listing.raised_append]
    rfl
  | forLoop initial c i body _, n, k => by
    -- the exit of the loop is a label of the condition's code, raised with it
    have hcondition (m : Nat) := conditionCode_raised ⟨"endfor", n + 1⟩ c m k
    simp only [Label.raised] at hcondition
    simp only [code, Nat.add_right_comm n k, Nat.add_right_comm _ k, hcondition,
      code_raised body, codeOption_raised initial, Expr.codeOption_raised, Listing.raised_append]
    rfl
  | functionDecl _ name _ body _ _, n, k => by
    simp only [code, codeAll_raised body, Listing.raised_append]
    rfl

theorem codeAll_raised : ∀ (body : List Stmt) (n k : Nat),
    codeAll (n + k) body = (codeAll n body).raised k
  | [], _, _ => rfl
  | s :: rest, n, k => by
    simp only [codeAll, Nat.add_right_comm n k, code_raised s, codeAll_raised rest,
      Listing.raised_append]

theorem codeOption_raised : ∀ (s : Option Stmt) (n k : Nat),
    codeOption (n + k) s = (codeOption n s).raised k
  | none, _, _ => rfl
  | some s, n, k => code_raised s n k

end

end Stmt

/-! ### What is added to a draft -/

namespace Draft

theorem addLiteral_eq (d : Draft) (value : Literal) :
    d.addLiteral value = ⟨d.lines ++ value.code d.next, d.next + value.labels⟩ := by
  cases value <;> rfl

mutual

/-- **The lines that the code of an expression adds.** -/
theorem addExpr_eq : ∀ (d : Draft) (e : Expr),
    d.addExpr e = ⟨d.lines ++ e.code d.next, d.next + e.labels⟩
  | d, .literal value _ => d.addLiteral_eq value
  | d, .var _ _ => rfl
  | d, .unary op operand _ => by
    simp [addExpr, addExpr_eq, add, Expr.code, Expr.labels]
  | d, .binary op left right _ => by
    simp [addExpr, addExpr_eq, add, Expr.code, Expr.labels, Nat.add_assoc]
  | d, .call callee arguments _ => by
    rw [addExpr, Expr.code, Expr.labels]
    cases callee.name? with
    | none => simp
    | some name => simp [addArguments_eq, add]
  | d, .assign _ value _ => by
    simp [addExpr, addExpr_eq, add, Expr.code, Expr.labels]

theorem addArguments_eq : ∀ (d : Draft) (index : Nat) (es : List Expr),
    d.addArguments index es =
      ⟨d.lines ++ Expr.codeAll d.next index es, d.next + Expr.labelsAll es⟩
  | d, _, [] => by simp [addArguments, Expr.codeAll, Expr.labelsAll]
  | d, index, e :: es => by
    simp [addArguments, addArguments_eq, addExpr_eq, add, Expr.codeAll, Expr.labelsAll,
      Nat.add_assoc]

end

theorem addOptional_eq (d : Draft) (lines : Listing) (e : Option Expr) :
    d.addOptional lines e =
      ⟨d.lines ++ Expr.codeOption d.next e ++ (if e.isSome then lines else []),
        d.next + Expr.labelsOption e⟩ := by
  cases e with
  | none => simp [addOptional, Expr.codeOption, Expr.labelsOption]
  | some e => simp [addOptional, addExpr_eq, add, Expr.codeOption, Expr.labelsOption]

theorem addGiveBack_eq (d : Draft) (value : Option Expr) :
    d.addGiveBack value =
      ⟨d.lines ++ Stmt.giveBackCode d.next value, d.next + Expr.labelsOption value⟩ := by
  cases value with
  | none => rfl
  | some e => exact d.addExpr_eq e

mutual

/-- **The lines that the code of a statement adds.** -/
theorem addStmt_eq : ∀ (d : Draft) (s : Stmt),
    d.addStmt s = ⟨d.lines ++ s.code d.next, d.next + s.labels⟩
  | d, .expr e => d.addExpr_eq e
  | d, .print e _ => by simp [addStmt, addExpr_eq, add, Stmt.code, Stmt.labels]
  | d, .giveBack value _ => by simp [addStmt, addGiveBack_eq, add, Stmt.code, Stmt.labels]
  | d, .variableDecl _ name initial _ => by
    cases initial <;> simp [addStmt, addOptional_eq, add, Stmt.code, Stmt.labels,
      Stmt.variableCode, Expr.codeOption]
  | d, .block body _ => by simp [addStmt, addStmts_eq, add, Stmt.code, Stmt.labels]
  | d, .branch c yes no _ => by
    simp [addStmt, newLabel, addExpr_eq, addStmt_eq, addOption_eq, add, Stmt.code, Stmt.labels,
      Nat.add_assoc]
  | d, .whileLoop c body _ => by
    simp [addStmt, newLabel, addExpr_eq, addStmt_eq, add, Stmt.code, Stmt.labels, Nat.add_assoc]
  | d, .forLoop initial c i body _ => by
    cases c <;> simp [addStmt, newLabel, addOptional_eq, addStmt_eq, addOption_eq, add, Stmt.code,
      Stmt.labels, Stmt.conditionCode, Expr.codeOption, Nat.add_assoc]
  | d, .functionDecl _ name _ body _ _ => by
    simp [addStmt, addStmts_eq, add, Stmt.code, Stmt.labels]

theorem addStmts_eq : ∀ (d : Draft) (body : List Stmt),
    d.addStmts body = ⟨d.lines ++ Stmt.codeAll d.next body, d.next + Stmt.labelsAll body⟩
  | d, [] => by simp [addStmts, Stmt.codeAll, Stmt.labelsAll]
  | d, s :: rest => by
    simp [addStmts, addStmt_eq, addStmts_eq, Stmt.codeAll, Stmt.labelsAll, Nat.add_assoc]

theorem addOption_eq : ∀ (d : Draft) (s : Option Stmt),
    d.addOption s = ⟨d.lines ++ Stmt.codeOption d.next s, d.next + Stmt.labelsOption s⟩
  | d, none => by simp [addOption, Stmt.codeOption, Stmt.labelsOption]
  | d, some s => d.addStmt_eq s

end

/-! ### Links -/

/-- **Two drafts linked:** the lines of the first, and those of the second with the numbers of their
labels raised by the number to which the first has come. -/
def link (d e : Draft) : Draft := ⟨d.lines ++ e.lines.raised d.next, d.next + e.next⟩

/-- Code that only shifts with the number at which it begins is added to a draft by linking what it
adds to an empty one. -/
theorem link_of_raised (d : Draft) (code : Nat → Listing) (labels : Nat)
    (hcode : ∀ n k, code (n + k) = (code n).raised k) :
    (⟨d.lines ++ code d.next, d.next + labels⟩ : Draft) =
      d.link ⟨empty.lines ++ code empty.next, empty.next + labels⟩ := by
  have hshift : code d.next = (code 0).raised d.next := by rw [← hcode, Nat.zero_add]
  simp [link, empty, hshift]

theorem addExpr_eq_link (d : Draft) (e : Expr) : d.addExpr e = d.link (empty.addExpr e) := by
  rw [addExpr_eq d, addExpr_eq empty]
  exact d.link_of_raised (e.code ·) _ e.code_raised

theorem addStmt_eq_link (d : Draft) (s : Stmt) : d.addStmt s = d.link (empty.addStmt s) := by
  rw [addStmt_eq d, addStmt_eq empty]
  exact d.link_of_raised (s.code ·) _ s.code_raised

theorem addStmts_eq_link (d : Draft) (body : List Stmt) :
    d.addStmts body = d.link (empty.addStmts body) := by
  rw [addStmts_eq d, addStmts_eq empty]
  exact d.link_of_raised (Stmt.codeAll · body) _ (Stmt.codeAll_raised body)

theorem addStmts_append (d : Draft) (a b : List Stmt) :
    d.addStmts (a ++ b) = (d.addStmts a).addStmts b := by
  induction a generalizing d with
  | nil => rfl
  | cons s a ih => rw [List.cons_append, addStmts, ih, addStmts]

/-- The lines of a whole program stand around those that its statements add. -/
theorem code_eq_addStmts (p : Program) :
    p.code 0 = Program.header ++ (empty.addStmts p.statements).lines ++ Program.footer := by
  simp [Program.code, addStmts_eq, empty]

/-- The header takes no label, so a program added to an empty draft is the program's listing. -/
theorem lines_addProgram (p : Program) : (empty.addProgram p).lines = p.code 0 := by
  simp [addProgram, addStmts_eq, add, empty, Program.code]

/-- **Adding code is linking.**  The code of an expression or a statement leaves the lines of a draft
as they are, and puts behind them the lines that it adds to an empty draft with all labels raised by
the number of the draft; that number grows by what it grows for an empty one.  So between the header
and the footer of the listing of two lists of statements stand the lines of the first list and the
raised lines of the second. -/
theorem adding_links :
    (∀ (d : Draft) (e : Expr), d.addExpr e = d.link (empty.addExpr e)) ∧
      (∀ (d : Draft) (s : Stmt), d.addStmt s = d.link (empty.addStmt s)) ∧
      (∀ p : Program, (empty.addProgram p).lines = p.code 0) ∧
      ∀ a b : List Stmt,
        Program.code 0 ⟨a⟩ = Program.header ++ (empty.addStmts a).lines ++ Program.footer ∧
          Program.code 0 ⟨a ++ b⟩ =
            Program.header ++ ((empty.addStmts a).link (empty.addStmts b)).lines ++
              Program.footer := by
  refine ⟨addExpr_eq_link, addStmt_eq_link, lines_addProgram, fun a b => ⟨code_eq_addStmts ⟨a⟩, ?_⟩⟩
  rw [← addStmts_eq_link, ← addStmts_append]
  exact code_eq_addStmts ⟨a ++ b⟩

end Draft

end StackListing
