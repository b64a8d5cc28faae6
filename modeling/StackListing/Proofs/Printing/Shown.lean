import StackListing.Proofs.Printing.Parts

/-!
# What the text of a program shows

The text of a program does not show everything.  Positions are not printed.  An assignment is
printed without parentheses, also where it is called, so `(a = b)(c)` has the text of `a = b(c)`.
And a float that is too large to be finite is printed as `inf`, which is a name as well.  `shown`
is what is left: of all programs with the same text it takes one, the one in which every call stands
inside an assignment and `inf` is a name.

Where no assignment is called and no float is infinite, only positions are lost
(`Program.shown_eq_unplaced`).  What is shown of a program that was read from a source is `Settled`:
its words are such as a source can write them, and every `else` belongs to the nearest `if`.
-/

namespace StackListing

/-! ### What is shown -/

/-- What the text of a constant shows. -/
def Literal.shown : Literal → Expr
  | .float (.infinite false) => .var "inf" .unknown
  | value => .literal value .unknown

namespace Expr

/-- What the text of a call shows, if the callee is the value of an assignment. -/
def applied (arguments : List Expr) : Expr → Expr
  | assign name value _ => assign name (applied arguments value) .unknown
  | callee => call callee arguments .unknown

mutual

/-- **What the text of an expression shows.** -/
def shown : Expr → Expr
  | literal value _ => value.shown
  | var name _ => var name .unknown
  | unary op operand _ => unary op operand.shown .unknown
  | binary op left right _ => binary op left.shown right.shown .unknown
  | call callee arguments _ => callee.shown.applied (shownAll arguments)
  | assign name value _ => assign name value.shown .unknown

@[inherit_doc shown]
def shownAll : List Expr → List Expr
  | [] => []
  | e :: es => e.shown :: shownAll es

end

end Expr

namespace Stmt

mutual

/-- **What the text of a statement shows.** -/
def shown : Stmt → Stmt
  | expr e => expr e.shown
  | variableDecl type name initial _ => variableDecl type name (initial.map Expr.shown) .unknown
  | block body _ => block (shownAll body) .unknown
  | branch c yes no _ => branch c.shown yes.shown (shownOption no) .unknown
  | whileLoop c body _ => whileLoop c.shown body.shown .unknown
  | forLoop initial c i body _ =>
    forLoop (shownOption initial) (c.map Expr.shown) (i.map Expr.shown) body.shown .unknown
  | giveBack value _ => giveBack (value.map Expr.shown) .unknown
  | functionDecl result name parameters body _ _ =>
    functionDecl result name (parameters.map Parameter.unplaced) (shownAll body) .unknown .unknown
  | print e _ => print e.shown .unknown

@[inherit_doc shown]
def shownAll : List Stmt → List Stmt
  | [] => []
  | s :: rest => s.shown :: shownAll rest

@[inherit_doc shown]
def shownOption : Option Stmt → Option Stmt
  | none => none
  | some s => some s.shown

end

end Stmt

/-- **What the text of a program shows.** -/
def Program.shown (p : Program) : Program := ⟨Stmt.shownAll p.statements⟩

/-! ### What is shown has the same text -/

namespace Expr

theorem text_applied (arguments : List Expr) : ∀ callee : Expr,
    (callee.applied arguments).text =
      callee.text ++ "(" ++ ", ".intercalate (texts arguments) ++ ")"
  | assign name value p => by
    rw [applied, text, text_applied arguments value, text]
    simp only [String.append_assoc]
  | literal _ _ | var _ _ | unary _ _ _ | binary _ _ _ _ | call _ _ _ => by simp [applied, text]

mutual

theorem text_shown : ∀ e : Expr, e.shown.text = e.text
  | literal (.float (.infinite false)) _ => rfl
  | literal (.float (.infinite true)) _ | literal (.float (.finite _ _)) _
  | literal (.float .nan) _ | literal (.integer _) _ | literal (.string _) _
  | literal (.boolean _) _ => rfl
  | var _ _ => rfl
  | unary op operand _ => by rw [shown, text, text_shown operand, text]
  | binary op left right _ => by rw [shown, text, text_shown left, text_shown right, text]
  | call callee arguments _ => by
    rw [shown, text_applied, text_shown callee, texts_shownAll arguments, text]
  | assign name value _ => by rw [shown, text, text_shown value, text]

theorem texts_shownAll : ∀ es : List Expr, texts (shownAll es) = texts es
  | [] => rfl
  | e :: es => by rw [shownAll, texts, text_shown e, texts_shownAll es, texts]

end

theorem optionText_shown (e : Option Expr) :
    Stmt.optionText (e.map shown) = Stmt.optionText e := by
  cases e with
  | none => rfl
  | some e => exact e.text_shown

theorem valueText_shown (e : Option Expr) : Stmt.valueText (e.map shown) = Stmt.valueText e := by
  cases e with
  | none => rfl
  | some e => exact congrArg (" = " ++ ·) e.text_shown

end Expr

namespace Stmt

mutual

theorem text_shown : ∀ s : Stmt, s.shown.text = s.text
  | expr e => by rw [shown, text, e.text_shown, text]
  | variableDecl type name initial _ => by rw [shown, text, Expr.valueText_shown, text]
  | block body _ => by rw [shown, text, linesText_shownAll body, text]
  | branch c yes no _ => by
    rw [shown, text, c.text_shown, text_shown yes, elseText_shownOption no, text]
  | whileLoop c body _ => by rw [shown, text, c.text_shown, text_shown body, text]
  | forLoop initial c i body _ => by
    rw [shown, text, initialText_shownOption initial, Expr.optionText_shown, Expr.optionText_shown,
      text_shown body, text]
  | giveBack none _ => rfl
  | giveBack (some e) _ => by rw [shown, Option.map_some, text, e.text_shown, text]
  | functionDecl result name parameters body _ _ => by
    have hparameters : (parameters.map Parameter.unplaced).map (·.text) =
        parameters.map (·.text) := List.map_map
    rw [shown, text, hparameters, linesText_shownAll body, text]
  | print e _ => by rw [shown, text, e.text_shown, text]

theorem linesText_shownAll : ∀ ss : List Stmt, linesText (shownAll ss) = linesText ss
  | [] => rfl
  | s :: rest => by rw [shownAll, linesText, text_shown s, linesText_shownAll rest, linesText]

theorem elseText_shownOption : ∀ s : Option Stmt, elseText (shownOption s) = elseText s
  | none => rfl
  | some s => by rw [shownOption, elseText, text_shown s, elseText]

theorem initialText_shownOption : ∀ s : Option Stmt, initialText (shownOption s) = initialText s
  | none => rfl
  | some s => by rw [shownOption, initialText, text_shown s, initialText]

end

theorem map_text_shownAll : ∀ ss : List Stmt,
    (shownAll ss).map (·.text ++ "\n") = ss.map (·.text ++ "\n")
  | [] => rfl
  | s :: rest => by
    rw [shownAll, List.map_cons, List.map_cons, text_shown s, map_text_shownAll rest]

end Stmt

/-- **What is shown of a program has its text.** -/
theorem Program.text_shown (p : Program) : p.shown.text = p.text :=
  congrArg String.join (Stmt.map_text_shownAll p.statements)

/-! ### Where only positions are lost -/

namespace Expr

/-- The expression is no call of an assignment and no infinite constant. -/
def Evident : Expr → Prop
  | call callee _ _ => callee.isAssign = false
  | literal (.float (.infinite _)) _ => False
  | _ => True

instance : (e : Expr) → Decidable e.Evident
  | call callee _ _ => inferInstanceAs (Decidable (callee.isAssign = false))
  | literal (.float (.infinite _)) _ => isFalse id
  | literal (.float (.finite _ _)) _ | literal (.float .nan) _ | literal (.integer _) _
  | literal (.string _) _ | literal (.boolean _) _ | var _ _ | unary _ _ _ | binary _ _ _ _
  | assign _ _ _ => isTrue trivial

theorem applied_of_not_assign {callee : Expr} (h : callee.isAssign = false)
    (arguments : List Expr) : callee.applied arguments = call callee arguments .unknown := by
  cases callee with
  | assign => cases h
  | _ => rfl

theorem isAssign_unplaced (e : Expr) : e.unplaced.isAssign = e.isAssign := by
  cases e <;> rfl

mutual

theorem shown_eq_unplaced : ∀ e : Expr, (∀ x ∈ e.parts, x.Evident) → e.shown = e.unplaced
  | literal (.float (.infinite _)) _, h => absurd (h _ List.mem_cons_self) id
  | literal (.float (.finite _ _)) _, _ | literal (.float .nan) _, _ | literal (.integer _) _, _
  | literal (.string _) _, _ | literal (.boolean _) _, _ | var _ _, _ => rfl
  | unary op operand _, h => by
    simp only [parts, List.forall_mem_cons] at h
    rw [shown, unplaced, shown_eq_unplaced operand h.2]
  | binary op left right _, h => by
    simp only [parts, List.forall_mem_cons, List.forall_mem_append] at h
    rw [shown, unplaced, shown_eq_unplaced left h.2.1, shown_eq_unplaced right h.2.2]
  | call callee arguments _, h => by
    simp only [parts, List.forall_mem_cons, List.forall_mem_append] at h
    have hcallee : callee.unplaced.isAssign = false := callee.isAssign_unplaced.trans h.1
    rw [shown, unplaced, shown_eq_unplaced callee h.2.1, shownAll_eq_unplacedAll arguments h.2.2,
      applied_of_not_assign hcallee]
  | assign name value _, h => by
    simp only [parts, List.forall_mem_cons] at h
    rw [shown, unplaced, shown_eq_unplaced value h.2]

theorem shownAll_eq_unplacedAll : ∀ es : List Expr, (∀ x ∈ partsAll es, x.Evident) →
    shownAll es = unplacedAll es
  | [], _ => rfl
  | e :: es, h => by
    simp only [partsAll, List.forall_mem_append] at h
    rw [shownAll, unplacedAll, shown_eq_unplaced e h.1, shownAll_eq_unplacedAll es h.2]

end

theorem map_shown_eq_map_unplaced : ∀ e : Option Expr, (∀ x ∈ partsOption e, x.Evident) →
    e.map shown = e.map unplaced
  | none, _ => rfl
  | some e, h => congrArg some (e.shown_eq_unplaced h)

end Expr

namespace Stmt

mutual

theorem shown_eq_unplaced : ∀ s : Stmt, (∀ x ∈ s.parts, x.Evident) → s.shown = s.unplaced
  | expr e, h => by rw [shown, unplaced, e.shown_eq_unplaced h]
  | variableDecl type name initial _, h => by
    rw [shown, unplaced, Expr.map_shown_eq_map_unplaced initial h]
  | block body _, h => by rw [shown, unplaced, shownAll_eq_unplacedAll body h]
  | branch c yes no _, h => by
    simp only [parts, List.forall_mem_append] at h
    rw [shown, unplaced, c.shown_eq_unplaced h.1, shown_eq_unplaced yes h.2.1,
      shownOption_eq_unplacedOption no h.2.2]
  | whileLoop c body _, h => by
    simp only [parts, List.forall_mem_append] at h
    rw [shown, unplaced, c.shown_eq_unplaced h.1, shown_eq_unplaced body h.2]
  | forLoop initial c i body _, h => by
    simp only [parts, List.forall_mem_append] at h
    rw [shown, unplaced, shownOption_eq_unplacedOption initial h.1,
      Expr.map_shown_eq_map_unplaced c h.2.1, Expr.map_shown_eq_map_unplaced i h.2.2.1,
      shown_eq_unplaced body h.2.2.2]
  | giveBack value _, h => by rw [shown, unplaced, Expr.map_shown_eq_map_unplaced value h]
  | functionDecl result name parameters body _ _, h => by
    rw [shown, unplaced, shownAll_eq_unplacedAll body h]
  | print e _, h => by rw [shown, unplaced, e.shown_eq_unplaced h]

theorem shownAll_eq_unplacedAll : ∀ ss : List Stmt, (∀ x ∈ partsAll ss, x.Evident) →
    shownAll ss = unplacedAll ss
  | [], _ => rfl
  | s :: rest, h => by
    simp only [partsAll, List.forall_mem_append] at h
    rw [shownAll, unplacedAll, shown_eq_unplaced s h.1, shownAll_eq_unplacedAll rest h.2]

theorem shownOption_eq_unplacedOption : ∀ s : Option Stmt, (∀ x ∈ partsOption s, x.Evident) →
    shownOption s = unplacedOption s
  | none, _ => rfl
  | some s, h => by rw [shownOption, unplacedOption, shown_eq_unplaced s h]

end

end Stmt

/-- **Where no assignment is called and no float is infinite, only positions are lost.** -/
theorem Program.shown_eq_unplaced (p : Program) (h : ∀ x ∈ p.parts, x.Evident) :
    p.shown = p.unplaced :=
  congrArg Program.mk (Stmt.shownAll_eq_unplacedAll p.statements h)

/-! ### What is shown of sources -/

/-- **An expression as the text of a source shows it.** -/
inductive Expr.Settled : Expr → Prop
  | integer (n : Nat) : Settled (.literal (.integer n) .unknown)
  | float {u : Nat} (hu : Binary64.Representable u) :
      Settled (.literal (.float (.finite false u)) .unknown)
  | string {s : String} (hs : '"' ∉ s.toList) : Settled (.literal (.string s) .unknown)
  | boolean (b : Bool) : Settled (.literal (.boolean b) .unknown)
  | var {name : String} (hname : IsName name) : Settled (.var name .unknown)
  | unary (op : UnaryOp) {operand : Expr} (h : Settled operand) :
      Settled (.unary op operand .unknown)
  | binary (op : BinaryOp) {left right : Expr} (hl : Settled left) (hr : Settled right) :
      Settled (.binary op left right .unknown)
  | call {callee : Expr} {arguments : List Expr} (hassign : callee.isAssign = false)
      (hc : Settled callee) (ha : ∀ x ∈ arguments, Settled x) :
      Settled (.call callee arguments .unknown)
  | assign {name : String} {value : Expr} (hname : IsName name) (hv : Settled value) :
      Settled (.assign name value .unknown)

/-- A parameter as the text of a source shows it. -/
def Parameter.Settled (p : Parameter) : Prop := IsName p.name ∧ p.position = .unknown

namespace Stmt

mutual

/-- Whether an `else` behind the statement would belong to an `if` inside it. -/
def dangles : Stmt → Bool
  | branch _ _ no _ => danglesOption no
  | whileLoop _ body _ => body.dangles
  | forLoop _ _ _ body _ => body.dangles
  | _ => false

/-- Whether an `else` behind the alternative of a branch would belong to the branch, or to an `if`
inside the alternative. -/
def danglesOption : Option Stmt → Bool
  | none => true
  | some s => s.dangles

end

/-- **A statement as the text of a source shows it.** -/
inductive Settled : Stmt → Prop
  | expr {e : Expr} (he : e.Settled) : Settled (expr e)
  | variableDecl (type : ValueType) {name : String} {initial : Option Expr} (hname : IsName name)
      (hi : ∀ e ∈ initial, e.Settled) : Settled (variableDecl type name initial .unknown)
  | block {body : List Stmt} (hb : ∀ s ∈ body, Settled s) : Settled (block body .unknown)
  | ifOnly {c : Expr} {yes : Stmt} (hc : c.Settled) (hyes : Settled yes) :
      Settled (branch c yes none .unknown)
  | ifElse {c : Expr} {yes no : Stmt} (hc : c.Settled) (hyes : Settled yes)
      (hclosed : yes.dangles = false) (hno : Settled no) :
      Settled (branch c yes (some no) .unknown)
  | whileLoop {c : Expr} {body : Stmt} (hc : c.Settled) (hb : Settled body) :
      Settled (whileLoop c body .unknown)
  | forLoop {initial : Option Stmt} {c i : Option Expr} {body : Stmt}
      (hinitial : ∀ s ∈ initial, Settled s) (hclosed : ∀ s ∈ initial, s.dangles = false)
      (hc : ∀ e ∈ c, e.Settled) (hi : ∀ e ∈ i, e.Settled) (hb : Settled body) :
      Settled (forLoop initial c i body .unknown)
  | giveBack {value : Option Expr} (hv : ∀ e ∈ value, e.Settled) :
      Settled (giveBack value .unknown)
  | functionDecl (result : ValueType) {name : String} {parameters : List Parameter}
      {body : List Stmt} (hname : IsName name)
      (hp : ∀ p ∈ parameters, p.Settled)
      (hb : ∀ s ∈ body, Settled s) :
      Settled (functionDecl result name parameters body .unknown .unknown)
  | print {e : Expr} (he : e.Settled) : Settled (print e .unknown)

end Stmt

namespace Expr

theorem settled_applied {arguments : List Expr} (ha : ∀ x ∈ arguments, x.Settled) {callee : Expr}
    (h : callee.Settled) : (callee.applied arguments).Settled := by
  induction h with
  | assign hname _ ih => exact .assign hname ih
  | call hassign hc ha' => exact .call rfl (.call hassign hc ha') ha
  | integer n => exact .call rfl (.integer n) ha
  | float hu => exact .call rfl (.float hu) ha
  | string hs => exact .call rfl (.string hs) ha
  | boolean b => exact .call rfl (.boolean b) ha
  | var hname => exact .call rfl (.var hname) ha
  | unary op h => exact .call rfl (.unary op h) ha
  | binary op hl hr => exact .call rfl (.binary op hl hr) ha

theorem settled_literal {value : Literal} {p : Position} (h : (literal value p).Lexical) :
    value.shown.Settled := by
  cases value with
  | integer n =>
    obtain ⟨m, rfl⟩ := Int.eq_ofNat_of_zero_le h.1
    exact .integer m
  | float x =>
    cases h with
    | infinite => exact .var ⟨by decide, by decide⟩
    | finite hu => exact .float hu
  | string s => exact .string h
  | boolean b => exact .boolean b

mutual

theorem settled_shown : ∀ e : Expr, (∀ x ∈ e.parts, x.Lexical) → e.shown.Settled
  | literal value p, h => settled_literal (h _ List.mem_cons_self)
  | var name _, h => .var (h _ List.mem_cons_self)
  | unary op operand _, h => by
    simp only [parts, List.forall_mem_cons] at h
    exact .unary op (settled_shown operand h.2)
  | binary op left right _, h => by
    simp only [parts, List.forall_mem_cons, List.forall_mem_append] at h
    exact .binary op (settled_shown left h.2.1) (settled_shown right h.2.2)
  | call callee arguments _, h => by
    simp only [parts, List.forall_mem_cons, List.forall_mem_append] at h
    exact settled_applied (settled_shownAll arguments h.2.2) (settled_shown callee h.2.1)
  | assign name value _, h => by
    simp only [parts, List.forall_mem_cons] at h
    exact .assign h.1 (settled_shown value h.2)

theorem settled_shownAll : ∀ es : List Expr, (∀ x ∈ partsAll es, x.Lexical) →
    ∀ x ∈ shownAll es, x.Settled
  | [], _ => by simp [shownAll]
  | e :: es, h => by
    simp only [partsAll, List.forall_mem_append] at h
    simp only [shownAll, List.forall_mem_cons]
    exact ⟨settled_shown e h.1, settled_shownAll es h.2⟩

end

end Expr

/-! ### Derivations -/

theorem ExprTree.settled {p : Power} (d : ExprTree p) (h : ∀ t ∈ d.tokens, t.WellFormed) :
    d.expr.shown.Settled := d.expr.settled_shown (d.lexical h)

theorem OptionTree.settled (d : OptionTree) (h : ∀ t ∈ d.tokens, t.WellFormed) :
    ∀ e ∈ d.expr.map Expr.shown, e.Settled := by
  cases d with
  | none => exact nofun
  | some d =>
    rintro e ⟨⟩
    exact d.settled h

theorem VariableTree.settled (v : VariableTree) (h : ∀ t ∈ v.tokens, t.WellFormed) :
    v.stmt.shown.Settled := by
  simp only [tokens, List.forall_mem_cons, List.forall_mem_append] at h
  refine .variableDecl _ (h.2.1.name v.name.2) ?_
  rcases hinitial : v.initial with _ | ⟨sign, d⟩
  · exact nofun
  · rintro e ⟨⟩
    rw [hinitial] at h
    simp only [InitialTree.tokens, Option.elim_some, List.forall_mem_cons] at h
    exact d.settled h.2.2.1.2

theorem HeaderTree.settled (d : HeaderTree) (h : ∀ t ∈ d.tokens, t.WellFormed) :
    (∀ s ∈ Stmt.shownOption d.stmt, s.Settled) ∧
      ∀ s ∈ Stmt.shownOption d.stmt, s.dangles = false := by
  cases d with
  | absent semi => exact ⟨nofun, nofun⟩
  | var v =>
    refine ⟨?_, ?_⟩ <;> rintro s ⟨⟩
    · exact v.settled h
    · rfl
  | expr e semi =>
    simp only [tokens, List.forall_mem_append] at h
    refine ⟨?_, ?_⟩ <;> rintro s ⟨⟩
    · exact .expr (e.settled h.1)
    · rfl

theorem ParameterTrees.settled : ∀ d : ParameterTrees, (∀ t ∈ d.tokens, t.WellFormed) →
    ∀ p ∈ d.parameters.map Parameter.unplaced, p.Settled
  | .one p, h => by
    simp only [tokens, ParameterTree.tokens, List.forall_mem_cons] at h
    simp only [parameters, List.map_cons, List.map_nil, List.forall_mem_singleton]
    exact ⟨h.2.1.name p.name.2, rfl⟩
  | .more p comma rest, h => by
    simp only [tokens, ParameterTree.tokens, List.forall_mem_append, List.forall_mem_cons] at h
    simp only [parameters, List.map_cons, List.forall_mem_cons]
    exact ⟨⟨h.1.2.1.name p.name.2, rfl⟩, rest.settled h.2.2⟩

mutual

/-- **What is shown of a statement that was read is settled.** -/
theorem StmtTree.settled : ∀ d : StmtTree, (∀ t ∈ d.tokens, t.WellFormed) → d.stmt.shown.Settled
  | .body s, h => (s.settled h).1
  | .var v, h => v.settled h
  | .function type name l parameters r lb body rb, h => by
    simp only [StmtTree.tokens, List.forall_mem_cons, List.forall_mem_append] at h
    obtain ⟨-, hname, -, hparameters, -, -, hbody, -⟩ := h
    refine .functionDecl _ (hname.name name.2) ?_ (body.settled hbody)
    cases parameters with
    | none => exact nofun
    | some ps => exact ps.settled hparameters

theorem StmtTrees.settled : ∀ d : StmtTrees, (∀ t ∈ d.tokens, t.WellFormed) →
    ∀ s ∈ Stmt.shownAll d.stmts, s.Settled
  | .nil, _ => by simp [StmtTrees.stmts, Stmt.shownAll]
  | .cons s rest, h => by
    simp only [StmtTrees.tokens, List.forall_mem_append] at h
    simp only [StmtTrees.stmts, Stmt.shownAll, List.forall_mem_cons]
    exact ⟨s.settled h.1, rest.settled h.2⟩

/-- An `else` behind a body is left alone exactly if the derivation says so. -/
theorem BodyTree.settled {o : Bool} : ∀ d : BodyTree o, (∀ t ∈ d.tokens, t.WellFormed) →
    d.stmt.shown.Settled ∧ d.stmt.shown.dangles = o
  | .block l body r, h => by
    simp only [BodyTree.tokens, List.forall_mem_cons, List.forall_mem_append] at h
    exact ⟨.block (body.settled h.2.1), rfl⟩
  | .ifOnly kw l c r yes, h => by
    simp only [BodyTree.tokens, List.forall_mem_cons, List.forall_mem_append] at h
    exact ⟨.ifOnly (c.settled h.2.2.1) (yes.settled h.2.2.2.2).1, rfl⟩
  | .ifElse kw l c r yes kw' no, h => by
    simp only [BodyTree.tokens, List.forall_mem_cons, List.forall_mem_append] at h
    obtain ⟨-, -, hc, -, hyes, -, hno⟩ := h
    obtain ⟨hyes, hclosed⟩ := yes.settled hyes
    obtain ⟨hno, hdangles⟩ := no.settled hno
    exact ⟨.ifElse (c.settled hc) hyes hclosed hno, hdangles⟩
  | .whileLoop kw l c r body, h => by
    simp only [BodyTree.tokens, List.forall_mem_cons, List.forall_mem_append] at h
    obtain ⟨hbody, hdangles⟩ := body.settled h.2.2.2.2
    exact ⟨.whileLoop (c.settled h.2.2.1) hbody, hdangles⟩
  | .forLoop kw l initial c semi i r body, h => by
    simp only [BodyTree.tokens, List.forall_mem_cons, List.forall_mem_append] at h
    obtain ⟨-, -, hinitial, hc, -, hi, -, hbody⟩ := h
    obtain ⟨hbody, hdangles⟩ := body.settled hbody
    obtain ⟨hinitial, hclosed⟩ := initial.settled hinitial
    exact ⟨.forLoop hinitial hclosed (OptionTree.settled c hc) (OptionTree.settled i hi) hbody,
      hdangles⟩
  | .giveBack kw value semi, h => by
    simp only [BodyTree.tokens, List.forall_mem_cons, List.forall_mem_append] at h
    exact ⟨.giveBack (OptionTree.settled value h.2.1), rfl⟩
  | .print kw l e r semi, h => by
    simp only [BodyTree.tokens, List.forall_mem_cons, List.forall_mem_append] at h
    exact ⟨.print (e.settled h.2.2.1), rfl⟩
  | .expr e semi, h => by
    simp only [BodyTree.tokens, List.forall_mem_append] at h
    exact ⟨.expr (e.settled h.1), rfl⟩

end

end StackListing
