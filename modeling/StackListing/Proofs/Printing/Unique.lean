import StackListing.Proofs.Printing.ExprUnique
import StackListing.Proofs.Printing.RoundTrip

/-!
# Texts of programs are unambiguous

The text of a settled statement tells it (`Stmt.Settled.tells`): its first word tells what kind of
statement it is, and its parts are told one after the other.  The one text that could belong to what
stands before it is ` else `; it does not follow a statement that would take it.

So two sources are printed alike exactly if what is shown of their programs is the same.
-/

namespace StackListing

/-! ### Characters of statements -/

/-- The characters of a parameter's text. -/
def Parameter.chars (p : Parameter) : List Char := p.text.toList

namespace Stmt

/-- The characters of a statement's text. -/
def chars (s : Stmt) : List Char := s.text.toList

/-- The characters of the statements of a block. -/
def linesChars (ss : List Stmt) : List Char := (linesText ss).toList

theorem chars_expr (e : Expr) (r : List Char) : (expr e).chars ++ r = e.chars ++ ';' :: r := by
  simp [chars, text, Expr.chars]

theorem chars_variableDecl (type : ValueType) (name : String) (initial : Option Expr)
    (p : Position) (r : List Char) : (variableDecl type name initial p).chars ++ r =
      type.name.toList ++ ' ' :: (name.toList ++ ((valueText initial).toList ++ ';' :: r)) := by
  simp [chars, text]

theorem chars_block (body : List Stmt) (p : Position) (r : List Char) :
    (block body p).chars ++ r = '\x7b' :: '\n' :: (linesChars body ++ '\x7d' :: r) := by
  simp [chars, text, linesChars]

theorem chars_branch (c : Expr) (yes : Stmt) (no : Option Stmt) (p : Position) (r : List Char) :
    (branch c yes no p).chars ++ r = ['i', 'f', ' ', '('] ++ (c.chars ++ ')' :: ' ' ::
      (yes.chars ++ ((elseText no).toList ++ r))) := by
  simp [chars, text, Expr.chars]

theorem chars_whileLoop (c : Expr) (body : Stmt) (p : Position) (r : List Char) :
    (whileLoop c body p).chars ++ r = ['w', 'h', 'i', 'l', 'e', ' ', '('] ++ (c.chars ++
      ')' :: ' ' :: (body.chars ++ r)) := by
  simp [chars, text, Expr.chars]

theorem chars_forLoop (initial : Option Stmt) (c i : Option Expr) (body : Stmt) (p : Position)
    (r : List Char) : (forLoop initial c i body p).chars ++ r =
      ['f', 'o', 'r', ' ', '('] ++ ((initialText initial).toList ++ ((optionText c).toList ++
        ';' :: ' ' :: ((optionText i).toList ++ ')' :: ' ' :: (body.chars ++ r)))) := by
  simp [chars, text]

theorem chars_giveBack_none (p : Position) (r : List Char) :
    (giveBack none p).chars ++ r = ['r', 'e', 't', 'u', 'r', 'n'] ++ ';' :: r := by
  simp [chars, text]

theorem chars_giveBack_some (e : Expr) (p : Position) (r : List Char) :
    (giveBack (some e) p).chars ++ r = ['r', 'e', 't', 'u', 'r', 'n'] ++ ' ' ::
      (e.chars ++ ';' :: r) := by
  simp [chars, text, Expr.chars]

theorem chars_functionDecl (result : ValueType) (name : String) (ps : List Parameter)
    (body : List Stmt) (b p : Position) (r : List Char) :
    (functionDecl result name ps body b p).chars ++ r = result.name.toList ++ ' ' ::
      (name.toList ++ '(' :: (separated Parameter.chars ps ++ ')' :: ' ' :: '\x7b' :: '\n' ::
        (linesChars body ++ '\x7d' :: r))) := by
  have hps : (", ".intercalate (ps.map (·.text))).toList = separated Parameter.chars ps := by
    rw [toList_intercalate, separated_map]
    rfl
  simp [chars, text, linesChars, hps]

theorem chars_print (e : Expr) (p : Position) (r : List Char) :
    (print e p).chars ++ r = ['p', 'r', 'i', 'n', 't'] ++ '(' :: (e.chars ++ ')' :: ';' :: r) := by
  simp [chars, text, Expr.chars]

theorem linesChars_cons (s : Stmt) (ss : List Stmt) (r : List Char) :
    linesChars (s :: ss) ++ r = ' ' :: ' ' :: (s.chars ++ '\n' :: (linesChars ss ++ r)) := by
  simp [linesChars, linesText, chars]

theorem elseText_some (s : Stmt) (r : List Char) : (elseText (some s)).toList ++ r =
    [' ', 'e', 'l', 's', 'e', ' '] ++ (s.chars ++ r) := by
  simp [elseText, chars]

theorem initialText_some (s : Stmt) (r : List Char) :
    (initialText (some s)).toList ++ r = s.chars ++ ' ' :: r := by
  simp [initialText, chars]

end Stmt

/-! ### The first word tells the kind -/

/-- The kinds of statements that are told by their first word. -/
inductive Leader where
  | expression
  | declaration (type : ValueType)
  | block
  | branch
  | whileLoop
  | forLoop
  | giveBack
  | print
deriving DecidableEq

namespace Leader

/-- The words with which statements other than expressions begin. -/
def words : List (String × Leader) :=
  [("int", declaration .int), ("float", declaration .float), ("bool", declaration .bool),
    ("string", declaration .string), ("\x7b", block), ("if", branch), ("while", whileLoop),
    ("for", forLoop), ("return", giveBack), ("print", print)]

/-- The kind of statement that a text begins with, by its first word. -/
def ofChars (cs : List Char) : Leader := (words.lookup (.ofList (lead cs))).getD expression

/-- The kind of a statement. -/
def ofStmt : Stmt → Leader
  | .expr _ => expression
  | .variableDecl type _ _ _ | .functionDecl type _ _ _ _ _ => declaration type
  | .block _ _ => block
  | .branch _ _ _ _ => branch
  | .whileLoop _ _ _ => whileLoop
  | .forLoop _ _ _ _ _ => forLoop
  | .giveBack _ _ => giveBack
  | .print _ _ => print

theorem ofChars_append {w r : List Char} (hw : Unbroken w) (hr : Bounded r) :
    ofChars (w ++ r) = (words.lookup (.ofList w)).getD expression := by
  rw [ofChars, lead_append hw hr]

theorem ofChars_type (type : ValueType) (r : List Char) :
    ofChars (type.name.toList ++ ' ' :: r) = declaration type := by
  rw [ofChars_append (by cases type <;> decide) (bounded_cons (by decide) r)]
  cases type <;> rfl

/-- A text whose first word is not one of the words above begins with an expression. -/
theorem ofChars_of_ne {cs : List Char} (h : ∀ k ∈ words, k.1.toList ≠ lead cs) :
    ofChars cs = expression := by
  have hnone : words.lookup (.ofList (lead cs)) = none := by
    rw [List.lookup_eq_none_iff]
    intro k hk
    rw [bne_iff_ne]
    intro heq
    exact h k hk (by rw [← heq, String.toList_ofList])
  rw [ofChars, hnone, Option.getD_none]

theorem ofChars_name {name : String} (hname : IsName name) {r : List Char} (hr : Bounded r) :
    ofChars (name.toList ++ r) = expression := by
  refine ofChars_of_ne fun k hk heq => ?_
  have hnone : ∀ k ∈ words,
      ¬ (Pattern.word.Matches k.1.toList ∧ Kind.ofWord k.1 = .identifier) := by decide
  rw [lead_append hname.unbroken hr, String.toList_inj] at heq
  exact hnone k hk (heq ▸ hname)

/-- Statements do not begin with digits, quotes and parentheses, unless they are expressions. -/
theorem ofChars_of_head {cs : List Char}
    (h : ∀ c ∈ (lead cs).head?, Digit c ∨ c = '"') : ofChars cs = expression := by
  refine ofChars_of_ne fun k hk heq => ?_
  have hhead : ∀ k ∈ words, k.1.toList.head? = some (k.1.toList.headD ' ') := by decide
  have hnot : ∀ k ∈ words, ¬ (Digit (k.1.toList.headD ' ') ∨ k.1.toList.headD ' ' = '"') := by
    decide
  exact hnot k hk (h _ (heq ▸ hhead k hk))

theorem ofChars_atom {e : Expr} (h : e.Atom) {r : List Char} (hr : Bounded r) :
    ofChars (e.chars ++ r) = expression := by
  have hlead := lead_append h.wordly.2 hr
  cases h with
  | integer n =>
    refine ofChars_of_head fun c hc => .inl ((digits_toString n).1.2 c ?_)
    rw [hlead] at hc
    exact List.mem_of_mem_head? hc
  | @float u hu =>
    obtain ⟨d, ds, htext, hd⟩ := (Binary64.marked_magnitudeText u).begins
    refine ofChars_of_head fun c hc => .inl ?_
    rw [hlead, Expr.chars_float, htext] at hc
    cases hc
    exact isDigit_iff.mp hd
  | boolean b =>
    rw [ofChars, hlead]
    cases b <;> decide
  | var hname => exact ofChars_name hname hr

theorem ofChars_expr {e : Expr} (h : e.Settled) {r : List Char} (hr : MayFollow r) :
    ofChars (e.chars ++ r) = expression := by
  cases hassign : e.isAssign with
  | true =>
    cases h with
    | assign hname =>
      rw [Expr.chars_assign, List.append_assoc]
      exact ofChars_name hname (bounded_cons (by decide) _)
    | _ => cases hassign
  | false =>
    obtain ⟨head, gs, rfl, hhead, -⟩ := h.exists_calls hassign
    rw [Expr.chars_calls, List.append_assoc]
    cases hhead with
    | atom h => exact ofChars_atom h (Expr.bounded_groupChars gs hr)
    | string hs =>
      rw [Expr.chars_string]
      refine ofChars_of_head ?_
      rintro c ⟨⟩
      exact .inr rfl
    | unary op =>
      rw [Expr.chars_unary]
      exact ofChars_of_head nofun
    | binary op =>
      rw [Expr.chars_binary]
      exact ofChars_of_head nofun

/-- **The first word of a settled statement tells its kind.** -/
theorem ofChars_stmt {s : Stmt} (h : s.Settled) (r : List Char) :
    ofChars (s.chars ++ r) = ofStmt s := by
  have hword {w : List Char} (hw : Unbroken w) {c : Char} (hc : c ∈ boundary) (cs : List Char) :
      ofChars (w ++ c :: cs) = (words.lookup (.ofList w)).getD expression :=
    ofChars_append hw (bounded_cons hc cs)
  cases h with
  | expr he =>
    rw [Stmt.chars_expr]
    exact ofChars_expr he (mayFollow_cons (by decide) r)
  | variableDecl type =>
    rw [Stmt.chars_variableDecl]
    exact ofChars_type type _
  | functionDecl type =>
    rw [Stmt.chars_functionDecl]
    exact ofChars_type type _
  | block =>
    rw [Stmt.chars_block]
    exact hword (w := ['\x7b']) (by decide) (by decide) _
  | ifOnly | ifElse =>
    rw [Stmt.chars_branch]
    exact hword (w := ['i', 'f']) (by decide) (by decide) _
  | whileLoop =>
    rw [Stmt.chars_whileLoop]
    exact hword (w := ['w', 'h', 'i', 'l', 'e']) (by decide) (by decide) _
  | forLoop =>
    rw [Stmt.chars_forLoop]
    exact hword (w := ['f', 'o', 'r']) (by decide) (by decide) _
  | @giveBack value =>
    cases value with
    | none =>
      rw [Stmt.chars_giveBack_none]
      exact hword (by decide) (by decide) _
    | some e =>
      rw [Stmt.chars_giveBack_some]
      exact hword (by decide) (by decide) _
  | print =>
    rw [Stmt.chars_print]
    exact hword (by decide) (by decide) _

/-- Settled statements whose texts begin alike are of the same kind. -/
theorem ofStmt_eq {s s' : Stmt} (h : s.Settled) (h' : s'.Settled) {r r' : List Char}
    (heq : s.chars ++ r = s'.chars ++ r') : ofStmt s = ofStmt s' := by
  rw [← ofChars_stmt h r, heq, ofChars_stmt h']

end Leader

/-! ### Parts of statements -/

/-- What follows does not begin with an `else`. -/
def NoElse (r : List Char) : Prop := ¬ [' ', 'e', 'l', 's', 'e', ' '] <+: r

theorem noElse_newline (r : List Char) : NoElse ('\n' :: r) := by
  rintro ⟨t, ht⟩
  cases ht

theorem ValueType.unbroken_name (type : ValueType) : Unbroken type.name.toList := by
  cases type <;> decide

theorem ValueType.name_injective {type type' : ValueType}
    (h : type.name.toList = type'.name.toList) : type = type' := by
  revert h
  cases type <;> cases type' <;> decide

/-- A declared name is told from the type before it and from what follows. -/
theorem declared_cancel {type type' : ValueType} {name name' : String} (hname : IsName name)
    (hname' : IsName name') {r r' : List Char} (hr : Bounded r) (hr' : Bounded r')
    (h : type.name.toList ++ ' ' :: (name.toList ++ r) =
      type'.name.toList ++ ' ' :: (name'.toList ++ r')) : type = type' ∧ name = name' ∧ r = r' := by
  obtain ⟨htype, hrest⟩ := type.unbroken_name.cancel type'.unbroken_name
    (bounded_cons (by decide) _) (bounded_cons (by decide) _) h
  obtain ⟨hname, rfl⟩ := hname.unbroken.cancel hname'.unbroken hr hr'
    (List.tail_eq_of_cons_eq hrest)
  exact ⟨ValueType.name_injective htype, String.toList_inj.mp hname, rfl⟩

theorem Parameter.chars_append (p : Parameter) (r : List Char) :
    p.chars ++ r = p.type.name.toList ++ ' ' :: (p.name.toList ++ r) := by
  simp [chars, text]

theorem Parameter.Settled.tells {p : Parameter} (h : p.Settled) :
    TellsAmong Parameter.chars Parameter.Settled p := by
  intro p' r r' h' hr hr' heq
  rw [chars_append, chars_append] at heq
  obtain ⟨htype, hname, rfl⟩ := declared_cancel h.1 h'.1 hr.bounded hr'.bounded heq
  obtain ⟨type, name, position⟩ := p
  obtain ⟨type', name', position'⟩ := p'
  obtain ⟨-, rfl⟩ := h
  obtain ⟨-, rfl⟩ := h'
  cases htype
  cases hname
  exact ⟨rfl, rfl⟩

theorem Parameter.begins_ne (p : Parameter) : ∃ c cs, p.chars = c :: cs ∧ c ≠ ')' := by
  have hchars := p.chars_append []
  rw [List.append_nil] at hchars
  rw [hchars]
  cases p.type <;> exact ⟨_, _, rfl, by decide⟩

namespace Stmt

theorem bounded_valueText_semicolon (e : Option Expr) (r : List Char) :
    Bounded ((valueText e).toList ++ ';' :: r) :=
  bounded_valueText e (bounded_cons (by decide) r)

theorem valueText_some (e : Expr) (r : List Char) :
    (valueText (some e)).toList ++ r = [' ', '=', ' '] ++ (e.chars ++ r) := by
  simp [valueText, Expr.chars]

theorem valueText_tell {i i' : Option Expr} {r r' : List Char} (h : ∀ e ∈ i, e.Settled)
    (h' : ∀ e ∈ i', e.Settled)
    (heq : (valueText i).toList ++ ';' :: r = (valueText i').toList ++ ';' :: r') :
    i = i' ∧ r = r' := by
  cases i with
  | none =>
    cases i' with
    | none => exact ⟨rfl, List.tail_eq_of_cons_eq heq⟩
    | some e' =>
      rw [valueText_some] at heq
      cases heq
  | some e =>
    rw [valueText_some] at heq
    cases i' with
    | none => cases heq
    | some e' =>
      rw [valueText_some] at heq
      obtain ⟨rfl, hrest⟩ := (h e rfl).tells (h' e' rfl) (mayFollow_cons (by decide) r)
        (mayFollow_cons (by decide) r') (List.append_cancel_left heq)
      exact ⟨rfl, List.tail_eq_of_cons_eq hrest⟩

theorem optionText_tell {c c' : Option Expr} {x : Char} {r r' : List Char} (hx : x ∈ [')', ';'])
    (h : ∀ e ∈ c, e.Settled) (h' : ∀ e ∈ c', e.Settled)
    (heq : (optionText c).toList ++ x :: r = (optionText c').toList ++ x :: r') :
    c = c' ∧ r = r' := by
  have hfollow (r : List Char) : MayFollow (x :: r) :=
    mayFollow_cons ((by decide : ∀ c ∈ [')', ';'], c ∈ [')', ',', ';']) x hx) r
  have hne {e : Expr} (he : e.Settled) (r r' : List Char) : x :: r ≠ e.chars ++ r' := by
    obtain ⟨d, ds, htext, hd⟩ := he.begins
    rw [htext]
    intro heq
    cases heq
    exact (by decide : ∀ c ∈ [')', ';'], ¬ Opening.Starts c) x hx hd
  cases c with
  | none =>
    cases c' with
    | none => exact ⟨rfl, List.tail_eq_of_cons_eq heq⟩
    | some e' => exact absurd heq (hne (h' e' rfl) _ _)
  | some e =>
    cases c' with
    | none => exact absurd heq.symm (hne (h e rfl) _ _)
    | some e' =>
      obtain ⟨rfl, hrest⟩ := (h e rfl).tells (h' e' rfl) (hfollow r) (hfollow r') heq
      exact ⟨rfl, List.tail_eq_of_cons_eq hrest⟩

/-- **The text of the statement tells it,** whatever follows, if an `else` is not taken for a part
of it. -/
def Tells (s : Stmt) : Prop :=
  ∀ {s' : Stmt} {r r' : List Char}, s'.Settled → (s.dangles = true → NoElse r) →
    (s'.dangles = true → NoElse r') → s.chars ++ r = s'.chars ++ r' → s = s' ∧ r = r'

theorem linesChars_tell {ss ss' : List Stmt} {r r' : List Char} (h : ∀ s ∈ ss, s.Tells)
    (h' : ∀ s ∈ ss', s.Settled)
    (heq : linesChars ss ++ '\x7d' :: r = linesChars ss' ++ '\x7d' :: r') :
    ss = ss' ∧ r = r' := by
  induction ss generalizing ss' with
  | nil =>
    cases ss' with
    | nil => exact ⟨rfl, List.tail_eq_of_cons_eq heq⟩
    | cons s' ss' =>
      rw [linesChars_cons] at heq
      cases heq
  | cons s ss ih =>
    rw [linesChars_cons] at heq
    cases ss' with
    | nil => cases heq
    | cons s' ss' =>
      rw [linesChars_cons] at heq
      obtain ⟨hs, hss⟩ := List.forall_mem_cons.mp h
      obtain ⟨hs', hss'⟩ := List.forall_mem_cons.mp h'
      obtain ⟨rfl, hrest⟩ := hs hs' (fun _ => noElse_newline _) (fun _ => noElse_newline _)
        (List.tail_eq_of_cons_eq (List.tail_eq_of_cons_eq heq))
      obtain ⟨rfl, rfl⟩ := ih hss hss' (List.tail_eq_of_cons_eq hrest)
      exact ⟨rfl, rfl⟩

/-- The text of a settled statement does not begin with a semicolon. -/
theorem Settled.ne_semicolon {s : Stmt} (h : s.Settled) (r r' : List Char) :
    ';' :: r ≠ s.chars ++ r' := by
  intro heq
  have hleader : Leader.ofStmt s = .expression := by
    rw [← Leader.ofChars_stmt h r', ← heq]
    exact Leader.ofChars_of_head nofun
  cases h with
  | expr he =>
    obtain ⟨c, cs, htext, hc⟩ := he.begins
    rw [chars_expr, htext] at heq
    cases heq
    exact absurd hc (by decide)
  | _ => cases hleader

theorem initialText_tell {i i' : Option Stmt} {r r' : List Char} (hs : ∀ s ∈ i, s.Settled)
    (h : ∀ s ∈ i, s.Tells) (hclosed : ∀ s ∈ i, s.dangles = false) (h' : ∀ s ∈ i', s.Settled)
    (hclosed' : ∀ s ∈ i', s.dangles = false)
    (heq : (initialText i).toList ++ r = (initialText i').toList ++ r') : i = i' ∧ r = r' := by
  have hnot {s : Stmt} {P : Prop} (hs : s.dangles = false) (hd : s.dangles = true) : P :=
    absurd (hs.symm.trans hd) (by decide)
  cases i with
  | none =>
    cases i' with
    | none => exact ⟨rfl, List.tail_eq_of_cons_eq (List.tail_eq_of_cons_eq heq)⟩
    | some s' =>
      rw [initialText_some] at heq
      exact absurd heq ((h' s' rfl).ne_semicolon _ _)
  | some s =>
    rw [initialText_some] at heq
    cases i' with
    | none => exact absurd heq.symm ((hs s rfl).ne_semicolon _ _)
    | some s' =>
      rw [initialText_some] at heq
      obtain ⟨rfl, hrest⟩ := h s rfl (h' s' rfl) (hnot (hclosed s rfl)) (hnot (hclosed' s' rfl)) heq
      exact ⟨rfl, List.tail_eq_of_cons_eq hrest⟩

/-! ### Statements -/

theorem tells_expr {e : Expr} (he : e.Settled) : (expr e).Tells := by
  intro s' r r' h' _ _ heq
  have hleader := Leader.ofStmt_eq (.expr he) h' heq
  cases h' with
  | expr he' =>
    rw [chars_expr, chars_expr] at heq
    obtain ⟨rfl, hrest⟩ := he.tells he' (mayFollow_cons (by decide) r)
      (mayFollow_cons (by decide) r') heq
    exact ⟨rfl, List.tail_eq_of_cons_eq hrest⟩
  | _ => cases hleader

theorem tells_print {e : Expr} (he : e.Settled) : (print e .unknown).Tells := by
  intro s' r r' h' _ _ heq
  have hleader := Leader.ofStmt_eq (.print he) h' heq
  cases h' with
  | print he' =>
    rw [chars_print, chars_print] at heq
    obtain ⟨rfl, hrest⟩ := he.tells he' (mayFollow_cons (by decide) _)
      (mayFollow_cons (by decide) _) (List.tail_eq_of_cons_eq (List.append_cancel_left heq))
    exact ⟨rfl, List.tail_eq_of_cons_eq (List.tail_eq_of_cons_eq hrest)⟩
  | _ => cases hleader

theorem tells_giveBack {value : Option Expr} (hv : ∀ e ∈ value, e.Settled) :
    (giveBack value .unknown).Tells := by
  intro s' r r' h' _ _ heq
  have hleader := Leader.ofStmt_eq (.giveBack hv) h' heq
  cases h' with
  | @giveBack value' hv' =>
    cases value with
    | none =>
      rw [chars_giveBack_none] at heq
      cases value' with
      | none =>
        rw [chars_giveBack_none] at heq
        exact ⟨rfl, List.tail_eq_of_cons_eq (List.append_cancel_left heq)⟩
      | some e' =>
        rw [chars_giveBack_some] at heq
        cases heq
    | some e =>
      rw [chars_giveBack_some] at heq
      cases value' with
      | none =>
        rw [chars_giveBack_none] at heq
        cases heq
      | some e' =>
        rw [chars_giveBack_some] at heq
        obtain ⟨rfl, hrest⟩ := (hv e rfl).tells (hv' e' rfl) (mayFollow_cons (by decide) r)
          (mayFollow_cons (by decide) r') (List.tail_eq_of_cons_eq (List.append_cancel_left heq))
        exact ⟨rfl, List.tail_eq_of_cons_eq hrest⟩
  | _ => cases hleader

theorem tells_block {body : List Stmt} (hs : ∀ s ∈ body, s.Settled) (hb : ∀ s ∈ body, s.Tells) :
    (block body .unknown).Tells := by
  intro s' r r' h' _ _ heq
  have hleader := Leader.ofStmt_eq (.block hs) h' heq
  cases h' with
  | block hb' =>
    rw [chars_block, chars_block] at heq
    obtain ⟨rfl, rfl⟩ := linesChars_tell hb hb'
      (List.tail_eq_of_cons_eq (List.tail_eq_of_cons_eq heq))
    exact ⟨rfl, rfl⟩
  | _ => cases hleader

/-- A variable is not declared like a function. -/
theorem variable_ne_function {type type' : ValueType} {name name' : String} (hname : IsName name)
    (hname' : IsName name') (initial : Option Expr) (r r' : List Char) :
    type.name.toList ++ ' ' :: (name.toList ++ ((valueText initial).toList ++ ';' :: r)) ≠
      type'.name.toList ++ ' ' :: (name'.toList ++ '(' :: r') := by
  intro heq
  obtain ⟨-, -, hrest⟩ := declared_cancel hname hname' (bounded_valueText_semicolon initial r)
    (bounded_cons (by decide) r') heq
  cases initial with
  | none => cases hrest
  | some e =>
    rw [valueText_some] at hrest
    cases hrest

theorem tells_variableDecl (type : ValueType) {name : String} {initial : Option Expr}
    (hname : IsName name) (hi : ∀ e ∈ initial, e.Settled) :
    (variableDecl type name initial .unknown).Tells := by
  intro s' r r' h' _ _ heq
  have hleader := Leader.ofStmt_eq (.variableDecl type hname hi) h' heq
  rw [chars_variableDecl] at heq
  cases h' with
  | variableDecl type' hname' hi' =>
    rw [chars_variableDecl] at heq
    obtain ⟨rfl, rfl, hrest⟩ := declared_cancel hname hname' (bounded_valueText_semicolon _ _)
      (bounded_valueText_semicolon _ _) heq
    obtain ⟨rfl, rfl⟩ := valueText_tell hi hi' hrest
    exact ⟨rfl, rfl⟩
  | functionDecl type' hname' =>
    rw [chars_functionDecl] at heq
    exact absurd heq (variable_ne_function hname hname' initial _ _)
  | _ => cases hleader

theorem tells_functionDecl (result : ValueType) {name : String} {parameters : List Parameter}
    {body : List Stmt} (hname : IsName name) (hp : ∀ p ∈ parameters, p.Settled)
    (hs : ∀ s ∈ body, s.Settled) (hb : ∀ s ∈ body, s.Tells) :
    (functionDecl result name parameters body .unknown .unknown).Tells := by
  intro s' r r' h' _ _ heq
  have hleader := Leader.ofStmt_eq (.functionDecl result hname hp hs) h' heq
  rw [chars_functionDecl] at heq
  cases h' with
  | functionDecl result' hname' hp' hs' =>
    rw [chars_functionDecl] at heq
    obtain ⟨rfl, rfl, hlist⟩ := declared_cancel hname hname' (bounded_cons (by decide) _)
      (bounded_cons (by decide) _) heq
    obtain ⟨rfl, hrest⟩ := separated_tell (fun p _ => p.begins_ne) (fun p _ => p.begins_ne)
      (fun p hmem => (hp p hmem).tells) hp' (List.tail_eq_of_cons_eq hlist)
    obtain ⟨rfl, rfl⟩ := linesChars_tell hb hs' (by simpa using hrest)
    exact ⟨rfl, rfl⟩
  | variableDecl type' hname' =>
    rw [chars_variableDecl] at heq
    exact absurd heq.symm (variable_ne_function hname' hname _ _ _)
  | _ => cases hleader

theorem tells_whileLoop {c : Expr} {body : Stmt} (hc : c.Settled) (hs : body.Settled)
    (hb : body.Tells) : (whileLoop c body .unknown).Tells := by
  intro s' r r' h' hr hr' heq
  have hleader := Leader.ofStmt_eq (.whileLoop hc hs) h' heq
  cases h' with
  | whileLoop hc' hb' =>
    rw [chars_whileLoop, chars_whileLoop] at heq
    obtain ⟨rfl, hrest⟩ := hc.tells hc' (mayFollow_cons (by decide) _)
      (mayFollow_cons (by decide) _) (List.append_cancel_left heq)
    obtain ⟨rfl, rfl⟩ := hb hb' hr hr' (List.tail_eq_of_cons_eq (List.tail_eq_of_cons_eq hrest))
    exact ⟨rfl, rfl⟩
  | _ => cases hleader

theorem tells_forLoop {initial : Option Stmt} {c i : Option Expr} {body : Stmt}
    (hinitial : ∀ s ∈ initial, s.Settled) (hclosed : ∀ s ∈ initial, s.dangles = false)
    (hc : ∀ e ∈ c, e.Settled) (hi : ∀ e ∈ i, e.Settled) (hs : body.Settled)
    (htells : ∀ s ∈ initial, s.Tells) (hb : body.Tells) :
    (forLoop initial c i body .unknown).Tells := by
  intro s' r r' h' hr hr' heq
  have hleader := Leader.ofStmt_eq (.forLoop hinitial hclosed hc hi hs) h' heq
  cases h' with
  | forLoop hinitial' hclosed' hc' hi' hb' =>
    rw [chars_forLoop, chars_forLoop] at heq
    obtain ⟨rfl, hcondition⟩ := initialText_tell hinitial htells hclosed hinitial' hclosed'
      (List.append_cancel_left heq)
    obtain ⟨rfl, hincrement⟩ := optionText_tell (by decide) hc hc' hcondition
    obtain ⟨rfl, hbody⟩ := optionText_tell (by decide) hi hi' (List.tail_eq_of_cons_eq hincrement)
    obtain ⟨rfl, rfl⟩ := hb hb' hr hr' (List.tail_eq_of_cons_eq hbody)
    exact ⟨rfl, rfl⟩
  | _ => cases hleader

theorem elseText_none (r : List Char) : (elseText none).toList ++ r = r := by
  simp [elseText]

theorem tells_ifOnly {c : Expr} {yes : Stmt} (hc : c.Settled) (hs : yes.Settled)
    (hyes : yes.Tells) : (branch c yes none .unknown).Tells := by
  intro s' r r' h' hr hr' heq
  have hleader := Leader.ofStmt_eq (.ifOnly hc hs) h' heq
  rw [chars_branch, elseText_none] at heq
  cases h' with
  | ifOnly hc' hyes' =>
    rw [chars_branch, elseText_none] at heq
    obtain ⟨rfl, hrest⟩ := hc.tells hc' (mayFollow_cons (by decide) _)
      (mayFollow_cons (by decide) _) (List.append_cancel_left heq)
    obtain ⟨rfl, rfl⟩ := hyes hyes' (fun _ => hr rfl) (fun _ => hr' rfl)
      (List.tail_eq_of_cons_eq (List.tail_eq_of_cons_eq hrest))
    exact ⟨rfl, rfl⟩
  | ifElse hc' hyes' hclosed' hno' =>
    rw [chars_branch, elseText_some] at heq
    obtain ⟨rfl, hrest⟩ := hc.tells hc' (mayFollow_cons (by decide) _)
      (mayFollow_cons (by decide) _) (List.append_cancel_left heq)
    obtain ⟨rfl, rfl⟩ := hyes hyes' (fun _ => hr rfl)
      (fun h => absurd (hclosed'.symm.trans h) (by decide))
      (List.tail_eq_of_cons_eq (List.tail_eq_of_cons_eq hrest))
    exact absurd (List.prefix_append _ _) (hr rfl)
  | _ => cases hleader

theorem tells_ifElse {c : Expr} {yes no : Stmt} (hc : c.Settled) (hs : yes.Settled)
    (hclosed : yes.dangles = false) (hs' : no.Settled) (hyes : yes.Tells) (hno : no.Tells) :
    (branch c yes (some no) .unknown).Tells := by
  intro s' r r' h' hr hr' heq
  have hleader := Leader.ofStmt_eq (.ifElse hc hs hclosed hs') h' heq
  have hnever {r : List Char} (h : yes.dangles = true) : NoElse r :=
    absurd (hclosed.symm.trans h) (by decide)
  rw [chars_branch, elseText_some] at heq
  cases h' with
  | ifOnly hc' hyes' =>
    rw [chars_branch, elseText_none] at heq
    obtain ⟨rfl, hrest⟩ := hc.tells hc' (mayFollow_cons (by decide) _)
      (mayFollow_cons (by decide) _) (List.append_cancel_left heq)
    obtain ⟨rfl, rfl⟩ := hyes hyes' hnever (fun _ => hr' rfl)
      (List.tail_eq_of_cons_eq (List.tail_eq_of_cons_eq hrest))
    exact absurd (List.prefix_append _ _) (hr' rfl)
  | ifElse hc' hyes' hclosed' hno' =>
    rw [chars_branch, elseText_some] at heq
    obtain ⟨rfl, hrest⟩ := hc.tells hc' (mayFollow_cons (by decide) _)
      (mayFollow_cons (by decide) _) (List.append_cancel_left heq)
    obtain ⟨rfl, helse⟩ := hyes hyes' hnever
      (fun h => absurd (hclosed'.symm.trans h) (by decide))
      (List.tail_eq_of_cons_eq (List.tail_eq_of_cons_eq hrest))
    obtain ⟨rfl, rfl⟩ := hno hno' hr hr' (List.append_cancel_left helse)
    exact ⟨rfl, rfl⟩
  | _ => cases hleader

/-- **The text of a settled statement tells it.** -/
theorem Settled.tells {s : Stmt} (h : s.Settled) : s.Tells := by
  induction h with
  | expr he => exact tells_expr he
  | variableDecl type hname hi => exact tells_variableDecl type hname hi
  | block hb ih => exact tells_block hb ih
  | ifOnly hc hyes ih => exact tells_ifOnly hc hyes ih
  | ifElse hc hyes hclosed hno ihyes ihno => exact tells_ifElse hc hyes hclosed hno ihyes ihno
  | whileLoop hc hb ih => exact tells_whileLoop hc hb ih
  | forLoop hinitial hclosed hc hi hb ihinitial ihb =>
    exact tells_forLoop hinitial hclosed hc hi hb ihinitial ihb
  | giveBack hv => exact tells_giveBack hv
  | functionDecl result hname hp hb ih => exact tells_functionDecl result hname hp hb ih
  | print he => exact tells_print he

/-! ### Programs -/

/-- The texts of settled statements on lines of their own tell them. -/
theorem eq_of_join {ss ss' : List Stmt} (h : ∀ s ∈ ss, s.Settled) (h' : ∀ s ∈ ss', s.Settled)
    (heq : String.join (ss.map (·.text ++ "\n")) = String.join (ss'.map (·.text ++ "\n"))) :
    ss = ss' := by
  have hcons (s : Stmt) (ss : List Stmt) :
      (String.join ((s :: ss).map (·.text ++ "\n"))).toList =
        s.chars ++ '\n' :: (String.join (ss.map (·.text ++ "\n"))).toList := by
    simp [String.join_cons, chars]
  rw [← String.toList_inj] at heq
  induction ss generalizing ss' with
  | nil =>
    cases ss' with
    | nil => rfl
    | cons s' ss' =>
      rw [hcons] at heq
      simp [String.join] at heq
  | cons s ss ih =>
    rw [hcons] at heq
    cases ss' with
    | nil => simp [String.join] at heq
    | cons s' ss' =>
      rw [hcons] at heq
      obtain ⟨hs, hss⟩ := List.forall_mem_cons.mp h
      obtain ⟨hs', hss'⟩ := List.forall_mem_cons.mp h'
      obtain ⟨rfl, hrest⟩ := hs.tells hs' (fun _ => noElse_newline _)
        (fun _ => noElse_newline _) heq
      rw [ih hss hss' (List.tail_eq_of_cons_eq hrest)]

end Stmt

theorem settled_of_parseSource {source : String} {p : Program} (h : parseSource source = .ok p) :
    ∀ s ∈ Stmt.shownAll p.statements, s.Settled := by
  obtain ⟨-, d, htokens, rfl⟩ := parseSource_eq_ok_iff.mp h
  refine d.statements.settled fun t ht => tokenize_wellFormed source t ?_
  have hmem : t ∈ d.tokens := ht
  rw [htokens] at hmem
  exact List.mem_of_mem_filter (List.takeWhile_subset _ hmem)

/-- **Printed programs are unambiguous, up to what they do not show.**  Two sources that are
accepted are printed alike exactly if what is shown of their programs is the same.  So the programs
are the same up to positions, if in neither of them an assignment is called or a float is
infinite. -/
theorem Program.text_eq_iff {source source' : String} {p q : Program}
    (hp : parseSource source = .ok p) (hq : parseSource source' = .ok q) :
    (p.text = q.text ↔ p.shown = q.shown) ∧
      ((∀ x ∈ p.parts, x.Evident) → (∀ x ∈ q.parts, x.Evident) →
        p.text = q.text → p.unplaced = q.unplaced) := by
  have hiff : p.text = q.text ↔ p.shown = q.shown := by
    rw [← p.text_shown, ← q.text_shown]
    constructor
    · intro htext
      exact congrArg Program.mk
        (Stmt.eq_of_join (settled_of_parseSource hp) (settled_of_parseSource hq) htext)
    · intro hshown
      rw [hshown]
  refine ⟨hiff, fun hpe hqe htext => ?_⟩
  rw [← p.shown_eq_unplaced hpe, ← q.shown_eq_unplaced hqe, hiff.mp htext]

/-- A source in which an assignment is an operand. -/
def roomySource : String := "int f() \x7b\n  return -(x = 2.50);\n\x7d"

/-- The same without blanks. -/
def tightSource : String := "int f()\x7breturn(-(x=2.5));\x7d"

/-- The program that is read from `roomySource`. -/
def Program.roomy : Program :=
  ⟨[.functionDecl .int "f" []
    [.giveBack (some (.unary .negate
        (.assign "x" (.literal (.float (.ofDecimal false 250 (-2))) ⟨2, 16⟩) ⟨2, 12⟩) ⟨2, 10⟩))
      ⟨2, 3⟩]
    ⟨1, 9⟩ ⟨1, 5⟩]⟩

/-- The program that is read from `tightSource`. -/
def Program.tight : Program :=
  ⟨[.functionDecl .int "f" []
    [.giveBack (some (.unary .negate
        (.assign "x" (.literal (.float (.ofDecimal false 25 (-1))) ⟨1, 20⟩) ⟨1, 18⟩) ⟨1, 16⟩))
      ⟨1, 9⟩]
    ⟨1, 8⟩ ⟨1, 5⟩]⟩

theorem Program.text_eq_iff_roomy :
    parseSource roomySource = .ok .roomy ∧ parseSource tightSource = .ok .tight ∧
      Program.roomy.text = Program.tight.text ∧
      Program.roomy.unplaced = Program.tight.unplaced := by
  have hroomy : parseSource roomySource = .ok .roomy :=
    parseSource_of_errors_eq_nil (by decide +kernel) (by decide +kernel) (by decide +kernel)
  have htight : parseSource tightSource = .ok .tight :=
    parseSource_of_errors_eq_nil (by decide +kernel) (by decide +kernel) (by decide +kernel)
  have htext : Program.roomy.text = Program.tight.text := by decide +kernel
  refine ⟨hroomy, htight, htext, (Program.text_eq_iff hroomy htight).2 ?_ ?_ htext⟩
  · decide +kernel
  · decide +kernel

/-- A source in which what an assignment gives is called. -/
def calledSource : String := "(a = b)(c);"

/-- A source in which what a call gives is assigned. -/
def assignedSource : String := "a = b(c);"

/-- The program that is read from `calledSource`. -/
def Program.called : Program :=
  ⟨[.expr (.call (.assign "a" (.var "b" ⟨1, 6⟩) ⟨1, 2⟩) [.var "c" ⟨1, 9⟩] ⟨1, 10⟩)]⟩

/-- The program that is read from `assignedSource`. -/
def Program.assigned : Program :=
  ⟨[.expr (.assign "a" (.call (.var "b" ⟨1, 5⟩) [.var "c" ⟨1, 7⟩] ⟨1, 8⟩) ⟨1, 1⟩)]⟩

/-- The two programs are different and have the same text. -/
theorem Program.called_text_eq_assigned :
    parseSource calledSource = .ok .called ∧ parseSource assignedSource = .ok .assigned ∧
      Program.called.text = Program.assigned.text ∧
      Program.called.unplaced ≠ Program.assigned.unplaced := by
  refine ⟨?_, ?_, by decide +kernel, by decide +kernel⟩
  · exact parseSource_of_errors_eq_nil (by decide +kernel) (by decide +kernel) (by decide +kernel)
  · exact parseSource_of_errors_eq_nil (by decide +kernel) (by decide +kernel) (by decide +kernel)

end StackListing
