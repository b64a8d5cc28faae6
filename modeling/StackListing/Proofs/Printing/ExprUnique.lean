import StackListing.Proofs.Number.DecimalText
import StackListing.Proofs.Printing.ExprText
import StackListing.Proofs.Printing.Shown
import StackListing.Proofs.Printing.Telling

/-!
# Texts of expressions are unambiguous

A text that begins with a settled expression begins with no other, if what follows is something that
may follow an expression (`Expr.Settled.tells`).  The text is read from the left.  Its first
characters tell what it opens with: a word, a string, a sign or an operation.  Only behind a word is
there a choice, between a variable and an assignment, and only behind a head between a call and the
end; `MayFollow` says that what follows the expression is mistaken for neither.

Calls are nested to the left, so the induction does not go along the text.  It is on the expression,
with the argument lists that are still to come behind it as a parameter (`Expr.calls`).
-/

namespace StackListing

/-! ### Characters of expressions -/

namespace Expr

/-- The characters of an expression's text. -/
def chars (e : Expr) : List Char := e.text.toList

/-- The characters of argument lists, each in parentheses. -/
def groupChars (gs : List (List Expr)) : List Char :=
  gs.flatMap fun es => '(' :: (separated chars es ++ [')'])

theorem chars_string (s : String) (p : Position) :
    (literal (.string s) p).chars = '"' :: (s.toList ++ ['"']) := by
  simp [chars, text, Literal.text]

theorem chars_unary (op : UnaryOp) (operand : Expr) (p : Position) :
    (unary op operand p).chars = '(' :: (op.symbol.toList ++ (operand.chars ++ [')'])) := by
  simp [chars, text]

theorem chars_binary (op : BinaryOp) (left right : Expr) (p : Position) :
    (binary op left right p).chars = '(' :: (left.chars ++ ' ' :: (op.symbol.toList ++
      ' ' :: (right.chars ++ [')']))) := by
  simp [chars, text]

theorem chars_call (callee : Expr) (arguments : List Expr) (p : Position) :
    (call callee arguments p).chars = callee.chars ++ groupChars [arguments] := by
  have harguments : (", ".intercalate (texts arguments)).toList = separated chars arguments := by
    rw [texts_eq_map, toList_intercalate, separated_map]
    rfl
  simp [chars, text, groupChars, harguments]

theorem chars_assign (name : String) (value : Expr) (p : Position) :
    (assign name value p).chars = name.toList ++ ([' ', '=', ' '] ++ value.chars) := by
  simp [chars, text]

theorem groupChars_nil (r : List Char) : groupChars [] ++ r = r := rfl

theorem groupChars_cons (g : List Expr) (gs : List (List Expr)) (r : List Char) :
    groupChars (g :: gs) ++ r = '(' :: (separated chars g ++ ')' :: (groupChars gs ++ r)) := by
  simp [groupChars]

/-- The expression with argument lists behind it. -/
def calls (gs : List (List Expr)) (e : Expr) : Expr :=
  gs.foldl (fun callee arguments => call callee arguments .unknown) e

theorem chars_calls (gs : List (List Expr)) (e : Expr) :
    (e.calls gs).chars = e.chars ++ groupChars gs := by
  induction gs generalizing e with
  | nil => simp [calls, groupChars]
  | cons g gs ih =>
    have h := ih (call e g .unknown)
    rw [chars_call, List.append_assoc] at h
    exact h.trans (congrArg (e.chars ++ ·) (by simp [groupChars]))

/-! ### What a text opens with -/

end Expr

/-- What the text of an expression opens with. -/
inductive Opening where
  | word
  | quote
  | minus
  | bang
  | operation
deriving DecidableEq

namespace Opening

/-- What a text opens with, by its first characters. -/
def ofChars : List Char → Opening
  | '"' :: _ => quote
  | '(' :: '-' :: _ => minus
  | '(' :: '!' :: _ => bang
  | '(' :: _ => operation
  | _ => word

/-- Characters with which the text of an expression can begin. -/
def Starts (c : Char) : Prop := Letter c ∨ Digit c ∨ c = '"' ∨ c = '('

instance decidableStarts (c : Char) : Decidable (Starts c) := inferInstanceAs (Decidable (_ ∨ _))

/-- What the text of an expression opens with, by its form. -/
def ofExpr : Expr → Opening
  | .literal (.string _) _ => quote
  | .unary .negate _ _ => minus
  | .unary .not _ _ => bang
  | .binary _ _ _ _ => operation
  | _ => word

theorem ofChars_of_starts {c : Char} (hc : Starts c) (cs : List Char) :
    ofChars ('(' :: c :: cs) = operation := by
  unfold ofChars
  split
  · rename_i heq
    cases heq
  · rename_i heq
    cases heq
    exact absurd hc (by decide)
  · rename_i heq
    cases heq
    exact absurd hc (by decide)
  · rfl
  · rename_i hnot
    exact absurd rfl (hnot _)

theorem ofChars_of_word {c : Char} (hc : Letter c ∨ Digit c) (cs : List Char) :
    ofChars (c :: cs) = word := by
  have hquote : c ≠ '"' := by
    rintro rfl
    exact absurd hc (by decide)
  have hparen : c ≠ '(' := by
    rintro rfl
    exact absurd hc (by decide)
  unfold ofChars
  split
  · rename_i heq
    cases heq
    exact absurd rfl hquote
  · rename_i heq
    cases heq
    exact absurd rfl hparen
  · rename_i heq
    cases heq
    exact absurd rfl hparen
  · rename_i heq
    cases heq
    exact absurd rfl hparen
  · rfl

end Opening

namespace Expr

/-- A settled expression that is a single word. -/
inductive Atom : Expr → Prop
  | integer (n : Nat) : Atom (literal (.integer n) .unknown)
  | float {u : Nat} (hu : Binary64.Representable u) :
      Atom (literal (.float (.finite false u)) .unknown)
  | boolean (b : Bool) : Atom (literal (.boolean b) .unknown)
  | var {name : String} (hname : IsName name) : Atom (var name .unknown)

/-- A settled expression that is neither a call nor an assignment. -/
inductive Head : Expr → Prop
  | atom {e : Expr} (h : Atom e) : Head e
  | string {s : String} (hs : '"' ∉ s.toList) : Head (literal (.string s) .unknown)
  | unary (op : UnaryOp) {operand : Expr} (h : operand.Settled) : Head (unary op operand .unknown)
  | binary (op : BinaryOp) {left right : Expr} (hl : left.Settled) (hr : right.Settled) :
      Head (binary op left right .unknown)

/-- **A settled expression is an assignment, or a head with argument lists behind it.** -/
theorem Settled.exists_calls {e : Expr} (h : e.Settled) (hassign : e.isAssign = false) :
    ∃ head gs, e = calls gs head ∧ Head head ∧ ∀ g ∈ gs, ∀ x ∈ g, x.Settled := by
  have hbare {e : Expr} (h : Head e) :
      ∃ head gs, e = calls gs head ∧ Head head ∧ ∀ g ∈ gs, ∀ x ∈ g, x.Settled :=
    ⟨e, [], rfl, h, by simp⟩
  induction h with
  | integer n => exact hbare (.atom (.integer n))
  | float hu => exact hbare (.atom (.float hu))
  | boolean b => exact hbare (.atom (.boolean b))
  | var hname => exact hbare (.atom (.var hname))
  | string hs => exact hbare (.string hs)
  | unary op h => exact hbare (.unary op h)
  | binary op hl hr => exact hbare (.binary op hl hr)
  | @call callee arguments hcallee _ ha ih =>
    obtain ⟨head, gs, rfl, hhead, hgs⟩ := ih hcallee
    refine ⟨head, gs ++ [arguments], by simp [calls], hhead, ?_⟩
    simpa [or_imp, forall_and] using ⟨hgs, ha⟩
  | assign => cases hassign

/-! ### Words tell what they are -/

theorem chars_float (u : Nat) (p : Position) :
    (literal (.float (.finite false u)) p).chars = (Binary64.magnitudeText u).toList := by
  simp [chars, text, Literal.text, Binary64.text]

namespace Atom

variable {e e' : Expr}

/-- A word begins with a letter or a digit and is unbroken. -/
theorem wordly (h : Atom e) :
    (∃ c cs, e.chars = c :: cs ∧ (Letter c ∨ Digit c)) ∧ Unbroken e.chars := by
  cases h with
  | integer n =>
    obtain ⟨hne, hdigits⟩ := (digits_toString n).1
    obtain ⟨c, cs, htext⟩ := List.exists_cons_of_ne_nil hne
    exact ⟨⟨c, cs, htext, .inr (hdigits c (htext ▸ List.mem_cons_self))⟩,
      unbroken_of_letters fun c hc => .inr (hdigits c hc)⟩
  | @float u hu =>
    obtain ⟨hnumeric, ⟨c, cs, htext, hc⟩, -⟩ := Binary64.marked_magnitudeText u
    rw [chars_float]
    refine ⟨⟨c, cs, htext, .inr (isDigit_iff.mp hc)⟩, fun d hd hmem => ?_⟩
    have hnone : ∀ b ∈ boundary, ¬ (b.isDigit = true ∨ b ∈ ['.', 'e', '-']) := by decide
    exact hnone d hmem (hnumeric d hd)
  | boolean b =>
    cases b
    · exact ⟨⟨'f', ['a', 'l', 's', 'e'], by rfl, by decide⟩, by decide⟩
    · exact ⟨⟨'t', ['r', 'u', 'e'], by rfl, by decide⟩, by decide⟩
  | var hname =>
    obtain ⟨c, cs, htext, hc⟩ := hname.begins
    exact ⟨⟨c, cs, htext, .inl hc⟩, hname.unbroken⟩

end Atom

/-- The type of the constant that a word writes; names write none. -/
def typeOfWord (w : List Char) : Option ValueType :=
  if w.all Char.isDigit then some .int
  else if w.head?.any Char.isDigit then some .float
  else if w = "true".toList ∨ w = "false".toList then some .bool
  else none

/-- The type of the constant that an expression is. -/
def constantType? : Expr → Option ValueType
  | literal value _ => some value.type
  | _ => none

theorem typeOfWord_name {name : String} (h : IsName name) : typeOfWord name.toList = none := by
  obtain ⟨c, cs, htext, hc⟩ := h.begins
  have hdigit : c.isDigit = false := by
    rw [Bool.eq_false_iff, Ne, isDigit_iff]
    exact hc.not_digit
  have hkeyword (w : String) (hw : Kind.ofWord w ≠ .identifier) : name.toList ≠ w.toList := by
    intro heq
    exact hw (String.toList_inj.mp heq ▸ h.2)
  have hbool : ¬ (name.toList = "true".toList ∨ name.toList = "false".toList) :=
    not_or.mpr ⟨hkeyword "true" (by decide), hkeyword "false" (by decide)⟩
  rw [typeOfWord, if_neg, if_neg, if_neg hbool]
  · simp [htext, hdigit]
  · simp [htext, hdigit]

theorem typeOfWord_marked {w : List Char} (h : Binary64.Marked w) :
    typeOfWord w = some .float := by
  obtain ⟨c, cs, htext, hc⟩ := h.begins
  obtain ⟨d, hd, hmark⟩ := h.mark
  rw [typeOfWord, if_neg, if_pos]
  · simp [htext, hc]
  · rw [List.all_eq_true]
    intro hall
    rw [hall d hd] at hmark
    cases hmark

theorem typeOfWord_digits {w : List Char} (h : Digits w) : typeOfWord w = some .int :=
  if_pos (List.all_eq_true.mpr fun c hc => isDigit_iff.mpr (h.2 c hc))

namespace Atom

variable {e e' : Expr}

theorem typeOfWord (h : Atom e) : typeOfWord e.chars = e.constantType? := by
  cases h with
  | integer n => exact typeOfWord_digits (digits_toString n).1
  | float hu =>
    rw [chars_float]
    exact typeOfWord_marked (Binary64.marked_magnitudeText _)
  | boolean b => cases b <;> rfl
  | var hname => exact typeOfWord_name hname

/-- **Words with the same text are the same expression.** -/
theorem eq_of_chars (h : Atom e) (h' : Atom e') (heq : e.chars = e'.chars) : e = e' := by
  have htype : e.constantType? = e'.constantType? := by rw [← h.typeOfWord, heq, h'.typeOfWord]
  cases h with
  | integer n =>
    cases h' with
    | integer n' =>
      have hvalue : (n : Int) = n' := by
        rw [← (digits_toString n).2, ← (digits_toString n').2]
        exact congrArg (fun w => (Number.value w : Int)) heq
      rw [hvalue]
    | _ => cases htype
  | float hu =>
    cases h' with
    | float hu' =>
      rw [chars_float, chars_float, String.toList_inj] at heq
      rw [Binary64.magnitudeText_injective hu hu' heq]
    | _ => cases htype
  | boolean b =>
    cases h' with
    | boolean b' =>
      have hvalue : b = b' := by
        revert heq
        cases b <;> cases b' <;> decide
      rw [hvalue]
    | _ => cases htype
  | @var name hname =>
    cases h' with
    | @var name' hname' =>
      have hvalue : name = name' := String.toList_inj.mp heq
      rw [hvalue]
    | _ => cases htype

theorem opening (h : Atom e) : Opening.ofExpr e = .word := by
  cases h <;> rfl

end Atom

/-! ### The first characters tell the form -/

/-- The text of a settled expression begins with a letter, a digit, a quote or a parenthesis. -/
theorem Settled.begins {e : Expr} (h : e.Settled) :
    ∃ c cs, e.chars = c :: cs ∧ Opening.Starts c := by
  have hatom {e : Expr} (h : Atom e) : ∃ c cs, e.chars = c :: cs ∧ Opening.Starts c := by
    obtain ⟨c, cs, htext, hc⟩ := h.wordly.1
    exact ⟨c, cs, htext, hc.imp_right .inl⟩
  induction h with
  | integer n => exact hatom (.integer n)
  | float hu => exact hatom (.float hu)
  | boolean b => exact hatom (.boolean b)
  | var hname => exact hatom (.var hname)
  | string hs => exact ⟨'"', _, chars_string _ _, by simp [Opening.Starts]⟩
  | unary op => exact ⟨'(', _, chars_unary _ _ _, by simp [Opening.Starts]⟩
  | binary op => exact ⟨'(', _, chars_binary _ _ _ _, by simp [Opening.Starts]⟩
  | call _ _ _ ih =>
    obtain ⟨c, cs, htext, hc⟩ := ih
    exact ⟨c, _, by rw [chars_call, htext, List.cons_append], hc⟩
  | assign hname =>
    obtain ⟨c, cs, htext, hc⟩ := hname.begins
    exact ⟨c, _, by rw [chars_assign, htext, List.cons_append], .inl hc⟩

theorem Settled.begins_ne {e : Expr} (h : e.Settled) : ∃ c cs, e.chars = c :: cs ∧ c ≠ ')' := by
  obtain ⟨c, cs, htext, hc⟩ := h.begins
  refine ⟨c, cs, htext, ?_⟩
  rintro rfl
  exact absurd hc (by decide)

theorem Head.ofChars {e : Expr} (h : Head e) (r : List Char) :
    Opening.ofChars (e.chars ++ r) = .ofExpr e := by
  cases h with
  | atom h =>
    obtain ⟨c, cs, htext, hc⟩ := h.wordly.1
    rw [htext, List.cons_append, Opening.ofChars_of_word hc, h.opening]
  | string hs => rw [chars_string]; rfl
  | unary op => cases op <;> rw [chars_unary] <;> rfl
  | binary op hl =>
    obtain ⟨c, cs, htext, hc⟩ := hl.begins
    rw [chars_binary, htext]
    exact Opening.ofChars_of_starts hc _

/-- Heads whose texts begin alike have the same form. -/
theorem Head.opening_eq {e e' : Expr} (h : Head e) (h' : Head e') {r r' : List Char}
    (heq : e.chars ++ r = e'.chars ++ r') : Opening.ofExpr e = .ofExpr e' := by
  rw [← h.ofChars r, heq, h'.ofChars]

/-! ### Argument lists -/

theorem bounded_groupChars (gs : List (List Expr)) {r : List Char} (hr : MayFollow r) :
    Bounded (groupChars gs ++ r) := by
  cases gs with
  | nil => exact hr.bounded
  | cons g gs => exact bounded_cons (by decide) _

/-- **The text of the expression tells it** among settled ones, whatever follows that may. -/
abbrev Tells (e : Expr) : Prop := TellsAmong chars Settled e

/-- The text of a head tells it among heads, before any character that ends words. -/
def HeadTells (e : Expr) : Prop :=
  ∀ {e' : Expr} {r r' : List Char}, Head e' → Bounded r → Bounded r' →
    e.chars ++ r = e'.chars ++ r' → e = e' ∧ r = r'

theorem groupChars_tell {gs gs' : List (List Expr)} {r r' : List Char}
    (hs : ∀ g ∈ gs, ∀ x ∈ g, x.Settled) (h : ∀ g ∈ gs, ∀ x ∈ g, x.Tells)
    (h' : ∀ g ∈ gs', ∀ x ∈ g, x.Settled) (hr : MayFollow r) (hr' : MayFollow r')
    (heq : groupChars gs ++ r = groupChars gs' ++ r') : gs = gs' ∧ r = r' := by
  induction gs generalizing gs' with
  | nil =>
    cases gs' with
    | nil => exact ⟨rfl, heq⟩
    | cons g' gs' =>
      rw [groupChars_cons, groupChars_nil] at heq
      exact (heq ▸ hr).not_paren.elim
  | cons g gs ih =>
    rw [groupChars_cons] at heq
    cases gs' with
    | nil =>
      rw [groupChars_nil] at heq
      exact (heq ▸ hr').not_paren.elim
    | cons g' gs' =>
      rw [groupChars_cons] at heq
      obtain ⟨hsg, hsgs⟩ := List.forall_mem_cons.mp hs
      obtain ⟨hg, hgs⟩ := List.forall_mem_cons.mp h
      obtain ⟨hg', hgs'⟩ := List.forall_mem_cons.mp h'
      obtain ⟨rfl, hrest⟩ := separated_tell (fun x hx => (hsg x hx).begins_ne)
        (fun x hx => (hg' x hx).begins_ne) hg hg' (List.tail_eq_of_cons_eq heq)
      obtain ⟨rfl, rfl⟩ := ih hsgs hgs hgs' hrest
      exact ⟨rfl, rfl⟩

/-! ### Heads -/

theorem Atom.headTells {e : Expr} (h : Atom e) : e.HeadTells := by
  intro e' r r' he' hr hr' heq
  have hopening := (Head.atom h).opening_eq he' heq
  rw [h.opening] at hopening
  cases he' with
  | atom h' =>
    obtain ⟨hchars, rfl⟩ := h.wordly.2.cancel h'.wordly.2 hr hr' heq
    exact ⟨h.eq_of_chars h' hchars, rfl⟩
  | string | binary => cases hopening
  | unary op => cases op <;> cases hopening

/-- What stands between quotes is told from what follows. -/
theorem quote_cancel {s s' r r' : List Char} (hs : '"' ∉ s) (hs' : '"' ∉ s')
    (h : s ++ '"' :: r = s' ++ '"' :: r') : s = s' ∧ r = r' := by
  have htake {w : List Char} (hw : '"' ∉ w) (cs : List Char) :
      (w ++ '"' :: cs).takeWhile (· ≠ '"') = w := by
    have hall : ∀ c ∈ w, decide (c ≠ '"') = true := by
      intro c hc
      refine decide_eq_true ?_
      rintro rfl
      exact hw hc
    rw [List.takeWhile_append_of_pos hall, List.takeWhile_cons_of_neg (by simp), List.append_nil]
  have hstring : s = s' := by rw [← htake hs r, h, htake hs' r']
  subst hstring
  exact ⟨rfl, List.tail_eq_of_cons_eq (List.append_cancel_left h)⟩

theorem headTells_string {s : String} (hs : '"' ∉ s.toList) :
    (literal (.string s) .unknown).HeadTells := by
  intro e' r r' he' hr hr' heq
  have hopening := (Head.string hs).opening_eq he' heq
  cases he' with
  | atom h' =>
    rw [h'.opening] at hopening
    cases hopening
  | @string s' hs' =>
    rw [chars_string, chars_string] at heq
    simp only [List.cons_append, List.append_assoc, List.cons.injEq, true_and, List.nil_append]
      at heq
    obtain ⟨hstring, rfl⟩ := quote_cancel hs hs' heq
    exact ⟨by rw [String.toList_inj.mp hstring], rfl⟩
  | unary op => cases op <;> cases hopening
  | binary => cases hopening

theorem headTells_unary (op : UnaryOp) {operand : Expr} (hs : operand.Settled) (h : operand.Tells) :
    (unary op operand .unknown).HeadTells := by
  intro e' r r' he' hr hr' heq
  have hopening := (Head.unary op hs).opening_eq he' heq
  cases he' with
  | atom h' =>
    rw [h'.opening] at hopening
    cases op <;> cases hopening
  | string | binary => cases op <;> cases hopening
  | unary op' h' =>
    have hop : op = op' := by
      revert hopening
      cases op <;> cases op' <;> simp [Opening.ofExpr]
    subst hop
    rw [chars_unary, chars_unary] at heq
    simp only [List.cons_append, List.append_assoc, List.cons.injEq, true_and, List.nil_append,
      List.append_cancel_left_eq] at heq
    obtain ⟨rfl, hrest⟩ := h h' (mayFollow_cons (by decide) r) (mayFollow_cons (by decide) r') heq
    exact ⟨rfl, List.tail_eq_of_cons_eq hrest⟩

theorem headTells_binary (op : BinaryOp) {left right : Expr} (hl : left.Settled)
    (hr : right.Settled) (hleft : left.Tells) (hright : right.Tells) :
    (binary op left right .unknown).HeadTells := by
  intro e' r r' he' _ _ heq
  have hopening := (Head.binary op hl hr).opening_eq he' heq
  cases he' with
  | atom h' =>
    rw [h'.opening] at hopening
    cases hopening
  | string => cases hopening
  | unary op' => cases op' <;> cases hopening
  | binary op' hl' hr' =>
    rw [chars_binary, chars_binary] at heq
    simp only [List.cons_append, List.append_assoc, List.cons.injEq, true_and, List.nil_append]
      at heq
    obtain ⟨rfl, hsign⟩ := hleft hl' (op.mayFollow_symbol _) (op'.mayFollow_symbol _) heq
    obtain ⟨hsymbol, hblank⟩ := op.unbroken_symbol.cancel op'.unbroken_symbol
      (bounded_cons (by decide) _) (bounded_cons (by decide) _) (List.tail_eq_of_cons_eq hsign)
    obtain rfl := BinaryOp.symbol_injective hsymbol
    obtain ⟨rfl, hparen⟩ := hright hr' (mayFollow_cons (by decide) r)
      (mayFollow_cons (by decide) r') (List.tail_eq_of_cons_eq hblank)
    exact ⟨rfl, List.tail_eq_of_cons_eq hparen⟩

/-! ### Expressions -/

/-- An assignment does not begin like a head with argument lists. -/
theorem assign_ne_calls {name : String} (hname : IsName name) {head : Expr} (hhead : Head head)
    {gs : List (List Expr)} {r cs : List Char} (hr : MayFollow r) :
    name.toList ++ ([' ', '=', ' '] ++ cs) ≠ head.chars ++ (groupChars gs ++ r) := by
  intro heq
  have hopening : Opening.ofExpr head = .word := by
    obtain ⟨c, ds, htext, hc⟩ := hname.begins
    rw [← hhead.ofChars (groupChars gs ++ r), ← heq, htext, List.cons_append,
      Opening.ofChars_of_word (.inl hc)]
  cases hhead with
  | atom h =>
    obtain ⟨-, hrest⟩ := hname.unbroken.cancel h.wordly.2 (bounded_cons (by decide) _)
      (bounded_groupChars gs hr) heq
    cases gs with
    | nil => exact hr.unassigned ⟨cs, hrest⟩
    | cons g gs =>
      rw [groupChars_cons] at hrest
      cases hrest
  | string | binary => cases hopening
  | unary op => cases op <;> cases hopening

theorem tells_calls {head : Expr} (hhead : Head head) (h : head.HeadTells) {gs : List (List Expr)}
    (hs : ∀ g ∈ gs, ∀ x ∈ g, x.Settled) (hgs : ∀ g ∈ gs, ∀ x ∈ g, x.Tells) :
    (head.calls gs).Tells := by
  intro e' r r' he' hr hr' heq
  rw [chars_calls, List.append_assoc] at heq
  cases hassign : e'.isAssign with
  | true =>
    cases he' with
    | assign hname =>
      rw [chars_assign, List.append_assoc, List.append_assoc] at heq
      exact absurd heq.symm (assign_ne_calls hname hhead hr)
    | _ => cases hassign
  | false =>
    obtain ⟨head', gs', rfl, hhead', hgs'⟩ := he'.exists_calls hassign
    rw [chars_calls, List.append_assoc] at heq
    obtain ⟨rfl, hrest⟩ := h hhead' (bounded_groupChars gs hr) (bounded_groupChars gs' hr') heq
    obtain ⟨rfl, rfl⟩ := groupChars_tell hs hgs hgs' hr hr' hrest
    exact ⟨rfl, rfl⟩

theorem tells_assign {name : String} (hname : IsName name) {value : Expr} (h : value.Tells) :
    (assign name value .unknown).Tells := by
  intro e' r r' he' hr hr' heq
  rw [chars_assign, List.append_assoc, List.append_assoc] at heq
  cases hassign : e'.isAssign with
  | true =>
    cases he' with
    | assign hname' hv' =>
      rw [chars_assign, List.append_assoc, List.append_assoc] at heq
      obtain ⟨htext, hrest⟩ := hname.unbroken.cancel hname'.unbroken (bounded_cons (by decide) _)
        (bounded_cons (by decide) _) heq
      obtain ⟨rfl, rfl⟩ := h hv' hr hr' (by simpa using hrest)
      exact ⟨by rw [String.toList_inj.mp htext], rfl⟩
    | _ => cases hassign
  | false =>
    obtain ⟨head, gs, rfl, hhead, -⟩ := he'.exists_calls hassign
    rw [chars_calls, List.append_assoc] at heq
    exact absurd heq (assign_ne_calls hname hhead hr')

/-- The text of a settled expression with argument lists behind it tells them. -/
theorem Settled.tells_calls {e : Expr} (h : e.Settled) : ∀ gs : List (List Expr),
    (∀ g ∈ gs, ∀ x ∈ g, x.Settled) → (∀ g ∈ gs, ∀ x ∈ g, x.Tells) →
      (e.isAssign = true → gs = []) → (e.calls gs).Tells := by
  have hself {e : Expr} (h : ∀ gs : List (List Expr), (∀ g ∈ gs, ∀ x ∈ g, x.Settled) →
      (∀ g ∈ gs, ∀ x ∈ g, x.Tells) → (e.isAssign = true → gs = []) → (e.calls gs).Tells) :
      e.Tells := h [] (by simp) (by simp) fun _ => rfl
  have hatom {e : Expr} (h : Atom e) (gs : List (List Expr)) (hs : ∀ g ∈ gs, ∀ x ∈ g, x.Settled)
      (hgs : ∀ g ∈ gs, ∀ x ∈ g, x.Tells) : (e.calls gs).Tells :=
    Expr.tells_calls (.atom h) h.headTells hs hgs
  induction h with
  | integer n => exact fun gs hs hgs _ => hatom (.integer n) gs hs hgs
  | float hu => exact fun gs hs hgs _ => hatom (.float hu) gs hs hgs
  | boolean b => exact fun gs hs hgs _ => hatom (.boolean b) gs hs hgs
  | var hname => exact fun gs hs hgs _ => hatom (.var hname) gs hs hgs
  | string h =>
    intro gs hs hgs _
    exact Expr.tells_calls (.string h) (headTells_string h) hs hgs
  | unary op h ih =>
    intro gs hs hgs _
    exact Expr.tells_calls (.unary op h) (headTells_unary op h (hself ih)) hs hgs
  | binary op hl hr ihl ihr =>
    intro gs hs hgs _
    exact Expr.tells_calls (.binary op hl hr)
      (headTells_binary op hl hr (hself ihl) (hself ihr)) hs hgs
  | @call callee arguments hassign _ ha ih iha =>
    -- the arguments are the first of the lists behind the callee
    intro gs hs hgs _
    refine ih (arguments :: gs) ?_ ?_ fun h => absurd (h.symm.trans hassign) (by decide)
    · exact List.forall_mem_cons.mpr ⟨ha, hs⟩
    · exact List.forall_mem_cons.mpr ⟨fun x hx => hself (iha x hx), hgs⟩
  | assign hname _ ih =>
    intro gs _ _ hnil
    obtain rfl := hnil rfl
    exact tells_assign hname (hself ih)

/-- **The text of a settled expression tells it.** -/
theorem Settled.tells {e : Expr} (h : e.Settled) : e.Tells :=
  h.tells_calls [] (by simp) (by simp) fun _ => rfl

end Expr

end StackListing
