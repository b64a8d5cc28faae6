import StackListing.Proofs.Grammar.ExprReading
import StackListing.Proofs.Printing.Parts
import StackListing.Proofs.Printing.Yields

/-!
# Printed expressions are read back

The text of an expression yields the tokens of a derivation that stands for the same expression up
to positions (`Expr.yields_text`).  An operation is printed in parentheses, so its derivation is one
of the tightest level but for calls; only an assignment is printed bare, and it may stand wherever
any expression may, but not as an operand and not as a callee.
-/

namespace StackListing

/-- A part that is printed so that it can be read back. -/
structure Expr.Printable (e : Expr) : Prop where
  lexical : e.Lexical
  operands : e.OperandsUnassigned
  float : e.FloatReadable

/-- The tokens have a derivation of level `p` that stands for `e` up to positions. -/
def DerivesExpr (p : Power) (e : Expr) (ts : List Token) : Prop :=
  ∃ d : ExprTree p, d.tokens = ts ∧ d.expr.unplaced = e.unplaced

theorem DerivesExpr.weaken {p q : Power} {e : Expr} {ts : List Token} (h : DerivesExpr q e ts)
    (hle : p.rank ≤ q.rank) : DerivesExpr p e ts := by
  obtain ⟨d, htokens, hexpr⟩ := h
  obtain ⟨d', htokens', hexpr'⟩ := d.exists_of_le hle
  exact ⟨d', htokens'.trans htokens, by rw [hexpr', hexpr]⟩

/-- The level at which the text of an expression is derived. -/
def Expr.level : Expr → Power
  | assign _ _ _ => .assignment
  | _ => .call

theorem Expr.rank_level (e : Expr) : Power.assignment.rank ≤ e.level.rank := by
  cases e <;> simp [level, Power.rank]

theorem Expr.level_of_not_assign {e : Expr} (h : e.isAssign = false) : e.level = .call := by
  cases e <;> first | rfl | cases h

/-! ### Constants -/

/-- The digits of a number that is not negative. -/
theorem digits_toString (m : Nat) :
    Digits (toString (m : Int)).toList ∧ Number.value (toString (m : Int)).toList = m := by
  have htext : (toString (m : Int)).toList = Nat.toDigits 10 m := by
    show (Nat.repr m).toList = _
    rw [Nat.repr_eq_ofList_toDigits, String.toList_ofList]
  rw [htext]
  refine ⟨⟨Nat.toDigits_ne_nil, fun c hc => ?_⟩, Nat.ofDigitChars_ten_toDigits⟩
  exact isDigit_iff.mp (Nat.isDigit_of_mem_toDigits (by decide) (by decide) hc)

theorem Literal.yields_text {value : Literal} {pos : Position}
    (h : (Expr.literal value pos).Printable) :
    Yields value.text Bounded fun ts => ∃ w : LiteralWord, ts = [w.token] ∧ w.value = value := by
  cases value with
  | integer n =>
    obtain ⟨hn, hmax⟩ := h.lexical
    obtain ⟨m, rfl⟩ := Int.eq_ofNat_of_zero_le hn
    obtain ⟨hdigits, hvalue⟩ := digits_toString m
    have hread : Number.readInteger? (toString (m : Int)) = some (m : Int) :=
      (readInteger_eq_some_iff hdigits).mpr ⟨by rw [hvalue], hmax⟩
    refine (yields_integer hdigits).map ?_
    rintro _ ⟨p, rfl⟩
    exact ⟨⟨⟨.integerLiteral, _, p⟩, .integer m, congrArg (Option.map Literal.integer) hread⟩, rfl,
      rfl⟩
  | float x =>
    obtain ⟨hmatches, hread⟩ := h.float
    refine (yields_float hmatches).map ?_
    rintro _ ⟨p, rfl⟩
    exact ⟨⟨⟨.floatLiteral, _, p⟩, .float x, congrArg (Option.map Literal.float) hread⟩, rfl, rfl⟩
  | string s =>
    refine (yields_string h.lexical).anywhere ?_
    rintro _ ⟨p, rfl⟩
    exact ⟨⟨_, .string s, rfl⟩, rfl, rfl⟩
  | boolean b =>
    cases b with
    | true =>
      refine (yields_word (w := "true") (by decide)).map ?_
      rintro _ ⟨p, rfl⟩
      exact ⟨⟨_, .boolean true, rfl⟩, rfl, rfl⟩
    | false =>
      refine (yields_word (w := "false") (by decide)).map ?_
      rintro _ ⟨p, rfl⟩
      exact ⟨⟨_, .boolean false, rfl⟩, rfl, rfl⟩

theorem yields_name {name : String} (h : IsName name) :
    Yields name Bounded fun ts => ∃ w : Word .identifier, ts = [w.1] ∧ w.1.value = name := by
  refine (yields_word h.1).map ?_
  rintro _ ⟨p, rfl⟩
  exact ⟨⟨_, h.2⟩, rfl, rfl⟩

/-! ### Operators -/

theorem BinaryOp.yields_symbol (op : BinaryOp) :
    Yields op.symbol Bounded fun ts => ∃ w : InfixWord op.level, ts = [w.token] ∧ w.op = op := by
  have hall : ∃ kind : Kind,
      kind.sign? = some op.symbol.toList ∧ BinaryOp.ofKind? kind = some op := by
    cases op
    exacts [⟨.plus, rfl, rfl⟩, ⟨.dash, rfl, rfl⟩, ⟨.star, rfl, rfl⟩, ⟨.slash, rfl, rfl⟩,
      ⟨.percent, rfl, rfl⟩, ⟨.equal, rfl, rfl⟩, ⟨.notEqual, rfl, rfl⟩, ⟨.less, rfl, rfl⟩,
      ⟨.lessEqual, rfl, rfl⟩, ⟨.greater, rfl, rfl⟩, ⟨.greaterEqual, rfl, rfl⟩, ⟨.ampAmp, rfl, rfl⟩,
      ⟨.barBar, rfl, rfl⟩]
  obtain ⟨kind, hsign, hop⟩ := hall
  refine (yields_sign kind op.symbol hsign).map ?_
  rintro _ ⟨p, rfl⟩
  exact ⟨⟨_, op, hop, rfl⟩, rfl, rfl⟩

theorem yields_bang : Yields "!" (fun rest => rest.head? ≠ some '=') (Single .bang "!") := by
  refine yields_of_sign rfl fun c cs rest htext hrest => ?_
  change ['!'] = c :: cs at htext
  cases htext
  cases rest with
  | nil => rfl
  | cons d rest =>
    have hd : ('=' == d) = false := by
      rw [beq_eq_false_iff_ne]
      rintro rfl
      exact hrest rfl
    show Segment.mark '!' (d :: rest) = _
    simp [Segment.mark, Segment.marks, List.isPrefixOf, hd]

theorem UnaryOp.yields_symbol (op : UnaryOp) :
    Yields op.symbol (fun rest => rest.head? ≠ some '=') fun ts =>
      ∃ w : PrefixWord, ts = [w.token] ∧ w.op = op := by
  cases op with
  | negate =>
    refine (yields_mark .dash "-" rfl (by decide)).anywhere ?_
    rintro _ ⟨p, rfl⟩
    exact ⟨⟨_, .negate, rfl⟩, rfl, rfl⟩
  | not =>
    refine yields_bang.map ?_
    rintro _ ⟨p, rfl⟩
    exact ⟨⟨_, .not, rfl⟩, rfl, rfl⟩

/-! ### Derivations of operations -/

namespace DerivesExpr

variable {e left right : Expr} {a b ts : List Token}

theorem paren (l : Word .openParen) (r : Word .closeParen) (h : DerivesExpr .assignment e ts) :
    DerivesExpr .call e (l.1 :: (ts ++ [r.1])) := by
  obtain ⟨d, rfl, hexpr⟩ := h
  have hprimary : DerivesExpr .primary e (l.1 :: (d.tokens ++ [r.1])) := ⟨.paren l d r, rfl, hexpr⟩
  exact hprimary.weaken (by decide)

theorem unary (pos : Position) (w : PrefixWord) (h : DerivesExpr .call e ts) :
    DerivesExpr .assignment (.unary w.op e pos) (w.token :: ts) := by
  obtain ⟨d, rfl, hexpr⟩ := h.weaken (p := .unary) (by decide)
  have hunary : DerivesExpr .unary (.unary w.op e pos) (w.token :: d.tokens) := by
    refine ⟨.unary w d, rfl, ?_⟩
    simp only [ExprTree.expr, Expr.unplaced, hexpr]
  exact hunary.weaken (by decide)

theorem binary {p : Power} (pos : Position) (w : InfixWord p) (hleft : DerivesExpr .call left a)
    (hright : DerivesExpr .call right b) :
    DerivesExpr .assignment (.binary w.op left right pos) (a ++ w.token :: b) := by
  obtain ⟨q, hq⟩ := w.tighter
  have hrank : q.rank ≤ Power.call.rank ∧ Power.assignment.rank ≤ p.rank := by
    have hlevel := w.level
    revert hq hlevel
    cases w.op <;> rintro hq rfl <;> cases hq <;> decide
  obtain ⟨d, rfl, hd⟩ := hleft.weaken hrank.1
  obtain ⟨d', rfl, hd'⟩ := hright.weaken hrank.1
  have hlevel : DerivesExpr p (.binary w.op left right pos) (d.tokens ++ w.token :: d'.tokens) := by
    refine ⟨.joined hq d (.binary hq w d' .nil), ?_, ?_⟩
    · simp only [ExprTree.tokens, LinkTrees.tokens, List.append_nil]
    · simp only [ExprTree.expr, LinkTrees.join, Expr.unplaced, hd, hd']
  exact hlevel.weaken hrank.2

theorem callEmpty (pos : Position) (l : Word .openParen) (r : Word .closeParen)
    (h : DerivesExpr .call e ts) :
    DerivesExpr .call (.call e [] pos) (ts ++ [l.1, r.1]) := by
  obtain ⟨d, rfl, hexpr⟩ := h
  obtain ⟨d', htokens, hexpr'⟩ := d.exists_link (.callEmpty l r .nil) (by decide)
  refine ⟨d', htokens, ?_⟩
  simp only [hexpr', LinkTrees.join, Expr.unplaced, hexpr]

theorem call {arguments : List Expr} (pos : Position) (l : Word .openParen) (args : ArgumentTrees)
    (r : Word .closeParen) (h : DerivesExpr .call e ts)
    (hargs : Expr.unplacedAll args.exprs = Expr.unplacedAll arguments) :
    DerivesExpr .call (.call e arguments pos) (ts ++ l.1 :: (args.tokens ++ [r.1])) := by
  obtain ⟨d, rfl, hexpr⟩ := h
  obtain ⟨d', htokens, hexpr'⟩ := d.exists_link (.call l args r .nil) (by decide)
  refine ⟨d', htokens, ?_⟩
  simp only [hexpr', LinkTrees.join, Expr.unplaced, hexpr, hargs]

theorem assign (pos : Position) (w : Word .identifier) (sign : Word .assign)
    (h : DerivesExpr .assignment e ts) :
    DerivesExpr .assignment (.assign w.1.value e pos) (w.1 :: sign.1 :: ts) := by
  obtain ⟨d, rfl, hexpr⟩ := h
  refine ⟨.assign (.name w) sign d, rfl, ?_⟩
  simp only [ExprTree.expr, Expr.unplaced, TargetTree.token, hexpr]

end DerivesExpr

/-! ### Texts of expressions -/

/-- A printed expression does not begin with an equals sign. -/
theorem Expr.text_begins : ∀ e : Expr, (∀ x ∈ e.parts, x.Printable) →
    ∃ c cs, e.text.toList = c :: cs ∧ c ≠ '='
  | .literal (.integer n) _, h => by
    obtain ⟨hn, -⟩ := (h _ List.mem_cons_self).lexical
    obtain ⟨m, rfl⟩ := Int.eq_ofNat_of_zero_le hn
    have hdigits := (digits_toString m).1
    obtain ⟨c, cs, htext⟩ := List.exists_cons_of_ne_nil hdigits.1
    refine ⟨c, cs, htext, ?_⟩
    rintro rfl
    exact absurd (hdigits.2 _ (htext ▸ List.mem_cons_self)) (by decide)
  | .literal (.float x) _, h => by
    obtain ⟨c, cs, htext, hc⟩ := (h _ List.mem_cons_self).float.1.opens
    refine ⟨c, cs, htext, ?_⟩
    rintro rfl
    exact absurd hc (show ¬ Digit '=' by decide)
  | .literal (.string s) _, _ => ⟨'"', s.toList ++ ['"'], by simp [text, Literal.text], by decide⟩
  | .literal (.boolean true) _, _ => ⟨'t', ['r', 'u', 'e'], by rw [text]; rfl, by decide⟩
  | .literal (.boolean false) _, _ => ⟨'f', ['a', 'l', 's', 'e'], by rw [text]; rfl, by decide⟩
  | .var name _, h => by
    obtain ⟨c, cs, htext, hc⟩ := (h _ List.mem_cons_self).lexical.1.opens
    refine ⟨c, cs, htext, ?_⟩
    rintro rfl
    exact absurd hc (show ¬ Letter '=' by decide)
  | .unary op operand _, _ => ⟨'(', _, by simp [text]; rfl, by decide⟩
  | .binary op left right _, _ => ⟨'(', _, by simp [text]; rfl, by decide⟩
  | .call callee arguments _, h => by
    simp only [parts, List.forall_mem_cons, List.forall_mem_append] at h
    obtain ⟨c, cs, htext, hc⟩ := callee.text_begins h.2.1
    exact ⟨c, _, by simp [text, htext]; rfl, hc⟩
  | .assign name value _, h => by
    obtain ⟨c, cs, htext, hc⟩ := (h _ List.mem_cons_self).lexical.1.opens
    refine ⟨c, _, by simp [text, htext]; rfl, ?_⟩
    rintro rfl
    exact absurd hc (show ¬ Letter '=' by decide)

/-- A single token is a word of its kind. -/
theorem Single.word {kind : Kind} {value : String} {ts : List Token} (h : Single kind value ts) :
    ∃ w : Word kind, ts = [w.1] := by
  obtain ⟨p, rfl⟩ := h
  exact ⟨⟨_, rfl⟩, rfl⟩

theorem yields_openParen : Yields "(" Anything fun ts => ∃ l : Word .openParen, ts = [l.1] :=
  (yields_mark .openParen "(" rfl (by decide)).map fun _ => Single.word

theorem yields_closeParen : Yields ")" Anything fun ts => ∃ r : Word .closeParen, ts = [r.1] :=
  (yields_mark .closeParen ")" rfl (by decide)).map fun _ => Single.word

/-- A comma and the blank behind it. -/
theorem yields_separator : Yields ", " Anything fun ts => ∃ w : Word .comma, ts = [w.1] :=
  (yields_sign .comma "," rfl).blank.map fun _ => Single.word

/-- An equals sign between blanks. -/
theorem yields_assign : Yields " = " Anything fun ts => ∃ w : Word .assign, ts = [w.1] := by
  refine (yields_blank.next (yields_sign .assign "=" rfl)).blank.map ?_
  rintro _ ⟨_, _, rfl, rfl, hsign⟩
  exact hsign.word

mutual

/-- **The text of an expression yields a derivation of it.** -/
theorem Expr.yields_text : ∀ e : Expr, (∀ x ∈ e.parts, x.Printable) →
    Yields e.text Bounded (DerivesExpr e.level e)
  | .literal value pos, h => by
    refine (Literal.yields_text (h _ List.mem_cons_self)).map ?_
    rintro _ ⟨w, rfl, rfl⟩
    have hprimary : DerivesExpr .primary (.literal w.value pos) [w.token] := ⟨.literal w, rfl, rfl⟩
    exact hprimary.weaken (show Power.call.rank ≤ _ by decide)
  | .var name pos, h => by
    refine (yields_name (h _ List.mem_cons_self).lexical).map ?_
    rintro _ ⟨w, rfl, rfl⟩
    have hprimary : DerivesExpr .primary (.var w.1.value pos) [w.1] := ⟨.var w, rfl, rfl⟩
    exact hprimary.weaken (show Power.call.rank ≤ _ by decide)
  | .unary op operand pos, h => by
    simp only [Expr.parts, List.forall_mem_cons] at h
    obtain ⟨c, cs, htext, hc⟩ := operand.text_begins h.2
    have hoperand := operand.yields_text h.2
    rw [level_of_not_assign h.1.operands] at hoperand
    have hyields := ((yields_openParen.next op.yields_symbol).seq hoperand
      fun rest _ => by rw [htext]; simpa using hc).upTo yields_closeParen (by decide)
    refine hyields.anywhere ?_
    rintro _ ⟨_, _, rfl, ⟨_, _, rfl, ⟨_, _, rfl, ⟨l, rfl⟩, w, rfl, rfl⟩, hoperand⟩, r, rfl⟩
    have hparen := (hoperand.unary pos w).paren l r
    simpa [level] using hparen
  | .binary op left right pos, h => by
    simp only [Expr.parts, List.forall_mem_cons, List.forall_mem_append] at h
    obtain ⟨hwhole, hl, hr⟩ := h
    have hleft := left.yields_text hl
    have hright := right.yields_text hr
    rw [level_of_not_assign hwhole.operands.1] at hleft
    rw [level_of_not_assign hwhole.operands.2] at hright
    have hfirst := (yields_openParen.next hleft).blank.next op.yields_symbol
    have hyields := (hfirst.blank.next hright).upTo yields_closeParen (by decide)
    refine hyields.anywhere ?_
    rintro _ ⟨_, _, rfl, ⟨_, _, rfl, ⟨_, _, rfl, ⟨_, _, rfl, ⟨l, rfl⟩, hleft⟩, w, rfl, hop⟩,
      hright⟩, r, rfl⟩
    have hparen := (hleft.binary pos w hright).paren l r
    rw [hop] at hparen
    simpa [level] using hparen
  | .call callee arguments pos, h => by
    simp only [Expr.parts, List.forall_mem_cons, List.forall_mem_append] at h
    have hcallee := callee.yields_text h.2.1
    rw [level_of_not_assign h.1.operands] at hcallee
    have hopen := hcallee.upTo yields_openParen (by decide)
    cases arguments with
    | nil =>
      have hyields := (hopen.next (Yields.empty (B := Anything))).next yields_closeParen
      refine hyields.anywhere ?_
      rintro _ ⟨_, _, rfl, ⟨_, _, rfl, ⟨_, _, rfl, hcallee, l, rfl⟩, rfl⟩, r, rfl⟩
      have hcall := hcallee.callEmpty pos l r
      simpa [level] using hcall
    | cons e es =>
      have harguments := yields_texts (e :: es) (by simp) h.2.2
      have hyields := (hopen.next harguments).upTo yields_closeParen (by decide)
      refine hyields.anywhere ?_
      rintro _ ⟨_, _, rfl, ⟨_, _, rfl, ⟨_, _, rfl, hcallee, l, rfl⟩, args, rfl, hargs⟩, r, rfl⟩
      have hcall := hcallee.call pos l args r hargs
      simpa [level] using hcall
  | .assign name value pos, h => by
    simp only [Expr.parts, List.forall_mem_cons] at h
    have htarget := (yields_name h.1.lexical).upTo yields_assign (by decide)
    have hyields := htarget.next (value.yields_text h.2)
    refine hyields.map ?_
    rintro _ ⟨_, _, rfl, ⟨_, _, rfl, ⟨w, rfl, rfl⟩, sign, rfl⟩, hvalue⟩
    exact (hvalue.weaken value.rank_level).assign pos w sign

/-- The texts of arguments, with commas between them, yield derivations of them. -/
theorem Expr.yields_texts : ∀ es : List Expr, es ≠ [] → (∀ x ∈ partsAll es, x.Printable) →
    Yields (", ".intercalate (texts es)) Bounded fun ts =>
      ∃ args : ArgumentTrees, args.tokens = ts ∧ unplacedAll args.exprs = unplacedAll es
  | [], hne, _ => absurd rfl hne
  | [e], _, h => by
    simp only [partsAll, List.append_nil] at h
    simp only [texts, String.intercalate_singleton]
    refine (e.yields_text h).map ?_
    intro ts hts
    obtain ⟨d, htokens, hexpr⟩ := hts.weaken e.rank_level
    refine ⟨.one d, htokens, ?_⟩
    simp only [ArgumentTrees.exprs, unplacedAll, hexpr]
  | e :: e' :: es, _, h => by
    rw [partsAll, List.forall_mem_append] at h
    simp only [texts, String.intercalate_cons_cons]
    have hrest := yields_texts (e' :: es) (by simp) h.2
    simp only [texts] at hrest
    refine (((e.yields_text h.1).upTo yields_separator (by decide)).next hrest).map ?_
    rintro _ ⟨_, _, rfl, ⟨_, _, rfl, he, comma, rfl⟩, args, rfl, hargs⟩
    obtain ⟨d, rfl, hexpr⟩ := he.weaken e.rank_level
    refine ⟨.more d comma args, ?_, ?_⟩
    · simp [ArgumentTrees.tokens]
    · rw [ArgumentTrees.exprs, unplacedAll, hexpr, hargs]
      rfl

end

end StackListing
