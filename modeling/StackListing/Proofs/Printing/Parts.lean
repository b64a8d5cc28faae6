import StackListing.Proofs.Grammar.Tree
import StackListing.Proofs.Lexing.MaximalMunch
import StackListing.Proofs.Number.Rounding

/-!
# Programs up to positions, and what their words are

Two programs are the same up to positions if they are equal once every position is forgotten
(`unplaced`).  The parts of a program are all the expressions in it.  A program that was read from a
source has only parts that the source could write: its names are words that are no keywords, its
numbers have no sign and its strings no quote (`ExprTree.lexical`).
-/

namespace StackListing

/-! ### Without positions -/

namespace Expr

mutual

/-- The expression with every position forgotten. -/
def unplaced : Expr → Expr
  | literal value _ => literal value .unknown
  | var name _ => var name .unknown
  | unary op operand _ => unary op operand.unplaced .unknown
  | binary op left right _ => binary op left.unplaced right.unplaced .unknown
  | call callee arguments _ => call callee.unplaced (unplacedAll arguments) .unknown
  | assign name value _ => assign name value.unplaced .unknown

@[inherit_doc unplaced]
def unplacedAll : List Expr → List Expr
  | [] => []
  | e :: es => e.unplaced :: unplacedAll es

end

end Expr

@[inherit_doc Expr.unplaced]
def Parameter.unplaced (p : Parameter) : Parameter := { p with position := .unknown }

namespace Stmt

mutual

/-- The statement with every position forgotten. -/
def unplaced : Stmt → Stmt
  | expr e => expr e.unplaced
  | variableDecl type name initial _ => variableDecl type name (initial.map Expr.unplaced) .unknown
  | block body _ => block (unplacedAll body) .unknown
  | branch c yes no _ => branch c.unplaced yes.unplaced (unplacedOption no) .unknown
  | whileLoop c body _ => whileLoop c.unplaced body.unplaced .unknown
  | forLoop initial c i body _ =>
    forLoop (unplacedOption initial) (c.map Expr.unplaced) (i.map Expr.unplaced) body.unplaced
      .unknown
  | giveBack value _ => giveBack (value.map Expr.unplaced) .unknown
  | functionDecl result name parameters body _ _ =>
    functionDecl result name (parameters.map Parameter.unplaced) (unplacedAll body) .unknown
      .unknown
  | print e _ => print e.unplaced .unknown

@[inherit_doc unplaced]
def unplacedAll : List Stmt → List Stmt
  | [] => []
  | s :: rest => s.unplaced :: unplacedAll rest

@[inherit_doc unplaced]
def unplacedOption : Option Stmt → Option Stmt
  | none => none
  | some s => some s.unplaced

end

end Stmt

/-- The program with every position forgotten. -/
def Program.unplaced (p : Program) : Program := ⟨Stmt.unplacedAll p.statements⟩

/-! ### Parts -/

namespace Expr

mutual

/-- The expression and the expressions inside it. -/
def parts : Expr → List Expr
  | literal value p => [literal value p]
  | var name p => [var name p]
  | unary op operand p => unary op operand p :: operand.parts
  | binary op left right p => binary op left right p :: (left.parts ++ right.parts)
  | call callee arguments p => call callee arguments p :: (callee.parts ++ partsAll arguments)
  | assign name value p => assign name value p :: value.parts

@[inherit_doc parts]
def partsAll : List Expr → List Expr
  | [] => []
  | e :: es => e.parts ++ partsAll es

end

/-- The parts of an expression that may be absent. -/
def partsOption : Option Expr → List Expr
  | none => []
  | some e => e.parts

end Expr

namespace Stmt

mutual

/-- The expressions of a statement. -/
def parts : Stmt → List Expr
  | expr e => e.parts
  | variableDecl _ _ initial _ => Expr.partsOption initial
  | block body _ => partsAll body
  | branch c yes no _ => c.parts ++ (yes.parts ++ partsOption no)
  | whileLoop c body _ => c.parts ++ body.parts
  | forLoop initial c i body _ =>
    partsOption initial ++ (Expr.partsOption c ++ (Expr.partsOption i ++ body.parts))
  | giveBack value _ => Expr.partsOption value
  | functionDecl _ _ _ body _ _ => partsAll body
  | print e _ => e.parts

@[inherit_doc parts]
def partsAll : List Stmt → List Expr
  | [] => []
  | s :: rest => s.parts ++ partsAll rest

@[inherit_doc parts]
def partsOption : Option Stmt → List Expr
  | none => []
  | some s => s.parts

end

end Stmt

/-- The expressions of a program. -/
def Program.parts (p : Program) : List Expr := Stmt.partsAll p.statements

namespace Expr

/-- Whether the expression is an assignment. -/
def isAssign : Expr → Bool
  | assign _ _ _ => true
  | _ => false

/-- No operand of the expression, and no callee, is an assignment. -/
def OperandsUnassigned : Expr → Prop
  | unary _ operand _ => operand.isAssign = false
  | binary _ left right _ => left.isAssign = false ∧ right.isAssign = false
  | call callee _ _ => callee.isAssign = false
  | _ => True

/-- A float is written with digits around a point, and the text reads back as the float. -/
def FloatReadable : Expr → Prop
  | literal (.float x) _ =>
    Pattern.float.Matches x.text.toList ∧ Number.readFloat? x.text = some x
  | _ => True

instance : (e : Expr) → Decidable e.OperandsUnassigned
  | unary _ operand _ => inferInstanceAs (Decidable (operand.isAssign = false))
  | binary _ left right _ =>
    inferInstanceAs (Decidable (left.isAssign = false ∧ right.isAssign = false))
  | call callee _ _ => inferInstanceAs (Decidable (callee.isAssign = false))
  | literal _ _ | var _ _ | assign _ _ _ => isTrue trivial

instance : (e : Expr) → Decidable e.FloatReadable
  | literal (.float x) _ => inferInstanceAs (Decidable
      (Pattern.float.Matches x.text.toList ∧ Number.readFloat? x.text = some x))
  | literal (.integer _) _ | literal (.string _) _ | literal (.boolean _) _ | var _ _
  | unary _ _ _ | binary _ _ _ _ | call _ _ _ | assign _ _ _ => isTrue trivial

end Expr

/-! ### Words of a source -/

/-- The text is a word that can name something. -/
def IsName (s : String) : Prop := Pattern.word.Matches s.toList ∧ Kind.ofWord s = .identifier

/-- The token's text is one that its kind allows. -/
structure Token.WellFormed (t : Token) : Prop where
  name : t.kind = .identifier → IsName t.value
  integer : t.kind = .integerLiteral → Digits t.value.toList
  float : t.kind = .floatLiteral → Pattern.float.Matches t.value.toList
  string : t.kind = .stringLiteral → '"' ∉ t.value.toList

/-- The constants of the expression, and its names, are such as a source can write them. -/
def Expr.Lexical : Expr → Prop
  | .literal (.integer n) _ => 0 ≤ n ∧ n ≤ Number.integerMax
  | .literal (.float x) _ => x.OfDigits
  | .literal (.string s) _ => '"' ∉ s.toList
  | .var name _ => IsName name
  | .assign name _ _ => IsName name
  | _ => True

theorem Piece.wellFormed {x : Piece} {rest : List Char} {pos : Position} {t : Token}
    (hx : x.Fits rest) (h : x.token? pos = some t) : t.WellFormed := by
  cases hx with
  | @lexeme p w _ hp hw =>
    have hm := hw.matched
    cases p with
    | word =>
      cases h
      refine ⟨fun hkind => ⟨?_, hkind⟩, fun hkind => ?_, fun hkind => ?_, fun hkind => ?_⟩
      · simpa using hm
      · exact absurd hkind (Kind.ofWord_ne _ (by decide) (by decide))
      · exact absurd hkind (Kind.ofWord_ne _ (by decide) (by decide))
      · exact absurd hkind (Kind.ofWord_ne _ (by decide) (by decide))
    | integer =>
      cases h
      have hdigits : Digits w := hm
      exact ⟨nofun, fun _ => by simpa using hdigits, nofun, nofun⟩
    | string =>
      cases h
      refine ⟨nofun, nofun, nofun, fun _ => ?_⟩
      obtain ⟨cs, rfl, hcs⟩ := hm
      simpa using hcs
    | sign kind =>
      cases h
      refine ⟨?_, ?_, ?_, ?_⟩ <;> rintro rfl <;> cases hm
    | float =>
      cases h
      exact ⟨nofun, nofun, fun _ => by simpa using hm, nofun⟩
    | newline =>
      cases h
      exact ⟨nofun, nofun, nofun, nofun⟩
    | blanks => cases h
    | quote => cases h
    | comment => cases h
  | stray hc => cases h
  | unclosed hc => cases h

/-- **Every token of a source is well-formed.** -/
theorem tokenize_wellFormed (source : String) : ∀ t ∈ (tokenize source).tokens, t.WellFormed := by
  obtain ⟨pieces, hcut, -, hscan⟩ := exists_tokenize_eq source
  intro t ht
  rw [hscan] at ht
  rcases List.mem_append.mp ht with ht | ht
  · obtain ⟨y, hy, htoken⟩ := List.mem_filterMap.mp ht
    have hmem : y.2 ∈ pieces := by
      rw [← map_snd_located [] pieces]
      exact List.mem_map_of_mem hy
    obtain ⟨rest, hfits⟩ := hcut.exists_fits hmem
    exact Piece.wellFormed hfits htoken
  · obtain rfl := List.mem_singleton.mp ht
    exact ⟨nofun, nofun, nofun, nofun⟩

/-! ### Parts of what was read -/

/-- A text that begins with a digit has no sign. -/
theorem sign_of_digit {c : Char} (hc : Digit c) (cs : List Char) :
    Number.sign (c :: cs) = (false, c :: cs) := by
  unfold Number.sign
  split
  · rename_i heq
    cases heq
    exact absurd hc (by decide)
  · rename_i heq
    cases heq
    exact absurd hc (by decide)
  · rfl

/-- Digits write an integer without a sign. -/
theorem readInteger_eq_some_iff {s : String} {n : Int} (hs : Digits s.toList) :
    Number.readInteger? s = some n ↔ n = Number.value s.toList ∧ n ≤ Number.integerMax := by
  have hsign : Number.sign s.toList = (false, s.toList) := by
    obtain ⟨c, cs, htext⟩ := List.exists_cons_of_ne_nil hs.1
    rw [htext]
    exact sign_of_digit (hs.2 c (htext ▸ List.mem_cons_self)) cs
  have hall : s.toList.all Char.isDigit = true :=
    List.all_eq_true.mpr fun c hc => isDigit_iff.mpr (hs.2 c hc)
  have hwhole : Number.whole? s.toList = some (Number.value s.toList : Int) := by
    unfold Number.whole?
    rw [hsign]
    simp [hs.1, hall]
  have hmin : Number.integerMin ≤ (Number.value s.toList : Int) := by
    unfold Number.integerMin
    omega
  unfold Number.readInteger?
  rw [hwhole, Option.filter_eq_some_iff]
  simp only [Option.some.injEq, decide_eq_true_eq]
  constructor
  · rintro ⟨rfl, -, hmax⟩
    exact ⟨rfl, hmax⟩
  · rintro ⟨rfl, hmax⟩
    exact ⟨rfl, hmin, hmax⟩

theorem toLower_of_digit {c : Char} (hc : Digit c) : c.toLower = c := by
  have hle : c.val ≤ '9'.val := hc.2
  refine dif_neg ?_
  rintro ⟨hge, -⟩
  exact absurd (UInt32.le_trans hge hle) (by decide)

theorem ofDigits_decimal {cs : List Char} {x : Binary64}
    (h : Number.decimal? false cs = some x) : x.OfDigits := by
  unfold Number.decimal? at h
  dsimp only at h
  split_ifs at h
  obtain ⟨e, -, rfl⟩ := Option.map_eq_some_iff.mp h
  exact Binary64.ofDigits_ofDecimal _ _

/-- Digits around a point are read as they stand. -/
theorem readFloat_eq_decimal {s : String} (hs : Pattern.float.Matches s.toList) :
    Number.readFloat? s = Number.decimal? false s.toList := by
  obtain ⟨c, cs, htext, hc⟩ := hs.opens
  have hc' : Digit c := hc
  -- a word for infinity or for no number would begin with a letter
  have hword (w : String) {d : Char} {ds : List Char} (hw : w.toList = d :: ds)
      (hd : ¬ Digit d) : (c :: cs).map Char.toLower ≠ w.toList := by
    intro heq
    rw [hw, List.map_cons, toLower_of_digit hc'] at heq
    exact hd ((List.cons.inj heq).1 ▸ hc')
  unfold Number.readFloat?
  rw [htext, sign_of_digit hc']
  dsimp only
  rw [if_neg (not_or.mpr ⟨hword "inf" rfl (by decide), hword "infinity" rfl (by decide)⟩),
    if_neg (hword "nan" rfl (by decide))]

/-- Digits around a point write a float without a sign. -/
theorem ofDigits_readFloat {s : String} {x : Binary64} (hs : Pattern.float.Matches s.toList)
    (h : Number.readFloat? s = some x) : x.OfDigits :=
  ofDigits_decimal (readFloat_eq_decimal hs ▸ h)

theorem LiteralWord.lexical (w : LiteralWord) (pos : Position) (h : w.token.WellFormed) :
    (Expr.literal w.value pos).Lexical := by
  have hwritten := w.written
  unfold Literal.ofToken? at hwritten
  split at hwritten
  · rename_i hkind
    obtain ⟨n, hn, hvalue⟩ := Option.map_eq_some_iff.mp hwritten
    obtain ⟨rfl, hmax⟩ := (readInteger_eq_some_iff (h.integer hkind)).mp hn
    rw [← hvalue]
    exact ⟨Int.natCast_nonneg _, hmax⟩
  · rename_i hkind
    obtain ⟨x, hx, hvalue⟩ := Option.map_eq_some_iff.mp hwritten
    rw [← hvalue]
    exact ofDigits_readFloat (h.float hkind) hx
  · rename_i hkind
    rw [← Option.some.inj hwritten]
    exact h.string hkind
  · rw [← Option.some.inj hwritten]
    trivial
  · rw [← Option.some.inj hwritten]
    trivial
  · cases hwritten

theorem TargetTree.isName : ∀ d : TargetTree, (∀ t ∈ d.tokens, t.WellFormed) → IsName d.token.value
  | .name w, h => (h w.1 List.mem_cons_self).name w.2
  | .paren l inner r, h => inner.isName fun t ht => h t (by simp [TargetTree.tokens, ht])

mutual

/-- **The parts of an expression that was read are such as a source can write them.** -/
theorem ExprTree.lexical {p : Power} : ∀ d : ExprTree p, (∀ t ∈ d.tokens, t.WellFormed) →
    ∀ x ∈ d.expr.parts, x.Lexical
  | .literal w, h => by
    simp only [ExprTree.tokens, ExprTree.expr, Expr.parts, List.forall_mem_singleton] at h ⊢
    exact w.lexical _ h
  | .var w, h => by
    simp only [ExprTree.tokens, ExprTree.expr, Expr.parts, List.forall_mem_singleton] at h ⊢
    exact h.name w.2
  | .paren l inner r, h => by
    simp only [ExprTree.tokens, List.forall_mem_cons, List.forall_mem_append] at h
    exact inner.lexical h.2.1
  | .unary w operand, h => by
    simp only [ExprTree.tokens, ExprTree.expr, Expr.parts, List.forall_mem_cons] at h ⊢
    exact ⟨trivial, operand.lexical h.2⟩
  | .assign target sign value, h => by
    simp only [ExprTree.tokens, ExprTree.expr, Expr.parts, List.forall_mem_cons,
      List.forall_mem_append] at h ⊢
    exact ⟨target.isName h.1, value.lexical h.2.2⟩
  | .joined _ first links, h => by
    simp only [ExprTree.tokens, List.forall_mem_append] at h
    exact links.lexical (first.lexical h.1) h.2

theorem LinkTrees.lexical {p : Power} : ∀ (links : LinkTrees p) {left : Expr},
    (∀ x ∈ left.parts, x.Lexical) → (∀ t ∈ links.tokens, t.WellFormed) →
      ∀ x ∈ (links.join left).parts, x.Lexical
  | .nil, _, hleft, _ => hleft
  | .binary _ w right rest, left, hleft, h => by
    simp only [LinkTrees.tokens, List.forall_mem_cons, List.forall_mem_append] at h
    refine rest.lexical ?_ h.2.2
    simp only [Expr.parts, List.forall_mem_cons, List.forall_mem_append]
    exact ⟨trivial, hleft, right.lexical h.2.1⟩
  | .callEmpty l r rest, left, hleft, h => by
    simp only [LinkTrees.tokens, List.forall_mem_cons] at h
    refine rest.lexical ?_ h.2.2
    simp only [Expr.parts, Expr.partsAll, List.forall_mem_cons, List.append_nil]
    exact ⟨trivial, hleft⟩
  | .call l args r rest, left, hleft, h => by
    simp only [LinkTrees.tokens, List.forall_mem_cons, List.forall_mem_append] at h
    refine rest.lexical ?_ h.2.2.2
    simp only [Expr.parts, List.forall_mem_cons, List.forall_mem_append]
    exact ⟨trivial, hleft, args.lexical h.2.1⟩

theorem ArgumentTrees.lexical : ∀ args : ArgumentTrees, (∀ t ∈ args.tokens, t.WellFormed) →
    ∀ x ∈ Expr.partsAll args.exprs, x.Lexical
  | .one e, h => by
    simp only [ArgumentTrees.exprs, Expr.partsAll, List.append_nil]
    exact e.lexical h
  | .more e comma rest, h => by
    simp only [ArgumentTrees.tokens, ArgumentTrees.exprs, Expr.partsAll, List.forall_mem_cons,
      List.forall_mem_append] at h ⊢
    exact ⟨e.lexical h.1, rest.lexical h.2.2⟩

end

end StackListing
