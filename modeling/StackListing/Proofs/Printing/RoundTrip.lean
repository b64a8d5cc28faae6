import StackListing.Compilation
import StackListing.Proofs.Grammar.Acceptance
import StackListing.Proofs.Printing.Comparison
import StackListing.Proofs.Printing.ExprText

/-!
# Printed programs are read back

The text of a statement that was read yields the tokens of a derivation of the same shape, which
stands for the same statement up to positions (`StmtTree.yields_text`).  The induction is on the
derivation that was read and not on the statement: it knows that the branches of an `if` are no
declarations, and that an `if` before an `else` has one of its own, so nothing about the form of
statements has to be said again.  Hence a program that was read from a source is printed as a source
from which it is read again.
-/

namespace StackListing

/-- The tokens are those of a source, and the expressions are such as can be printed. -/
structure Ready (ts : List Token) (es : List Expr) : Prop where
  tokens : ∀ t ∈ ts, t.WellFormed
  operands : ∀ x ∈ es, x.OperandsUnassigned
  floats : ∀ x ∈ es, x.FloatReadable

namespace Ready

variable {t : Token} {ts us : List Token} {es fs : List Expr}

theorem mono (h : Ready ts es) (hts : ∀ t ∈ us, t ∈ ts) (hes : ∀ x ∈ fs, x ∈ es) :
    Ready us fs where
  tokens := fun t ht => h.tokens t (hts t ht)
  operands := fun x hx => h.operands x (hes x hx)
  floats := fun x hx => h.floats x (hes x hx)

theorem tail (h : Ready (t :: ts) es) : Ready ts es :=
  h.mono (fun _ => List.mem_cons_of_mem t) fun _ => id

theorem front (h : Ready (ts ++ us) es) : Ready ts es :=
  h.mono (fun _ => List.mem_append_left us) fun _ => id

theorem left (h : Ready (ts ++ us) (es ++ fs)) : Ready ts es :=
  h.mono (fun _ => List.mem_append_left us) fun _ => List.mem_append_left fs

theorem right (h : Ready (ts ++ us) (es ++ fs)) : Ready us fs :=
  h.mono (fun _ => List.mem_append_right ts) fun _ => List.mem_append_right es

end Ready

/-! ### Words between expressions -/

theorem yields_keyword (kind : Kind) (w : String) (hw : Pattern.word.Matches w.toList)
    (hkind : Kind.ofWord w = kind) : Yields w Bounded fun ts => ∃ kw : Word kind, ts = [kw.1] := by
  refine (yields_word hw).map ?_
  rintro _ ⟨p, rfl⟩
  exact ⟨⟨_, hkind⟩, rfl⟩

/-- A keyword and the parenthesis that opens behind it. -/
theorem yields_opening (kind : Kind) (w : String) (hw : Pattern.word.Matches w.toList)
    (hkind : Kind.ofWord w = kind) : Yields (w ++ " " ++ "(") Anything fun ts =>
      ∃ (kw : Word kind) (l : Word .openParen), ts = [kw.1, l.1] := by
  refine ((yields_keyword kind w hw hkind).blank.next yields_openParen).map ?_
  rintro _ ⟨_, _, rfl, ⟨kw, rfl⟩, l, rfl⟩
  exact ⟨kw, l, rfl⟩

theorem yields_closing : Yields ") " Anything fun ts => ∃ r : Word .closeParen, ts = [r.1] :=
  (yields_sign .closeParen ")" rfl).blank.map fun _ => Single.word

theorem yields_semicolon : Yields ";" Anything fun ts => ∃ w : Word .semicolon, ts = [w.1] :=
  (yields_mark .semicolon ";" rfl (by decide)).map fun _ => Single.word

theorem yields_ending : Yields "; " Anything fun ts => ∃ w : Word .semicolon, ts = [w.1] :=
  (yields_sign .semicolon ";" rfl).blank.map fun _ => Single.word

theorem yields_else : Yields " else " Anything fun ts => ∃ kw : Word .elseWord, ts = [kw.1] := by
  have hkeyword := yields_keyword .elseWord "else" (by decide) (by decide)
  refine (yields_blank.next hkeyword).blank.map ?_
  rintro _ ⟨_, _, rfl, rfl, kw, rfl⟩
  exact ⟨kw, rfl⟩

theorem yields_openBlock :
    Yields "\x7b\n" Anything fun ts => ∃ l : Word .openCurly, ts = [l.1] := by
  refine ((yields_mark .openCurly "\x7b" rfl (by decide)).next yields_newline).map ?_
  rintro _ ⟨_, _, rfl, hopen, rfl⟩
  rw [List.append_nil]
  exact hopen.word

theorem yields_closeBlock :
    Yields "\x7d" Anything fun ts => ∃ r : Word .closeCurly, ts = [r.1] :=
  (yields_mark .closeCurly "\x7d" rfl (by decide)).map fun _ => Single.word

theorem ValueType.yields_name (type : ValueType) :
    Yields type.name Bounded fun ts => ∃ w : TypeWord, ts = [w.token] ∧ w.type = type := by
  have hword : Pattern.word.Matches type.name.toList ∧
      (Kind.ofWord type.name).type? = some type := by
    cases type <;> decide
  refine (yields_word hword.1).map ?_
  rintro _ ⟨p, rfl⟩
  exact ⟨⟨_, type, hword.2⟩, rfl, rfl⟩

/-! ### Parts of statements -/

theorem ExprTree.yields_text (d : ExprTree .assignment) (h : Ready d.tokens d.expr.parts) :
    Yields d.expr.text Bounded (DerivesExpr .assignment d.expr) := by
  have hprintable : ∀ x ∈ d.expr.parts, x.Printable := fun x hx =>
    ⟨d.lexical h.tokens x hx, h.operands x hx, h.floats x hx⟩
  exact (d.expr.yields_text hprintable).map fun ts hts => hts.weaken d.expr.rank_level

theorem OptionTree.yields_text (d : OptionTree) (h : Ready d.tokens (Expr.partsOption d.expr)) :
    Yields (Stmt.optionText d.expr) Bounded fun ts => ∃ d' : OptionTree,
      d'.tokens = ts ∧ d'.expr.map Expr.unplaced = d.expr.map Expr.unplaced := by
  cases d with
  | none =>
    refine Yields.empty.map ?_
    rintro _ rfl
    exact ⟨none, rfl, rfl⟩
  | some d =>
    refine (ExprTree.yields_text d h).map ?_
    rintro _ ⟨d', rfl, hexpr⟩
    exact ⟨some d', rfl, congrArg some hexpr⟩

theorem InitialTree.yields_text (d : InitialTree) (h : Ready d.tokens (Expr.partsOption d.expr)) :
    Yields (Stmt.valueText d.expr) Bounded fun ts => ∃ d' : InitialTree,
      d'.tokens = ts ∧ d'.expr.map Expr.unplaced = d.expr.map Expr.unplaced := by
  cases d with
  | none =>
    refine Yields.empty.map ?_
    rintro _ rfl
    exact ⟨none, rfl, rfl⟩
  | some v =>
    obtain ⟨sign, d⟩ := v
    have hd := ExprTree.yields_text d h.tail
    refine (yields_assign.next hd).map ?_
    rintro _ ⟨_, _, rfl, ⟨sign', rfl⟩, d', rfl, hexpr⟩
    exact ⟨some (sign', d'), rfl, congrArg some hexpr⟩

theorem bounded_valueText (e : Option Expr) {rest : List Char} (h : Bounded rest) :
    Bounded ((Stmt.valueText e).toList ++ rest) := by
  cases e with
  | none => exact h
  | some e => exact .inr ⟨' ', _, by simp [Stmt.valueText]; rfl, by decide⟩

theorem VariableTree.yields_text (v : VariableTree) (h : Ready v.tokens v.stmt.parts) :
    Yields v.stmt.text Anything fun ts => ∃ v' : VariableTree,
      v'.tokens = ts ∧ v'.stmt.unplaced = v.stmt.unplaced := by
  have hname : IsName v.name.1.value :=
    (h.tokens v.name.1 (by simp [VariableTree.tokens])).name v.name.2
  have hinitial := InitialTree.yields_text v.initial h.tail.tail.front
  have hhead := v.type.type.yields_name.blank.next (yields_name hname)
  have hyields := (hhead.seq hinitial fun rest hrest => bounded_valueText _ hrest).upTo
    yields_semicolon (by decide)
  refine hyields.map ?_
  rintro _ ⟨_, _, rfl, ⟨_, _, rfl, ⟨_, _, rfl, ⟨type, rfl, htype⟩, name, rfl, hname⟩, initial, rfl,
    hinitial⟩, semi, rfl⟩
  refine ⟨⟨type, name, initial, semi⟩, by simp [VariableTree.tokens], ?_⟩
  simp only [VariableTree.stmt, Stmt.unplaced, htype, hname, hinitial]

theorem HeaderTree.yields_text (d : HeaderTree) (h : Ready d.tokens (Stmt.partsOption d.stmt)) :
    Yields (Stmt.initialText d.stmt) Anything fun ts => ∃ d' : HeaderTree,
      d'.tokens = ts ∧ Stmt.unplacedOption d'.stmt = Stmt.unplacedOption d.stmt := by
  cases d with
  | absent semi =>
    refine yields_ending.map ?_
    rintro _ ⟨semi, rfl⟩
    exact ⟨.absent semi, rfl, rfl⟩
  | var v =>
    refine ((v.yields_text h).next yields_blank).map ?_
    rintro _ ⟨_, _, rfl, ⟨v', rfl, hstmt⟩, rfl⟩
    refine ⟨.var v', by simp [HeaderTree.tokens], ?_⟩
    simp only [HeaderTree.stmt, Stmt.unplacedOption, hstmt]
  | expr e semi =>
    have he := e.yields_text h.front
    refine ((he.upTo yields_semicolon (by decide)).next yields_blank).map ?_
    rintro _ ⟨_, _, rfl, ⟨_, _, rfl, ⟨d, rfl, hexpr⟩, semi, rfl⟩, rfl⟩
    refine ⟨.expr d semi, by simp [HeaderTree.tokens], ?_⟩
    simp only [HeaderTree.stmt, Stmt.unplacedOption, Stmt.unplaced, hexpr]

theorem ParameterTree.yields_text (d : ParameterTree) (h : ∀ t ∈ d.tokens, t.WellFormed) :
    Yields d.parameter.text Bounded fun ts => ∃ d' : ParameterTree,
      d'.tokens = ts ∧ d'.parameter.unplaced = d.parameter.unplaced := by
  have hname : IsName d.name.1.value :=
    (h d.name.1 (by simp [ParameterTree.tokens])).name d.name.2
  refine (d.type.type.yields_name.blank.next (yields_name hname)).map ?_
  rintro _ ⟨_, _, rfl, ⟨type, rfl, htype⟩, name, rfl, hname⟩
  refine ⟨⟨type, name⟩, rfl, ?_⟩
  simp only [ParameterTree.parameter, Parameter.unplaced, htype, hname]

theorem ParameterTrees.yields_text : ∀ d : ParameterTrees, (∀ t ∈ d.tokens, t.WellFormed) →
    Yields (", ".intercalate (d.parameters.map (·.text))) Bounded fun ts => ∃ d' : ParameterTrees,
      d'.tokens = ts ∧ d'.parameters.map Parameter.unplaced = d.parameters.map Parameter.unplaced
  | .one p, h => by
    simp only [parameters, List.map_cons, List.map_nil, String.intercalate_singleton]
    refine (p.yields_text h).map ?_
    rintro _ ⟨p', rfl, hp⟩
    exact ⟨.one p', rfl, by simp [parameters, hp]⟩
  | .more p comma rest, h => by
    simp only [tokens, List.forall_mem_append, List.forall_mem_cons] at h
    have hrest := rest.yields_text h.2.2
    have htext : ", ".intercalate ((more p comma rest).parameters.map (·.text)) =
        p.parameter.text ++ ", " ++ ", ".intercalate (rest.parameters.map (·.text)) := by
      cases rest <;> simp [parameters, String.intercalate_cons_cons]
    rw [htext]
    refine (((p.yields_text h.1).upTo yields_separator (by decide)).next hrest).map ?_
    rintro _ ⟨_, _, rfl, ⟨_, _, rfl, ⟨p', rfl, hp⟩, comma, rfl⟩, rest', rfl, hrest⟩
    refine ⟨.more p' comma rest', by simp [tokens], ?_⟩
    simp only [parameters, List.map_cons, hp, hrest]

theorem ParameterTrees.yields_option (d : Option ParameterTrees)
    (h : ∀ t ∈ d.elim [] ParameterTrees.tokens, t.WellFormed) :
    Yields (", ".intercalate ((d.elim [] ParameterTrees.parameters).map (·.text))) Bounded fun ts =>
      ∃ d' : Option ParameterTrees, d'.elim [] ParameterTrees.tokens = ts ∧
        (d'.elim [] ParameterTrees.parameters).map Parameter.unplaced =
          (d.elim [] ParameterTrees.parameters).map Parameter.unplaced := by
  cases d with
  | none =>
    refine Yields.empty.map ?_
    rintro _ rfl
    exact ⟨none, rfl, rfl⟩
  | some d =>
    refine (d.yields_text h).map ?_
    rintro _ ⟨d', rfl, hparameters⟩
    exact ⟨some d', rfl, hparameters⟩

theorem yields_return : Yields "return" Bounded fun ts => ∃ kw : Word .returnWord, ts = [kw.1] :=
  yields_keyword .returnWord "return" (by decide) (by decide)

/-! ### Statements -/

mutual

/-- **The text of a statement that was read yields a derivation of it.** -/
theorem StmtTree.yields_text : ∀ d : StmtTree, Ready d.tokens d.stmt.parts →
    Yields d.stmt.text Bounded fun ts => ∃ d' : StmtTree,
      d'.tokens = ts ∧ d'.stmt.unplaced = d.stmt.unplaced
  | .body s, h => by
    refine (s.yields_text h).map ?_
    rintro _ ⟨s', rfl, hstmt⟩
    exact ⟨.body s', rfl, hstmt⟩
  | .var v, h => by
    refine (v.yields_text h).anywhere ?_
    rintro _ ⟨v', rfl, hstmt⟩
    exact ⟨.var v', rfl, hstmt⟩
  | .function type name l parameters r lb body rb, h => by
    have hname : IsName name.1.value :=
      (h.tokens name.1 (by simp [StmtTree.tokens])).name name.2
    have hparameters := ParameterTrees.yields_option parameters
      fun t ht => h.tokens t (by simp [StmtTree.tokens, ht])
    have hbody := body.yields_text (h.mono (fun t ht => by simp [StmtTree.tokens, ht])
      fun x hx => by simp [StmtTree.stmt, Stmt.parts, hx])
    have hhead := (type.type.yields_name.blank.next (yields_name hname)).upTo yields_openParen
      (by decide)
    have hyields := ((((hhead.next hparameters).upTo yields_closing (by decide)).next
      yields_openBlock).next hbody).next yields_closeBlock
    refine hyields.anywhere ?_
    rintro _ ⟨_, _, rfl, ⟨_, _, rfl, ⟨_, _, rfl, ⟨_, _, rfl, ⟨_, _, rfl, ⟨_, _, rfl, ⟨_, _, rfl,
      ⟨type, rfl, htype⟩, name, rfl, hname⟩, l, rfl⟩, parameters', rfl, hparameters⟩, r, rfl⟩, lb,
      rfl⟩, body', rfl, hbody⟩, rb, rfl⟩
    refine ⟨.function type name l parameters' r lb body' rb, by simp [StmtTree.tokens], ?_⟩
    simp only [StmtTree.stmt, Stmt.unplaced, htype, hname, hparameters, hbody]

/-- Statements on lines of their own yield derivations of them. -/
theorem StmtTrees.yields_text : ∀ d : StmtTrees, Ready d.tokens (Stmt.partsAll d.stmts) →
    Yields (Stmt.linesText d.stmts) Anything fun ts => ∃ d' : StmtTrees,
      d'.tokens = ts ∧ Stmt.unplacedAll d'.stmts = Stmt.unplacedAll d.stmts
  | .nil, _ => by
    refine Yields.empty.map ?_
    rintro _ rfl
    exact ⟨.nil, rfl, rfl⟩
  | .cons s rest, h => by
    have hs := s.yields_text h.left
    have hrest := rest.yields_text h.right
    have hindent : Yields "  " Anything Nothing := by
      refine (yields_blank.next yields_blank).map ?_
      rintro _ ⟨_, _, rfl, rfl, rfl⟩
      rfl
    have hyields := ((hindent.next hs).upTo yields_newline (by decide)).next hrest
    refine hyields.map ?_
    rintro _ ⟨_, _, rfl, ⟨_, _, rfl, ⟨_, _, rfl, rfl, s', rfl, hstmt⟩, rfl⟩, rest', rfl, hstmts⟩
    refine ⟨.cons s' rest', by simp [StmtTrees.tokens], ?_⟩
    simp only [StmtTrees.stmts, Stmt.unplacedAll, hstmt, hstmts]

/-- A body is printed as one that leaves an `else` behind it alone if it did so before. -/
theorem BodyTree.yields_text {o : Bool} : ∀ d : BodyTree o, Ready d.tokens d.stmt.parts →
    Yields d.stmt.text Bounded fun ts => ∃ d' : BodyTree o,
      d'.tokens = ts ∧ d'.stmt.unplaced = d.stmt.unplaced
  | .block l body r, h => by
    have hbody := body.yields_text h.tail.front
    have hyields := (yields_openBlock.next hbody).next yields_closeBlock
    refine hyields.anywhere ?_
    rintro _ ⟨_, _, rfl, ⟨_, _, rfl, ⟨l, rfl⟩, body', rfl, hstmts⟩, r, rfl⟩
    refine ⟨.block l body' r, by simp [BodyTree.tokens], ?_⟩
    simp only [BodyTree.stmt, Stmt.unplaced, hstmts]
  | .ifOnly kw l c r yes, h => by
    have hc := c.yields_text h.tail.tail.left
    have hyes := yes.yields_text (h.tail.tail.right.tail.mono (fun _ => id)
      fun _ => List.mem_append_left _)
    have hopen := yields_opening .ifWord "if" (by decide) (by decide)
    have hyields := (((hopen.next hc).upTo yields_closing (by decide)).next hyes).seq
      (Yields.empty (B := Bounded)) fun rest hrest => hrest
    refine hyields.map ?_
    rintro _ ⟨_, _, rfl, ⟨_, _, rfl, ⟨_, _, rfl, ⟨_, _, rfl, ⟨kw, l, rfl⟩, c', rfl, hc⟩, r, rfl⟩,
      yes', rfl, hyes⟩, rfl⟩
    refine ⟨.ifOnly kw l c' r yes', by simp [BodyTree.tokens], ?_⟩
    simp only [BodyTree.stmt, Stmt.unplaced, Stmt.unplacedOption, hc, hyes]
  | .ifElse kw l c r yes kw' no, h => by
    have hc := c.yields_text h.tail.tail.left
    have hyes := yes.yields_text h.tail.tail.right.tail.left
    have hno := no.yields_text h.tail.tail.right.tail.right.tail
    have hopen := yields_opening .ifWord "if" (by decide) (by decide)
    have helse := yields_else.next hno
    have hyields := (((hopen.next hc).upTo yields_closing (by decide)).next hyes).upTo helse
      ⟨' ', by decide, by simp⟩
    refine hyields.map ?_
    rintro _ ⟨_, _, rfl, ⟨_, _, rfl, ⟨_, _, rfl, ⟨_, _, rfl, ⟨kw, l, rfl⟩, c', rfl, hc⟩, r, rfl⟩,
      yes', rfl, hyes⟩, _, _, rfl, ⟨kw', rfl⟩, no', rfl, hno⟩
    refine ⟨.ifElse kw l c' r yes' kw' no', by simp [BodyTree.tokens], ?_⟩
    simp only [BodyTree.stmt, Stmt.unplaced, Stmt.unplacedOption, hc, hyes, hno]
  | .whileLoop kw l c r body, h => by
    have hc := c.yields_text h.tail.tail.left
    have hbody := body.yields_text h.tail.tail.right.tail
    have hopen := yields_opening .whileWord "while" (by decide) (by decide)
    have hyields := ((hopen.next hc).upTo yields_closing (by decide)).next hbody
    refine hyields.map ?_
    rintro _ ⟨_, _, rfl, ⟨_, _, rfl, ⟨_, _, rfl, ⟨kw, l, rfl⟩, c', rfl, hc⟩, r, rfl⟩, body', rfl,
      hbody⟩
    refine ⟨.whileLoop kw l c' r body', by simp [BodyTree.tokens], ?_⟩
    simp only [BodyTree.stmt, Stmt.unplaced, hc, hbody]
  | .forLoop kw l initial c semi i r body, h => by
    have hinitial := initial.yields_text h.tail.tail.left
    have hc := OptionTree.yields_text c h.tail.tail.right.left
    have hi := OptionTree.yields_text i h.tail.tail.right.right.tail.left
    have hbody := body.yields_text h.tail.tail.right.right.tail.right.tail
    have hopen := yields_opening .forWord "for" (by decide) (by decide)
    have hheader := (((hopen.next hinitial).next hc).upTo yields_ending (by decide)).next hi
    have hyields := (hheader.upTo yields_closing (by decide)).next hbody
    refine hyields.map ?_
    rintro _ ⟨_, _, rfl, ⟨_, _, rfl, ⟨_, _, rfl, ⟨_, _, rfl, ⟨_, _, rfl, ⟨_, _, rfl, ⟨kw, l, rfl⟩,
      initial', rfl, hinitial⟩, c', rfl, hc⟩, semi, rfl⟩, i', rfl, hi⟩, r, rfl⟩, body', rfl, hbody⟩
    refine ⟨.forLoop kw l initial' c' semi i' r body', by simp [BodyTree.tokens], ?_⟩
    simp only [BodyTree.stmt, Stmt.unplaced, hinitial, hc, hi, hbody]
  | .giveBack kw none semi, _ => by
    refine (yields_return.upTo yields_semicolon (by decide)).anywhere ?_
    rintro _ ⟨_, _, rfl, ⟨kw, rfl⟩, semi, rfl⟩
    exact ⟨.giveBack kw none semi, rfl, rfl⟩
  | .giveBack kw (some e) semi, h => by
    have he := ExprTree.yields_text e h.tail.front
    have hyields := (yields_return.blank.next he).upTo yields_semicolon (by decide)
    refine hyields.anywhere ?_
    rintro _ ⟨_, _, rfl, ⟨_, _, rfl, ⟨kw, rfl⟩, d, rfl, hexpr⟩, semi, rfl⟩
    refine ⟨.giveBack kw (some d) semi, by simp [BodyTree.tokens, OptionTree.tokens], ?_⟩
    simp only [BodyTree.stmt, Stmt.unplaced, OptionTree.expr, Option.map_some, hexpr]
  | .print kw l e r semi, h => by
    have he := e.yields_text h.tail.tail.front
    have hprint := yields_keyword .printWord "print" (by decide) (by decide)
    have hopen := hprint.upTo yields_openParen (by decide)
    have hclose := yields_closeParen.next yields_semicolon
    have hyields := (hopen.next he).upTo hclose (by decide)
    refine hyields.anywhere ?_
    rintro _ ⟨_, _, rfl, ⟨_, _, rfl, ⟨_, _, rfl, ⟨kw, rfl⟩, l, rfl⟩, d, rfl, hexpr⟩, _, _, rfl,
      ⟨r, rfl⟩, semi, rfl⟩
    refine ⟨.print kw l d r semi, by simp [BodyTree.tokens], ?_⟩
    simp only [BodyTree.stmt, Stmt.unplaced, hexpr]
  | .expr e semi, h => by
    have he := e.yields_text h.front
    refine (he.upTo yields_semicolon (by decide)).anywhere ?_
    rintro _ ⟨_, _, rfl, ⟨d, rfl, hexpr⟩, semi, rfl⟩
    refine ⟨.expr d semi, by simp [BodyTree.tokens], ?_⟩
    simp only [BodyTree.stmt, Stmt.unplaced, hexpr]

end

/-! ### Programs -/

theorem StmtTrees.yields_program : ∀ d : StmtTrees, Ready d.tokens (Stmt.partsAll d.stmts) →
    Yields (String.join (d.stmts.map (·.text ++ "\n"))) Anything fun ts => ∃ d' : StmtTrees,
      d'.tokens = ts ∧ Stmt.unplacedAll d'.stmts = Stmt.unplacedAll d.stmts
  | .nil, _ => by
    refine Yields.empty.map ?_
    rintro _ rfl
    exact ⟨.nil, rfl, rfl⟩
  | .cons s rest, h => by
    have hs := s.yields_text h.left
    have hrest := rest.yields_program h.right
    rw [StmtTrees.stmts, List.map_cons, String.join_cons]
    refine ((hs.upTo yields_newline (by decide)).next hrest).map ?_
    rintro _ ⟨_, _, rfl, ⟨_, _, rfl, ⟨s', rfl, hstmt⟩, rfl⟩, rest', rfl, hstmts⟩
    refine ⟨.cons s' rest', by simp [StmtTrees.tokens], ?_⟩
    simp only [StmtTrees.stmts, Stmt.unplacedAll, hstmt, hstmts]

theorem parseSource_eq_ok_iff {source : String} {p : Program} :
    parseSource source = .ok p ↔ (tokenize source).errors = [] ∧
      ∃ d : ProgramTree, d.tokens = significant (tokenize source).tokens ∧ d.program = p := by
  rw [← parse_iff_exists_tree]
  unfold parseSource scanSource
  by_cases hscan : (tokenize source).errors = []
  · rw [Phase.outcome_eq_ok_iff.mpr ⟨hscan, rfl⟩]
    refine Iff.trans Phase.outcome_eq_ok_iff ?_
    simp only [hscan, true_and]
  · rw [Phase.outcome_eq_error_iff.mpr ⟨hscan, rfl⟩]
    constructor
    · intro h
      cases h
    · rintro ⟨h, -⟩
      exact absurd h hscan

theorem parseSource_of_errors_eq_nil {source : String} {p : Program}
    (hscan : (tokenize source).errors = []) (herrors : (parse (tokenize source).tokens).errors = [])
    (hprogram : (parse (tokenize source).tokens).program = p) : parseSource source = .ok p :=
  parseSource_eq_ok_iff.mpr ⟨hscan, parse_iff_exists_tree.mp ⟨herrors, hprogram⟩⟩

/-- A text that yields the tokens of a derivation is accepted as a program. -/
theorem parseSource_of_yields {s : String} {G : List Token → Prop} (h : Yields s Anything G) :
    ∃ ts, G ts ∧ ∀ d : ProgramTree, d.tokens = ts → parseSource s = .ok d.program := by
  obtain ⟨ts, hts, hne, hscan⟩ := h Position.start [] trivial
  rw [List.append_nil, scanAt_nil] at hscan
  refine ⟨ts, hts, fun d hd => ?_⟩
  have herrors : (tokenize s).errors = [] := congrArg Scan.errors hscan
  have htokens : (tokenize s).tokens.filter (·.kind ≠ .newline) = ts ++ [_] :=
    congrArg Scan.tokens hscan
  refine parseSource_eq_ok_iff.mpr ⟨herrors, d, ?_, rfl⟩
  have hall : ∀ t ∈ ts, decide (t.kind ≠ .endOfInput) = true := fun t ht =>
    decide_eq_true (hne t ht)
  rw [hd, significant, htokens, List.takeWhile_append_of_pos hall,
    List.takeWhile_cons_of_neg (by simp), List.append_nil]

/-- **Printed programs are read back.**  If a source is accepted as a program in which no operand
and no callee is an assignment, and whose floats are printed as digits around a point that read back
as the same floats, then the printed program is accepted without a complaint, and what is read from
it is the program up to positions. -/
theorem parseSource_text {source : String} {p : Program} (hparse : parseSource source = .ok p)
    (hoperands : ∀ e ∈ p.parts, e.OperandsUnassigned) (hfloats : ∀ e ∈ p.parts, e.FloatReadable) :
    ∃ q, parseSource p.text = .ok q ∧ q.unplaced = p.unplaced := by
  obtain ⟨-, d, htokens, rfl⟩ := parseSource_eq_ok_iff.mp hparse
  have hready : Ready d.tokens d.program.parts := by
    refine ⟨fun t ht => tokenize_wellFormed source t ?_, hoperands, hfloats⟩
    rw [htokens] at ht
    exact List.mem_of_mem_filter (List.takeWhile_subset _ ht)
  obtain ⟨_, ⟨d', rfl, hstmts⟩, hread⟩ :=
    parseSource_of_yields (StmtTrees.yields_program d.statements hready)
  exact ⟨_, hread ⟨d'⟩ rfl, congrArg Program.mk hstmts⟩

/-- A source with a function, an alternative, a float, and a call of what a call gives. -/
def branchingSource : String :=
  "int f(int a) \x7b if (a < 1) return -a; else print(b = 2.5); \x7d f(\"x\")(y = 2);"

/-- The program that is read from `branchingSource`. -/
def Program.branching : Program :=
  ⟨[.functionDecl .int "f" [⟨.int, "a", ⟨1, 11⟩⟩]
      [.branch (.binary .less (.var "a" ⟨1, 20⟩) (.literal (.integer 1) ⟨1, 24⟩) ⟨1, 22⟩)
        (.giveBack (some (.unary .negate (.var "a" ⟨1, 35⟩) ⟨1, 34⟩)) ⟨1, 27⟩)
        (some (.print
          (.assign "b" (.literal (.float (.ofDecimal false 25 (-1))) ⟨1, 53⟩) ⟨1, 49⟩) ⟨1, 43⟩))
        ⟨1, 16⟩]
      ⟨1, 14⟩ ⟨1, 5⟩,
    .expr (.call (.call (.var "f" ⟨1, 61⟩) [.literal (.string "x") ⟨1, 63⟩] ⟨1, 66⟩)
      [.assign "y" (.literal (.integer 2) ⟨1, 72⟩) ⟨1, 68⟩] ⟨1, 73⟩)]⟩

theorem parseSource_text_branching :
    parseSource branchingSource = .ok .branching ∧
      (∀ e ∈ Program.branching.parts, e.OperandsUnassigned) ∧
      (∀ e ∈ Program.branching.parts, e.FloatReadable) ∧
      ∃ q, parseSource Program.branching.text = .ok q ∧
        q.unplaced = Program.branching.unplaced := by
  have hprogram : (parse (tokenize branchingSource).tokens).program = .branching := by
    decide +kernel
  have hparse : parseSource branchingSource = .ok .branching :=
    parseSource_of_errors_eq_nil (by decide +kernel) (by decide +kernel) hprogram
  have hoperands : ∀ e ∈ Program.branching.parts, e.OperandsUnassigned := by decide +kernel
  have hfloats : ∀ e ∈ Program.branching.parts, e.FloatReadable := by decide +kernel
  exact ⟨hparse, hoperands, hfloats, parseSource_text hparse hoperands hfloats⟩

end StackListing
