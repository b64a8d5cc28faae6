import StackListing.Proofs.Layout.Alike
import StackListing.Proofs.Parsing.Steady

/-!
# Tokens that are alike are read alike

The parser decides by the kinds of tokens.  It takes texts from identifiers and numbers, whose texts
agree in tokens that are alike; texts of string literals and places it only passes on.  So two
streams of tokens that are alike are read in step: either both steps succeed with results that are
alike, or both fail with complaints that are alike, and they leave streams that are alike
(`Parse.Alike`).  This is a relation between two runs, and each rule of the parser is related to
itself.
-/

namespace StackListing

variable {ρ : Position → Position → Prop}

theorem Token.Alike.kind_eq {t u : Token} (h : t.Alike ρ u) : t.kind = u.kind := by
  cases h
  rfl

theorem Token.Alike.place {t u : Token} (h : t.Alike ρ u) : ρ t.position u.position := by
  cases h
  assumption

/-- The text of anything but a string literal is kept. -/
theorem Token.Alike.value_eq {t u : Token} (h : t.Alike ρ u) (hkind : t.kind ≠ .stringLiteral) :
    t.value = u.value := by
  cases h with
  | mk hvalue _ => exact hvalue hkind

/-! ### Streams -/

section Lists

variable {α β : Type} {R : α → β → Prop} {l : List α} {l' : List β}

theorem forall₂_getD (h : List.Forall₂ R l l') {a : α} {a' : β} (ha : R a a') (n : Nat) :
    R (l[n]?.getD a) (l'[n]?.getD a') := by
  induction h generalizing n with
  | nil => exact ha
  | cons h _ ih =>
    cases n with
    | zero => exact h
    | succ n => exact ih n

theorem forall₂_getLastD (h : List.Forall₂ R l l') {a : α} {a' : β} (ha : R a a') :
    R (l.getLastD a) (l'.getLastD a') := by
  induction h generalizing a a' with
  | nil => exact ha
  | cons h _ ih =>
    rw [List.getLastD_cons, List.getLastD_cons]
    exact ih h

theorem forall₂_takeWhile {P : α → Bool} {Q : β → Bool} (hPQ : ∀ a b, R a b → P a = Q b)
    (h : List.Forall₂ R l l') : List.Forall₂ R (l.takeWhile P) (l'.takeWhile Q) := by
  induction h with
  | nil => exact .nil
  | cons hab _ ih =>
    rw [List.takeWhile_cons, List.takeWhile_cons, hPQ _ _ hab]
    split
    · exact .cons hab ih
    · exact .nil

theorem forall₂_dropWhile {P : α → Bool} {Q : β → Bool} (hPQ : ∀ a b, R a b → P a = Q b)
    (h : List.Forall₂ R l l') : List.Forall₂ R (l.dropWhile P) (l'.dropWhile Q) := by
  induction h with
  | nil => exact .nil
  | cons hab h ih =>
    rw [List.dropWhile_cons, List.dropWhile_cons, hPQ _ _ hab]
    split
    · exact ih
    · exact .cons hab h

theorem rel_getLast? (h : List.Forall₂ R l l') : Option.Rel R l.getLast? l'.getLast? := by
  have hreverse := List.rel_reverse h
  rw [← List.head?_reverse, ← List.head?_reverse]
  generalize l.reverse = r at hreverse ⊢
  generalize l'.reverse = r' at hreverse ⊢
  cases hreverse with
  | nil => exact .none
  | cons hab _ => exact .some hab

end Lists

/-- Streams whose tokens are alike one by one. -/
structure TokenStream.Alike (ρ : Position → Position → Prop) (s t : TokenStream) : Prop where
  behind : List.Forall₂ (Token.Alike ρ) s.behind t.behind
  ahead : List.Forall₂ (Token.Alike ρ) s.ahead t.ahead
  stop : s.stop.Alike ρ t.stop
  beyond : List.Forall₂ (Token.Alike ρ) s.beyond t.beyond

namespace TokenStream.Alike

variable {s t : TokenStream}

theorem current (h : s.Alike ρ t) : s.current.Alike ρ t.current := by
  obtain ⟨b, a, e, z⟩ := s
  obtain ⟨b', a', e', z'⟩ := t
  cases h.ahead with
  | nil => exact h.stop
  | cons hx _ => exact hx

theorem peek (h : s.Alike ρ t) (n : Nat) : (s.peek n).Alike ρ (t.peek n) :=
  forall₂_getD (List.rel_append h.ahead (.cons h.stop h.beyond)) (forall₂_getLastD h.beyond h.stop)
    n

theorem remaining_eq (h : s.Alike ρ t) : s.remaining = t.remaining := h.ahead.length_eq

theorem atEnd_eq (h : s.Alike ρ t) : s.atEnd = t.atEnd := by
  obtain ⟨b, a, e, z⟩ := s
  obtain ⟨b', a', e', z'⟩ := t
  cases h.ahead <;> rfl

theorem advance (h : s.Alike ρ t) : s.advance.Alike ρ t.advance := by
  obtain ⟨b, a, e, z⟩ := s
  obtain ⟨b', a', e', z'⟩ := t
  obtain ⟨hb, ha, he, hz⟩ := h
  cases ha with
  | nil => exact ⟨hb, .nil, he, hz⟩
  | cons hx hxs => exact ⟨.cons hx hb, hxs, he, hz⟩

/-- The search for a boundary asks for kinds only. -/
theorem seek {b b' ts ts' : List Token} (hb : List.Forall₂ (Token.Alike ρ) b b')
    (hts : List.Forall₂ (Token.Alike ρ) ts ts') :
    List.Forall₂ (Token.Alike ρ) (TokenStream.seek b ts).1 (TokenStream.seek b' ts').1 ∧
      List.Forall₂ (Token.Alike ρ) (TokenStream.seek b ts).2 (TokenStream.seek b' ts').2 := by
  induction hts generalizing b b' with
  | nil => exact ⟨hb, .nil⟩
  | cons hx hxs ih =>
    have hhead : b.head?.map (·.kind) = b'.head?.map (·.kind) := by
      cases hb with
      | nil => rfl
      | cons hy _ => exact congrArg some hy.kind_eq
    unfold TokenStream.seek
    rw [hhead, hx.kind_eq]
    split_ifs
    · exact ⟨hb, .cons hx hxs⟩
    · exact ih (.cons hx hb)

theorem synchronize (h : s.Alike ρ t) : s.synchronize.Alike ρ t.synchronize := by
  obtain ⟨b, a, e, z⟩ := s
  obtain ⟨b', a', e', z'⟩ := t
  obtain ⟨hb, ha, he, hz⟩ := h
  cases ha with
  | nil => exact ⟨hb, .nil, he, hz⟩
  | cons hx hxs =>
    obtain ⟨hbehind, hahead⟩ := seek (.cons hx hb) hxs
    exact ⟨hbehind, hahead, he, hz⟩

/-- Closing tokens adds an end marker to both or to neither. -/
theorem closed (hstart : ρ .start .start) {ts ts' : List Token}
    (h : List.Forall₂ (Token.Alike ρ) ts ts') :
    List.Forall₂ (Token.Alike ρ) (TokenStream.closed ts) (TokenStream.closed ts') := by
  have hlast := rel_getLast? h
  unfold TokenStream.closed
  generalize ts.getLast? = last at hlast ⊢
  generalize ts'.getLast? = last' at hlast ⊢
  cases hlast with
  | none => exact .cons ⟨fun _ => rfl, hstart⟩ .nil
  | some ht =>
    dsimp only
    rw [ht.kind_eq]
    split_ifs
    · exact h
    · exact List.rel_append h (.cons ⟨fun _ => rfl, ht.place⟩ .nil)

theorem ofTokens (hstart : ρ .start .start) {ts ts' : List Token}
    (h : List.Forall₂ (Token.Alike ρ) (ts.filter (·.kind ≠ .newline))
      (ts'.filter (·.kind ≠ .newline))) :
    (TokenStream.ofTokens ts).Alike ρ (TokenStream.ofTokens ts') := by
  have hall := closed hstart h
  have hkind (t u : Token) (htu : t.Alike ρ u) :
      decide (t.kind ≠ .endOfInput) = decide (u.kind ≠ .endOfInput) := by rw [htu.kind_eq]
  have hahead := forall₂_takeWhile hkind hall
  have hrest := forall₂_dropWhile hkind hall
  unfold TokenStream.ofTokens
  dsimp only
  generalize (TokenStream.closed (ts.filter (·.kind ≠ .newline))).dropWhile
    (·.kind ≠ .endOfInput) = rest at hrest ⊢
  generalize (TokenStream.closed (ts'.filter (·.kind ≠ .newline))).dropWhile
    (·.kind ≠ .endOfInput) = rest' at hrest ⊢
  cases hrest with
  | nil => exact ⟨.nil, hahead, ⟨fun _ => rfl, hstart⟩, .nil⟩
  | cons hstop hbeyond => exact ⟨.nil, hahead, hstop, hbeyond⟩

end TokenStream.Alike

/-- States with streams and complaints that are alike. -/
structure ParseState.Alike (ρ : Position → Position → Prop) (s t : ParseState) : Prop where
  stream : s.stream.Alike ρ t.stream
  errors : Diagnostics.Alike ρ s.errors t.errors

namespace Parse

/-- Ends of two runs that are alike: both with results that `R` relates, or both with complaints
that are alike. -/
inductive AlikeEnds (ρ : Position → Position → Prop) {α β : Type} (R : α → β → Prop) :
    EStateM.Result Diagnostic ParseState α → EStateM.Result Diagnostic ParseState β → Prop
  | ok {a : α} {b : β} {s t : ParseState} (h : R a b) (hs : s.Alike ρ t) :
      AlikeEnds ρ R (.ok a s) (.ok b t)
  | error {d e : Diagnostic} {s t : ParseState} (h : d.Alike ρ e) (hs : s.Alike ρ t) :
      AlikeEnds ρ R (.error d s) (.error e t)

/-- **Steps in step:** from states that are alike they come to ends that are alike. -/
def Alike (ρ : Position → Position → Prop) {α β : Type} (R : α → β → Prop) (p : Parse α)
    (q : Parse β) : Prop :=
  ∀ ⦃s t : ParseState⦄, s.Alike ρ t → AlikeEnds ρ R (p s) (q t)

/-! ### Composed steps -/

section Composed

variable {α β α' β' : Type} {R : α → α' → Prop} {S : β → β' → Prop}

theorem Alike.pure {a : α} {a' : α'} (h : R a a') :
    Alike ρ R (Pure.pure a : Parse α) (Pure.pure a' : Parse α') :=
  fun _ _ hs => .ok h hs

theorem Alike.throw {d d' : Diagnostic} (h : d.Alike ρ d') :
    Alike ρ R (MonadExcept.throw d : Parse α) (MonadExcept.throw d' : Parse α') :=
  fun _ _ hs => .error h hs

theorem Alike.bind {p : Parse α} {p' : Parse α'} {f : α → Parse β} {f' : α' → Parse β'}
    (hp : Alike ρ R p p') (hf : ∀ a a', R a a' → Alike ρ S (f a) (f' a')) :
    Alike ρ S (p >>= f) (p' >>= f') := by
  intro s s' hs
  have hends := hp hs
  rw [bind_apply, bind_apply]
  generalize p s = r at hends ⊢
  generalize p' s' = r' at hends ⊢
  cases hends with
  | ok h ht => exact hf _ _ h ht
  | error h ht => exact .error h ht

theorem Alike.map {p : Parse α} {p' : Parse α'} {f : α → β} {f' : α' → β'} (hp : Alike ρ R p p')
    (hf : ∀ a a', R a a' → S (f a) (f' a')) : Alike ρ S (f <$> p) (f' <$> p') := by
  show Alike ρ S (p >>= fun a => Pure.pure (f a)) (p' >>= fun a => Pure.pure (f' a))
  exact hp.bind fun a a' h => .pure (hf a a' h)

theorem Alike.ite {c : Prop} [Decidable c] {p q : Parse α} {p' q' : Parse α'} (hp : Alike ρ R p p')
    (hq : Alike ρ R q q') : Alike ρ R (if c then p else q) (if c then p' else q') := by
  split_ifs
  · exact hp
  · exact hq

end Composed

/-! ### The primitive steps -/

theorem alike_current : Alike ρ (Token.Alike ρ) current current :=
  fun _ _ hs => .ok hs.stream.current hs

theorem alike_peek (n : Nat) : Alike ρ (Token.Alike ρ) (peek n) (peek n) :=
  fun _ _ hs => .ok (hs.stream.peek n) hs

theorem alike_remaining : Alike ρ Eq remaining remaining :=
  fun _ _ hs => .ok hs.stream.remaining_eq hs

theorem alike_atEnd : Alike ρ Eq (return (← get).stream.atEnd : Parse Bool)
    (return (← get).stream.atEnd : Parse Bool) :=
  fun _ _ hs => .ok hs.stream.atEnd_eq hs

theorem alike_advance : Alike ρ (Token.Alike ρ) advance advance :=
  fun _ _ hs => .ok hs.stream.current ⟨hs.stream.advance, hs.errors⟩

theorem alike_report {d d' : Diagnostic} (h : d.Alike ρ d') :
    Alike ρ Eq (report d) (report d') :=
  fun _ _ hs => .ok rfl ⟨hs.stream, hs.errors.append (.single h)⟩

theorem alike_accept (kind : Kind) : Alike ρ Eq (accept kind) (accept kind) := by
  refine alike_current.bind fun t t' ht => ?_
  rw [ht.kind_eq]
  exact .ite (alike_advance.bind fun _ _ _ => .pure rfl) (.pure rfl)

theorem expect_apply (kind : Kind) (expected : String) (s : ParseState) : expect kind expected s =
    if s.stream.current.kind = kind then advance s
    else .error ⟨.unexpectedToken expected s.stream.current.describe, s.stream.current.position⟩
      s := by
  unfold expect
  show (if s.stream.current.kind = kind then advance else throw _ : Parse Token) s = _
  split_ifs <;> rfl

/-- The token that is read has the kind that was expected; what was found instead is left out of the
words of the complaint. -/
theorem alike_expect (kind : Kind) (expected : String) :
    Alike ρ (fun t t' => t.Alike ρ t' ∧ t.kind = kind) (expect kind expected)
      (expect kind expected) := by
  intro s s' hs
  have ht := hs.stream.current
  rw [expect_apply, expect_apply, ← ht.kind_eq]
  split_ifs with hkind
  · exact .ok ⟨ht, hkind⟩ ⟨hs.stream.advance, hs.errors⟩
  · exact .error ⟨rfl, rfl, ht.place⟩ hs

theorem alike_noExpression {α α' : Type} {R : α → α' → Prop} {t t' : Token} (ht : t.Alike ρ t') :
    Alike ρ R (noExpression t) (noExpression t') := .throw ⟨rfl, rfl, ht.place⟩

theorem alike_type {cause : String → Cause}
    (hname : ∀ found found', (cause found).name = (cause found').name)
    (hmessage : ∀ found found', (cause found).message = (cause found').message) :
    Alike ρ Eq (type cause) (type cause) := by
  refine alike_current.bind fun t t' ht => ?_
  rw [ht.kind_eq]
  cases t'.kind.type? with
  | none => exact .throw ⟨hname _ _, hmessage _ _, ht.place⟩
  | some type => exact alike_advance.bind fun _ _ _ => .pure rfl

theorem alike_declarationType : Alike ρ Eq (type declarationType) (type declarationType) :=
  alike_type (fun _ _ => rfl) fun _ _ => rfl

theorem alike_parameterType : Alike ρ Eq (type parameterType) (type parameterType) :=
  alike_type (fun _ _ => rfl) fun _ _ => rfl

/-! ### Expressions -/

/-- Only here a text is looked into: numbers are read from the texts of number tokens. -/
theorem alike_primary : Alike ρ (Expr.Alike ρ) primary primary := by
  refine alike_advance.bind ?_
  rintro ⟨kind, value, p⟩ t' ⟨hvalue, hp⟩
  cases kind with
  | integerLiteral =>
    obtain rfl := hvalue nofun
    dsimp only
    cases Number.readInteger? value with
    | none => exact .throw (.of_cause _ hp)
    | some n => exact .pure (.literal (.refl _) hp)
  | floatLiteral =>
    obtain rfl := hvalue nofun
    dsimp only
    cases Number.readFloat? value with
    | none => exact .throw (.of_cause _ hp)
    | some x => exact .pure (.literal (.refl _) hp)
  | stringLiteral => exact .pure (.literal (.string _ _) hp)
  | trueWord => exact .pure (.literal (.refl _) hp)
  | falseWord => exact .pure (.literal (.refl _) hp)
  | identifier =>
    obtain rfl := hvalue nofun
    exact .pure (.var value hp)
  | _ => exact alike_noExpression ⟨hvalue, hp⟩

section Rules

variable {expr : Power → Parse Expr} (hexpr : ∀ m, Alike ρ (Expr.Alike ρ) (expr m) (expr m))
include hexpr

theorem alike_unary : Alike ρ (Expr.Alike ρ) (unary expr) (unary expr) := by
  refine alike_advance.bind fun t t' ht => ?_
  rw [ht.kind_eq]
  cases UnaryOp.ofKind? t'.kind with
  | none => exact alike_noExpression ht
  | some op => exact (hexpr .unary).bind fun e e' he => .pure (.unary op he ht.place)

theorem alike_grouping : Alike ρ (Expr.Alike ρ) (grouping expr) (grouping expr) :=
  alike_advance.bind fun _ _ _ => (hexpr .lowest).bind fun _ _ he =>
    (alike_expect _ _).bind fun _ _ _ => .pure he

variable {left left' : Expr} (hleft : left.Alike ρ left')
include hleft

theorem alike_binary (power : Power) :
    Alike ρ (Expr.Alike ρ) (binary expr left power) (binary expr left' power) := by
  refine alike_advance.bind fun t t' ht => ?_
  rw [ht.kind_eq]
  cases BinaryOp.ofKind? t'.kind with
  | none => exact alike_noExpression ht
  | some op => exact (hexpr power).bind fun e e' he => .pure (.binary op hleft he ht.place)

/-- Expressions that are alike are both variables, or neither is. -/
theorem alike_assignment :
    Alike ρ (Expr.Alike ρ) (assignment expr left) (assignment expr left') := by
  refine alike_advance.bind fun t t' ht => (hexpr .lowest).bind fun e e' he => ?_
  have hreport : Alike ρ (Expr.Alike ρ)
      (report ⟨.invalidAssignmentTarget, t.position⟩ >>= fun _ => Pure.pure left)
      (report ⟨.invalidAssignmentTarget, t'.position⟩ >>= fun _ => Pure.pure left') :=
    (alike_report (.of_cause _ ht.place)).bind fun _ _ _ => .pure hleft
  cases hleft with
  | var name hp => exact .pure (.assign name he hp)
  | literal _ _ | unary _ _ _ | binary _ _ _ _ | call _ _ _ | assign _ _ _ => exact hreport

omit hleft in
theorem alike_arguments (n : Nat) :
    Alike ρ (Expr.AllAlike ρ) (arguments expr n) (arguments expr n) := by
  induction n with
  | zero => exact (hexpr .lowest).bind fun _ _ he => .pure (.cons he .nil)
  | succ n ih =>
    refine (hexpr .lowest).bind fun e e' he => (alike_accept .comma).bind ?_
    rintro more _ rfl
    exact .ite (ih.bind fun _ _ hes => .pure (.cons he hes)) (.pure (.cons he .nil))

theorem alike_call : Alike ρ (Expr.Alike ρ) (call expr left) (call expr left') := by
  refine alike_advance.bind fun _ _ _ => alike_current.bind fun t t' ht => ?_
  have hclose {es es' : List Expr} (hes : Expr.AllAlike ρ es es') : Alike ρ (Expr.Alike ρ)
      (expect .closeParen "Expected ')' after arguments" >>= fun paren =>
        Pure.pure (.call left es paren.position))
      (expect .closeParen "Expected ')' after arguments" >>= fun paren =>
        Pure.pure (.call left' es' paren.position)) :=
    (alike_expect _ _).bind fun _ _ hparen => .pure (.call hleft hes hparen.1.place)
  rw [ht.kind_eq]
  refine Alike.ite (hclose .nil) (alike_remaining.bind ?_)
  rintro n _ rfl
  exact (alike_arguments hexpr n).bind fun _ _ hes => hclose hes

omit hleft in
theorem alike_operand (form : OperandForm) :
    Alike ρ (Expr.Alike ρ) (operand expr form) (operand expr form) := by
  cases form with
  | primary => exact alike_primary
  | unary => exact alike_unary hexpr
  | grouping => exact alike_grouping hexpr

theorem alike_operator (power : Power) (form : OperatorForm) :
    Alike ρ (Expr.Alike ρ) (operator expr left power form) (operator expr left' power form) := by
  cases form with
  | binary => exact alike_binary hexpr hleft power
  | assignment => exact alike_assignment hexpr hleft
  | call => exact alike_call hexpr hleft

/-- Operators are told by their kinds, so both loops read the same number of them. -/
theorem alike_operators (g : Grammar) (minimum : Power) (n : Nat) : Alike ρ (Expr.Alike ρ)
    (operators expr g minimum n left) (operators expr g minimum n left') := by
  induction n generalizing left left' with
  | zero => exact .pure hleft
  | succ n ih =>
    refine alike_current.bind fun t t' ht => ?_
    rw [ht.kind_eq]
    cases g.operator? t'.kind with
    | none => exact .pure hleft
    | some r =>
      obtain ⟨power, form⟩ := r
      exact .ite ((alike_operator hexpr hleft power form).bind fun _ _ he => ih he) (.pure hleft)

end Rules

theorem alike_exprWithin (g : Grammar) (n : Nat) (minimum : Power) :
    Alike ρ (Expr.Alike ρ) (exprWithin g n minimum) (exprWithin g n minimum) := by
  induction n generalizing minimum with
  | zero => exact alike_current.bind fun _ _ ht => alike_noExpression ht
  | succ n ih =>
    refine alike_current.bind fun t t' ht => ?_
    rw [ht.kind_eq]
    cases g.operand? t'.kind with
    | none => exact alike_noExpression ht
    | some form =>
      refine (alike_operand ih form).bind fun e e' he => alike_remaining.bind ?_
      rintro k _ rfl
      exact alike_operators ih he g minimum k

/-- **Expressions are read alike.** -/
theorem alike_expr (g : Grammar) (minimum : Power) :
    Alike ρ (Expr.Alike ρ) (expr g minimum) (expr g minimum) := by
  refine alike_remaining.bind ?_
  rintro n _ rfl
  exact alike_exprWithin g n minimum

/-! ### Statements -/

/-- Recovery moves to the same boundary. -/
theorem alike_recover {stmt : Parse Stmt} (h : Alike ρ (Stmt.Alike ρ) stmt stmt) :
    Alike ρ (Stmt.OptionAlike ρ) (recover stmt) (recover stmt) := by
  intro s t hs
  have hends := h hs
  unfold recover
  generalize stmt s = r at hends ⊢
  generalize stmt t = r' at hends ⊢
  cases hends with
  | ok hx ht => exact .ok (.some hx) ht
  | error hd ht => exact .ok .none ⟨ht.stream.synchronize, ht.errors.append (.single hd)⟩

theorem alike_statements (stops : Kind → Bool) {stmt : Parse Stmt}
    (h : Alike ρ (Stmt.Alike ρ) stmt stmt) (n : Nat) :
    Alike ρ (Stmt.AllAlike ρ) (statements stops stmt n) (statements stops stmt n) := by
  induction n with
  | zero => exact .pure .nil
  | succ n ih =>
    show Alike ρ (Stmt.AllAlike ρ)
      ((return (← get).stream.atEnd : Parse Bool) >>= fun atEnd => current >>= fun t =>
        if atEnd || stops t.kind then Pure.pure [] else recover stmt >>= _)
      ((return (← get).stream.atEnd : Parse Bool) >>= fun atEnd => current >>= fun t =>
        if atEnd || stops t.kind then Pure.pure [] else recover stmt >>= _)
    refine alike_atEnd.bind ?_
    rintro atEnd _ rfl
    refine alike_current.bind fun t t' ht => ?_
    rw [ht.kind_eq]
    refine .ite (.pure .nil) ((alike_recover h).bind ?_)
    rintro _ _ (_ | hs)
    · exact ih
    · exact ih.bind fun _ _ hss => .pure (.cons hs hss)

/-- A token with a name has the same name as one that is alike. -/
theorem value_eq_of_identifier {t t' : Token} (h : t.Alike ρ t' ∧ t.kind = .identifier) :
    t.value = t'.value := h.1.value_eq (h.2 ▸ nofun)

theorem alike_parameter : Alike ρ (Parameter.Alike ρ) parameter parameter := by
  refine alike_parameterType.bind ?_
  rintro type _ rfl
  refine (alike_expect _ _).bind fun t t' ht => ?_
  rw [value_eq_of_identifier ht]
  exact .pure (.mk _ _ ht.1.place)

theorem alike_parameters (n : Nat) :
    Alike ρ (List.Forall₂ (Parameter.Alike ρ)) (parameters n) (parameters n) := by
  induction n with
  | zero => exact alike_parameter.bind fun _ _ hp => .pure (.cons hp .nil)
  | succ n ih =>
    refine alike_parameter.bind fun p p' hp => (alike_accept .comma).bind ?_
    rintro more _ rfl
    exact .ite (ih.bind fun _ _ hps => .pure (.cons hp hps)) (.pure (.cons hp .nil))

section Rules

variable (g : Grammar)

theorem alike_exprUnless (kind : Kind) :
    Alike ρ (Option.Rel (Expr.Alike ρ)) (exprUnless g kind) (exprUnless g kind) := by
  refine alike_current.bind fun t t' ht => ?_
  rw [ht.kind_eq]
  exact .ite (.pure .none) ((alike_expr g .lowest).bind fun _ _ he => .pure (.some he))

theorem alike_expressionStmt : Alike ρ (Stmt.Alike ρ) (expressionStmt g) (expressionStmt g) :=
  (alike_expr g .lowest).bind fun _ _ he => (alike_expect _ _).bind fun _ _ _ => .pure (.expr he)

theorem alike_variableDecl : Alike ρ (Stmt.Alike ρ) (variableDecl g) (variableDecl g) := by
  refine alike_declarationType.bind ?_
  rintro type _ rfl
  refine (alike_expect _ _).bind fun name name' hname => (alike_accept .assign).bind ?_
  rintro initialized _ rfl
  have hclose {i i' : Option Expr} (hi : Option.Rel (Expr.Alike ρ) i i') : Alike ρ (Stmt.Alike ρ)
      (expect .semicolon "Expected ';' after variable declaration" >>= fun _ =>
        Pure.pure (.variableDecl type name.value i name.position))
      (expect .semicolon "Expected ';' after variable declaration" >>= fun _ =>
        Pure.pure (.variableDecl type name'.value i' name'.position)) := by
    rw [value_eq_of_identifier hname]
    exact (alike_expect _ _).bind fun _ _ _ => .pure (.variableDecl _ _ hi hname.1.place)
  refine .ite (Alike.bind ?_ fun _ _ hi => hclose hi) (hclose .none)
  exact (alike_expr g .lowest).map fun _ _ he => .some he

theorem alike_giveBack : Alike ρ (Stmt.Alike ρ) (giveBack g) (giveBack g) :=
  alike_advance.bind fun _ _ ht => (alike_exprUnless g _).bind fun _ _ he =>
    (alike_expect _ _).bind fun _ _ _ => .pure (.giveBack he ht.place)

theorem alike_print : Alike ρ (Stmt.Alike ρ) (print g) (print g) :=
  alike_advance.bind fun _ _ ht => (alike_expect _ _).bind fun _ _ _ =>
    (alike_expr g .lowest).bind fun _ _ he => (alike_expect _ _).bind fun _ _ _ =>
      (alike_expect _ _).bind fun _ _ _ => .pure (.print he ht.place)

theorem alike_forInitial : Alike ρ (Stmt.OptionAlike ρ) (forInitial g) (forInitial g) := by
  refine (alike_accept _).bind ?_
  rintro absent _ rfl
  refine .ite (.pure .none) (alike_current.bind fun t t' ht => ?_)
  rw [ht.kind_eq]
  exact .ite ((alike_variableDecl g).bind fun _ _ hs => .pure (.some hs))
    ((alike_expressionStmt g).bind fun _ _ hs => .pure (.some hs))

variable {stmt : Parse Stmt} (hstmt : Alike ρ (Stmt.Alike ρ) stmt stmt)
include hstmt

omit g in
theorem alike_blockBody : Alike ρ (Stmt.AllAlike ρ) (blockBody stmt) (blockBody stmt) := by
  refine alike_remaining.bind ?_
  rintro n _ rfl
  exact (alike_statements _ hstmt n).bind fun _ _ hss =>
    (alike_expect _ _).bind fun _ _ _ => .pure hss

omit g in
theorem alike_block : Alike ρ (Stmt.Alike ρ) (block stmt) (block stmt) :=
  alike_advance.bind fun _ _ ht => (alike_blockBody hstmt).bind fun _ _ hss =>
    .pure (.block hss ht.place)

omit g in
theorem alike_functionDecl : Alike ρ (Stmt.Alike ρ) (functionDecl stmt) (functionDecl stmt) := by
  refine alike_declarationType.bind ?_
  rintro result _ rfl
  refine (alike_expect _ _).bind fun name name' hname => (alike_expect _ _).bind fun _ _ _ =>
    alike_current.bind fun t t' ht => ?_
  have hbody {ps ps' : List Parameter} (hps : List.Forall₂ (Parameter.Alike ρ) ps ps') :
      Alike ρ (Stmt.Alike ρ)
        (expect .closeParen "Expected ')' after parameters" >>= fun _ =>
          expect .openCurly "Expected '\x7b' before function body" >>= fun brace =>
            blockBody stmt >>= fun body => Pure.pure
              (.functionDecl result name.value ps body brace.position name.position))
        (expect .closeParen "Expected ')' after parameters" >>= fun _ =>
          expect .openCurly "Expected '\x7b' before function body" >>= fun brace =>
            blockBody stmt >>= fun body => Pure.pure
              (.functionDecl result name'.value ps' body brace.position name'.position)) := by
    rw [value_eq_of_identifier hname]
    exact (alike_expect _ _).bind fun _ _ _ => (alike_expect _ _).bind fun _ _ hbrace =>
      (alike_blockBody hstmt).bind fun _ _ hss =>
        .pure (.functionDecl _ _ hps hss hbrace.1.place hname.1.place)
  rw [ht.kind_eq]
  refine .ite (hbody .nil) (alike_remaining.bind ?_)
  rintro n _ rfl
  exact (alike_parameters n).bind fun _ _ hps => hbody hps

theorem alike_declarationStmt :
    Alike ρ (Stmt.Alike ρ) (declarationStmt g stmt) (declarationStmt g stmt) := by
  refine (alike_peek 1).bind fun t t' ht => (alike_peek 2).bind fun u u' hu => ?_
  rw [ht.kind_eq, hu.kind_eq]
  exact .ite (alike_functionDecl hstmt) (alike_variableDecl g)

theorem alike_bodyStmt : Alike ρ (Stmt.Alike ρ) (bodyStmt g stmt) (bodyStmt g stmt) := by
  refine alike_current.bind fun t t' ht => ?_
  rw [ht.kind_eq]
  exact .ite (alike_expressionStmt g) hstmt

theorem alike_branch : Alike ρ (Stmt.Alike ρ) (branch g stmt) (branch g stmt) := by
  refine alike_advance.bind fun t t' ht => (alike_expect _ _).bind fun _ _ _ =>
    (alike_expr g .lowest).bind fun c c' hc => (alike_expect _ _).bind fun _ _ _ =>
      (alike_bodyStmt g hstmt).bind fun s s' hs => (alike_accept _).bind ?_
  rintro other _ rfl
  refine .ite (Alike.bind ((alike_bodyStmt g hstmt).map fun _ _ => Stmt.OptionAlike.some) ?_) ?_
  · exact fun _ _ ho => .pure (.branch hc hs ho ht.place)
  · exact .pure (.branch hc hs .none ht.place)

theorem alike_whileLoop : Alike ρ (Stmt.Alike ρ) (whileLoop g stmt) (whileLoop g stmt) :=
  alike_advance.bind fun _ _ ht => (alike_expect _ _).bind fun _ _ _ =>
    (alike_expr g .lowest).bind fun _ _ hc => (alike_expect _ _).bind fun _ _ _ =>
      (alike_bodyStmt g hstmt).bind fun _ _ hs => .pure (.whileLoop hc hs ht.place)

theorem alike_forLoop : Alike ρ (Stmt.Alike ρ) (forLoop g stmt) (forLoop g stmt) :=
  alike_advance.bind fun _ _ ht => (alike_expect _ _).bind fun _ _ _ =>
    (alike_forInitial g).bind fun _ _ ho => (alike_exprUnless g _).bind fun _ _ hc =>
      (alike_expect _ _).bind fun _ _ _ => (alike_exprUnless g _).bind fun _ _ hi =>
        (alike_expect _ _).bind fun _ _ _ => (alike_bodyStmt g hstmt).bind fun _ _ hs =>
          .pure (.forLoop ho hc hi hs ht.place)

theorem alike_statement (form : StatementForm) :
    Alike ρ (Stmt.Alike ρ) (statement g stmt form) (statement g stmt form) := by
  cases form with
  | declaration => exact alike_declarationStmt g hstmt
  | branch => exact alike_branch g hstmt
  | whileLoop => exact alike_whileLoop g hstmt
  | forLoop => exact alike_forLoop g hstmt
  | giveBack => exact alike_giveBack g
  | print => exact alike_print g
  | block => exact alike_block hstmt

end Rules

theorem alike_stmtWithin (g : Grammar) (n : Nat) :
    Alike ρ (Stmt.Alike ρ) (stmtWithin g n) (stmtWithin g n) := by
  induction n with
  | zero => exact alike_expressionStmt g
  | succ n ih =>
    refine alike_current.bind fun t t' ht => ?_
    rw [ht.kind_eq]
    cases g.statement? t'.kind with
    | none => exact alike_expressionStmt g
    | some form => exact alike_statement g ih form

/-- **Statements are read alike.** -/
theorem alike_stmt (g : Grammar) : Alike ρ (Stmt.Alike ρ) (stmt g) (stmt g) := by
  refine alike_remaining.bind ?_
  rintro n _ rfl
  exact alike_stmtWithin g n

theorem alike_program (g : Grammar) : Alike ρ (Program.Alike ρ) (program g) (program g) := by
  refine alike_remaining.bind ?_
  rintro n _ rfl
  exact (alike_statements _ (alike_stmt g) n).bind fun _ _ hss => .pure hss

end Parse

/-- **Tokens that are alike, newlines apart, are read alike.** -/
theorem parse_alike (hstart : ρ .start .start) {ts ts' : List Token}
    (h : List.Forall₂ (Token.Alike ρ) (ts.filter (·.kind ≠ .newline))
      (ts'.filter (·.kind ≠ .newline))) :
    (parse ts).program.Alike ρ (parse ts').program ∧
      Diagnostics.Alike ρ (parse ts).errors (parse ts').errors := by
  have hstate : ParseState.Alike ρ ⟨TokenStream.ofTokens ts, []⟩ ⟨TokenStream.ofTokens ts', []⟩ :=
    ⟨.ofTokens hstart h, .nil⟩
  have hends := Parse.alike_program .standard hstate
  unfold parse
  generalize Parse.program .standard ⟨TokenStream.ofTokens ts, []⟩ = r at hends ⊢
  generalize Parse.program .standard ⟨TokenStream.ofTokens ts', []⟩ = r' at hends ⊢
  cases hends with
  | ok hprogram hs => exact ⟨hprogram, hs.errors⟩
  | error hd hs => exact ⟨.nil, hs.errors.append (.single hd)⟩

end StackListing
