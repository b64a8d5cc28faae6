import StackListing.Proofs.Grammar.StmtReading

/-!
# The grammar is unambiguous

Two trees that begin at the same place and end where neither could be continued are equal
(`ExprTree.unique`, `StmtTree.unique`); in particular a program has at most one derivation
(`ProgramTree.tokens_injective`).

The proofs compare two trees alternative by alternative.  Where both have a first part, the parts
end where neither could be continued, so they are equal and what follows begins at the same place
again.  Different alternatives already differ in a token, but for one pair: an assignment and an
expression without one.  There the parser decides, since it would read the target as an expression
that ends before the sign.
-/

namespace StackListing

open Parse ParseState

/-! ### Words -/

theorem LiteralWord.ext_token {w w' : LiteralWord} (h : w.token = w'.token) : w = w' := by
  obtain ⟨t, l, hl⟩ := w
  obtain ⟨t', l', hl'⟩ := w'
  obtain rfl : t = t' := h
  obtain rfl : l = l' := Option.some.inj (hl.symm.trans hl')
  rfl

theorem PrefixWord.ext_token {w w' : PrefixWord} (h : w.token = w'.token) : w = w' := by
  obtain ⟨t, op, hop⟩ := w
  obtain ⟨t', op', hop'⟩ := w'
  obtain rfl : t = t' := h
  obtain rfl : op = op' := Option.some.inj (hop.symm.trans hop')
  rfl

theorem InfixWord.ext_token {p : Power} {w w' : InfixWord p} (h : w.token = w'.token) : w = w' := by
  obtain ⟨t, op, hop, hl⟩ := w
  obtain ⟨t', op', hop', hl'⟩ := w'
  obtain rfl : t = t' := h
  obtain rfl : op = op' := Option.some.inj (hop.symm.trans hop')
  rfl

theorem TypeWord.ext_token {w w' : TypeWord} (h : w.token = w'.token) : w = w' := by
  obtain ⟨t, ty, hty⟩ := w
  obtain ⟨t', ty', hty'⟩ := w'
  obtain rfl : t = t' := h
  obtain rfl : ty = ty' := Option.some.inj (hty.symm.trans hty')
  rfl

variable {p : Power} {s t t' : ParseState} {x y : Token} {ts us : List Token}

/-- Two readings that begin at the same place begin with the same token. -/
theorem ParseState.Past.head_unique (h : s.Past (x :: ts) t) (h' : s.Past (y :: us) t') :
    x = y ∧ ∃ s1 : ParseState, s1.Past ts t ∧ s1.Past us t' := by
  obtain rfl : x = y := h.current.symm.trans h'.current
  obtain ⟨s1, h1, h2⟩ := past_cons.mp h
  obtain ⟨s2, h3, h4⟩ := past_cons.mp h'
  obtain rfl := h1.unique h3
  exact ⟨rfl, s1, h2, h4⟩

/-- Words of one kind at the same place are equal. -/
theorem word_unique {k : Kind} {w w' : Word k} (h : s.Past (w.1 :: ts) t)
    (h' : s.Past (w'.1 :: us) t') : w = w' ∧ ∃ s1 : ParseState, s1.Past ts t ∧ s1.Past us t' := by
  obtain ⟨hw, hrest⟩ := h.head_unique h'
  exact ⟨Subtype.ext hw, hrest⟩

/-- Words of different kinds do not stand at the same place. -/
theorem word_ne {k k' : Kind} (hk : k ≠ k') {w : Word k} {w' : Word k'} (h : s.Past (w.1 :: ts) t)
    (h' : s.Past (w'.1 :: us) t') : False :=
  hk (w.2.symm.trans ((congrArg Token.kind (h.head_unique h').1).trans w'.2))

/-! ### Expressions -/

theorem TargetTree.unique : ∀ (d d' : TargetTree) {s t t' : ParseState}, s.Past d.tokens t →
    s.Past d'.tokens t' → d = d'
  | .name w, .name w', s, t, t', h, h' => by rw [(word_unique h h').1]
  | .name w, .paren l inner r, s, t, t', h, h' => (word_ne (by decide) h h').elim
  | .paren l inner r, .name w, s, t, t', h, h' => (word_ne (by decide) h h').elim
  | .paren l inner r, .paren l' inner' r', s, t, t', h, h' => by
    obtain ⟨rfl, s1, h1, h2⟩ := word_unique h h'
    obtain ⟨s2, h3, h4⟩ := past_append.mp h1
    obtain ⟨s3, h5, h6⟩ := past_append.mp h2
    obtain rfl := TargetTree.unique inner inner' h3 h5
    obtain rfl := h3.unique h5
    rw [(word_unique h4 h6).1]

/-- A tree that binds at least as tightly as a call begins with no prefix operator. -/
theorem ExprTree.begins_call : ∀ {p : Power} (d : ExprTree p), Power.call.rank ≤ p.rank →
    ∃ x xs f, d.tokens = x :: xs ∧ Grammar.standard.operand? x.kind = some f ∧ f ≠ .unary
  | _, .literal w, _ => ⟨w.token, [], .primary, rfl, w.operand, nofun⟩
  | _, .var w, _ => ⟨w.1, [], .primary, rfl, by rw [w.2]; rfl, nofun⟩
  | _, .paren l inner r, _ => ⟨l.1, inner.tokens ++ [r.1], .grouping, rfl, by rw [l.2]; rfl, nofun⟩
  | _, .unary w operand, hp => absurd hp (by decide)
  | _, .assign target sign value, hp => absurd hp (by decide)
  | _, .joined hq first links, hp => by
    obtain ⟨x, xs, f, hx, hf⟩ := first.begins_call (by rw [Power.rank_tighter hq]; omega)
    exact ⟨x, xs ++ links.tokens, f, by simp [ExprTree.tokens, hx], hf⟩

theorem LiteralWord.kind_ne (w : LiteralWord) :
    w.token.kind ≠ .identifier ∧ w.token.kind ≠ .openParen := by
  obtain ⟨⟨k, v, pos⟩, l, hl⟩ := w
  constructor <;> rintro rfl <;> cases hl

theorem InfixWord.not_call (w : InfixWord .call) : False := by
  obtain ⟨t, op, hop, hl⟩ := w
  cases op <;> cases hl

/-- A prefix operator and an expression of the level of calls do not stand at the same place. -/
theorem ExprTree.unary_ne {q : Power} (w : PrefixWord) (hq : Power.unary.tighter? = some q)
    (d : ExprTree q) (h : s.Past (w.token :: ts) t) (h' : s.Past (d.tokens ++ us) t') : False := by
  obtain rfl := Option.some.inj hq
  obtain ⟨y, ys, f, hy, hf, hne⟩ := d.begins_call (by decide)
  rw [hy] at h'
  have hf' := w.operand
  rw [(h.head_unique h').1, hf] at hf'
  exact hne (Option.some.inj hf')

/-- An assignment and an expression without one do not stand at the same place: the parser reads
the target as an expression that ends before the sign. -/
theorem ExprTree.assign_ne {q : Power} (target : TargetTree) (sign : Word .assign)
    (hq : Power.assignment.tighter? = some q) (first : ExprTree q) (links : LinkTrees .assignment)
    (h : s.Past (target.tokens ++ sign.1 :: ts) t) (h' : s.Past (first.tokens ++ links.tokens) t')
    (ht' : Stops .lowest t') : False := by
  obtain rfl := Option.some.inj hq
  obtain ⟨s1, h1, h2⟩ := past_append.mp h
  obtain ⟨s2, h3, h4⟩ := past_append.mp h'
  obtain ⟨d, htok, -⟩ := target.exists_tree
  obtain ⟨d', htok', -⟩ := d.exists_of_le (p := .logicalOr) (by decide)
  have hsign : s1.stream.current.kind = .assign := by rw [h2.current, sign.2]
  have hs1 : Stops .assignment s1 := by
    intro p f hp
    rw [hsign] at hp
    cases hp
    exact le_rfl
  have hs2 : Stops .assignment s2 := links.stops h4 (ht'.mono (by decide))
  have hread := (exprWithin_reads_iff s.stream.remaining (m := .assignment) rfl le_rfl).mpr
    ⟨⟨d', rfl, rfl⟩, by rwa [htok', htok], hs1⟩
  have hread' := (exprWithin_reads_iff s.stream.remaining (m := .assignment) rfl le_rfl).mpr
    ⟨⟨first, rfl, rfl⟩, h3, hs2⟩
  obtain ⟨-, -, rfl⟩ := hread.unique hread'
  cases links with
  | nil =>
    obtain ⟨-, rfl⟩ := past_nil.mp h4
    have := ht' .assignment .assignment (by rw [hsign]; rfl)
    exact absurd this (by decide)
  | binary hq w right rest => exact absurd rfl w.level_ne.2.2

/-- The links of a level leave a first part that could not be continued. -/
theorem LinkTrees.stops_floor {q : Power} (hq : p.tighter? = some q) (links : LinkTrees p)
    (h : s.Past links.tokens t) (ht : Stops p.floor t) : Stops q.floor s :=
  (links.stops h (ht.mono p.rank_floor_le)).mono (Power.floor_tighter hq)

theorem ArgumentTrees.ne_closeParen (args : ArgumentTrees) (r : Word .closeParen)
    (h : s.Past (args.tokens ++ ts) t) (h' : s.Past (r.1 :: us) t') : False := by
  obtain ⟨y, ys, f, hy, hf⟩ := args.begins
  rw [hy] at h
  obtain ⟨rfl, -⟩ := h.head_unique h'
  rw [r.2] at hf
  cases hf

/-- Where the expression before them could not be continued, there are no links. -/
theorem LinkTrees.eq_nil_of_stops (links : LinkTrees p) (h : s.Past links.tokens t)
    (hs : Stops p.floor s) : links = .nil := by
  have hcall {l : Word .openParen} {ts : List Token} (h : s.Past (l.1 :: ts) t)
      (hs : Stops Power.call.floor s) : False := by
    have := hs .call .call (by rw [h.current, l.2]; rfl)
    exact absurd this (by decide)
  cases links with
  | nil => rfl
  | binary hq w right rest =>
    have := hs p .binary (by rw [h.current]; exact w.operator)
    exact absurd w.rank_floor (not_lt.mpr this)
  | callEmpty l r rest => exact (hcall h hs).elim
  | call l args r rest => exact (hcall h hs).elim

mutual

/-- **Two expressions from the same place, to places where neither could be continued, are
equal.** -/
theorem ExprTree.unique {p : Power} : ∀ (d d' : ExprTree p) {s t t' : ParseState},
    s.Past d.tokens t → s.Past d'.tokens t' → Stops p.floor t → Stops p.floor t' → d = d'
  | .literal w, d', s, t, t', h, h', ht, ht' => by
    cases d' with
    | literal w' => rw [LiteralWord.ext_token (h.head_unique h').1]
    | var w' => exact absurd (by rw [(h.head_unique h').1, w'.2]) w.kind_ne.1
    | paren l inner r => exact absurd (by rw [(h.head_unique h').1, l.2]) w.kind_ne.2
    | joined hq first links => cases hq
  | .var w, d', s, t, t', h, h', ht, ht' => by
    cases d' with
    | literal w' => exact absurd (by rw [← (h.head_unique h').1, w.2]) w'.kind_ne.1
    | var w' => rw [(word_unique h h').1]
    | paren l inner r => exact (word_ne (by decide) h h').elim
    | joined hq first links => cases hq
  | .paren l inner r, d', s, t, t', h, h', ht, ht' => by
    cases d' with
    | literal w' => exact absurd (by rw [← (h.head_unique h').1, l.2]) w'.kind_ne.2
    | var w' => exact (word_ne (by decide) h h').elim
    | paren l' inner' r' =>
      obtain ⟨rfl, s1, h1, h1'⟩ := word_unique h h'
      obtain ⟨s2, h2, h3⟩ := past_append.mp h1
      obtain ⟨s2', h2', h3'⟩ := past_append.mp h1'
      have hs : Stops .lowest s2 := stops_of_none (by rw [h3.current, r.2]; rfl)
      have hs' : Stops .lowest s2' := stops_of_none (by rw [h3'.current, r'.2]; rfl)
      obtain rfl := ExprTree.unique inner inner' h2 h2' hs hs'
      obtain rfl := h2.unique h2'
      rw [(word_unique h3 h3').1]
    | joined hq first links => cases hq
  | .unary w operand, d', s, t, t', h, h', ht, ht' => by
    cases d' with
    | unary w' operand' =>
      obtain ⟨hw, s1, h1, h1'⟩ := h.head_unique h'
      obtain rfl := PrefixWord.ext_token hw
      rw [ExprTree.unique operand operand' h1 h1' ht ht']
    | joined hq first links => exact (ExprTree.unary_ne w hq first h h').elim
  | .assign target sign value, d', s, t, t', h, h', ht, ht' => by
    cases d' with
    | assign target' sign' value' =>
      obtain ⟨s1, h1, h2⟩ := past_append.mp h
      obtain ⟨s1', h1', h2'⟩ := past_append.mp h'
      obtain rfl := TargetTree.unique target target' h1 h1'
      obtain rfl := h1.unique h1'
      obtain ⟨rfl, s2, h3, h3'⟩ := word_unique h2 h2'
      rw [ExprTree.unique value value' h3 h3' ht ht']
    | joined hq first links => exact (ExprTree.assign_ne target sign hq first links h h' ht').elim
  | .joined hq first links, d', s, t, t', h, h', ht, ht' => by
    cases d' with
    | literal | var | paren => cases hq
    | unary w operand => exact (ExprTree.unary_ne w hq first h' h).elim
    | assign target sign value => exact (ExprTree.assign_ne target sign hq first links h' h ht).elim
    | joined hq' first' links' =>
      obtain rfl := Option.some.inj (hq.symm.trans hq')
      obtain ⟨s1, h1, h2⟩ := past_append.mp h
      obtain ⟨s1', h1', h2'⟩ := past_append.mp h'
      obtain rfl := ExprTree.unique first first' h1 h1' (links.stops_floor hq h2 ht)
        (links'.stops_floor hq h2' ht')
      obtain rfl := h1.unique h1'
      rw [LinkTrees.unique links links' h2 h2' ht ht']

theorem LinkTrees.unique {p : Power} : ∀ (d d' : LinkTrees p) {s t t' : ParseState},
    s.Past d.tokens t → s.Past d'.tokens t' → Stops p.floor t → Stops p.floor t' → d = d'
  | .nil, d', s, t, t', h, h', ht, ht' => by
    obtain ⟨-, rfl⟩ := past_nil.mp h
    exact (d'.eq_nil_of_stops h' ht).symm
  | .binary hq w right rest, d', s, t, t', h, h', ht, ht' => by
    cases d' with
    | nil =>
      obtain ⟨-, rfl⟩ := past_nil.mp h'
      exact LinkTrees.eq_nil_of_stops _ h ht'
    | binary hq' w' right' rest' =>
      obtain ⟨hw, s1, h1, h1'⟩ := h.head_unique h'
      obtain rfl := InfixWord.ext_token hw
      obtain rfl := Option.some.inj (hq.symm.trans hq')
      obtain ⟨s2, h2, h3⟩ := past_append.mp h1
      obtain ⟨s2', h2', h3'⟩ := past_append.mp h1'
      obtain rfl := ExprTree.unique right right' h2 h2' (rest.stops_floor hq h3 ht)
        (rest'.stops_floor hq h3' ht')
      obtain rfl := h2.unique h2'
      rw [LinkTrees.unique rest rest' h3 h3' ht ht']
    | callEmpty | call => exact w.not_call.elim
  | .callEmpty l r rest, d', s, t, t', h, h', ht, ht' => by
    cases d' with
    | nil =>
      obtain ⟨-, rfl⟩ := past_nil.mp h'
      exact LinkTrees.eq_nil_of_stops _ h ht'
    | binary hq' w' right' rest' => exact w'.not_call.elim
    | callEmpty l' r' rest' =>
      obtain ⟨rfl, s1, h1, h1'⟩ := word_unique h h'
      obtain ⟨rfl, s2, h2, h2'⟩ := word_unique h1 h1'
      rw [LinkTrees.unique rest rest' h2 h2' ht ht']
    | call l' args r' rest' =>
      obtain ⟨-, s1, h1, h1'⟩ := word_unique h h'
      exact (args.ne_closeParen r h1' h1).elim
  | .call l args r rest, d', s, t, t', h, h', ht, ht' => by
    cases d' with
    | nil =>
      obtain ⟨-, rfl⟩ := past_nil.mp h'
      exact LinkTrees.eq_nil_of_stops _ h ht'
    | binary hq' w' right' rest' => exact w'.not_call.elim
    | callEmpty l' r' rest' =>
      obtain ⟨-, s1, h1, h1'⟩ := word_unique h h'
      exact (args.ne_closeParen r' h1 h1').elim
    | call l' args' r' rest' =>
      obtain ⟨rfl, s1, h1, h1'⟩ := word_unique h h'
      obtain ⟨s2, h2, h3⟩ := past_append.mp h1
      obtain ⟨s2', h2', h3'⟩ := past_append.mp h1'
      obtain rfl := ArgumentTrees.unique args args' h2 h2' (by rw [h3.current, r.2])
        (by rw [h3'.current, r'.2])
      obtain rfl := h2.unique h2'
      obtain ⟨rfl, s3, h4, h4'⟩ := word_unique h3 h3'
      rw [LinkTrees.unique rest rest' h4 h4' ht ht']

theorem ArgumentTrees.unique : ∀ (d d' : ArgumentTrees) {s t t' : ParseState},
    s.Past d.tokens t → s.Past d'.tokens t' → t.stream.current.kind = .closeParen →
      t'.stream.current.kind = .closeParen → d = d'
  | .one e, d', s, t, t', h, h', ht, ht' => by
    have hs : Stops .lowest t := stops_of_none (by rw [ht]; rfl)
    cases d' with
    | one e' =>
      have hs' : Stops .lowest t' := stops_of_none (by rw [ht']; rfl)
      rw [ExprTree.unique e e' h h' hs hs']
    | more e' comma' rest' =>
      obtain ⟨s1, h1, h2⟩ := past_append.mp h'
      have hs' : Stops .lowest s1 := stops_of_none (by rw [h2.current, comma'.2]; rfl)
      obtain rfl := ExprTree.unique e e' h h1 hs hs'
      obtain rfl := h.unique h1
      rw [h2.current, comma'.2] at ht
      cases ht
  | .more e comma rest, d', s, t, t', h, h', ht, ht' => by
    obtain ⟨s1, h1, h2⟩ := past_append.mp h
    have hs : Stops .lowest s1 := stops_of_none (by rw [h2.current, comma.2]; rfl)
    cases d' with
    | one e' =>
      have hs' : Stops .lowest t' := stops_of_none (by rw [ht']; rfl)
      obtain rfl := ExprTree.unique e e' h1 h' hs hs'
      obtain rfl := h'.unique h1
      rw [h2.current, comma.2] at ht'
      cases ht'
    | more e' comma' rest' =>
      obtain ⟨s1', h1', h2'⟩ := past_append.mp h'
      have hs' : Stops .lowest s1' := stops_of_none (by rw [h2'.current, comma'.2]; rfl)
      obtain rfl := ExprTree.unique e e' h1 h1' hs hs'
      obtain rfl := h1.unique h1'
      obtain ⟨rfl, s2, h3, h3'⟩ := word_unique h2 h2'
      rw [ArgumentTrees.unique rest rest' h3 h3' ht ht']

end

/-! ### Parts of statements -/

/-- An expression begins with no token that begins no operand. -/
theorem ExprTree.ne_word {k : Kind} (d : ExprTree p) (w : Word k)
    (hk : Grammar.standard.operand? k = none) (h : s.Past (d.tokens ++ ts) t)
    (h' : s.Past (w.1 :: us) t') : False := by
  obtain ⟨y, ys, f, hy, hf⟩ := d.begins
  rw [hy] at h
  obtain ⟨rfl, -⟩ := h.head_unique h'
  rw [w.2, hk] at hf
  cases hf

/-- An expression and the word that closes it are determined by the place where they begin. -/
theorem ExprTree.unique_closed {k : Kind} (hk : Grammar.standard.operator? k = none)
    {d d' : ExprTree .assignment} {w w' : Word k} (h : s.Past (d.tokens ++ w.1 :: ts) t)
    (h' : s.Past (d'.tokens ++ w'.1 :: us) t') :
    d = d' ∧ w = w' ∧ ∃ s1 : ParseState, s1.Past ts t ∧ s1.Past us t' := by
  obtain ⟨s1, h1, h2⟩ := past_append.mp h
  obtain ⟨s1', h1', h2'⟩ := past_append.mp h'
  have hs : Stops .lowest s1 := stops_of_none (by rw [h2.current, w.2, hk])
  have hs' : Stops .lowest s1' := stops_of_none (by rw [h2'.current, w'.2, hk])
  obtain rfl := ExprTree.unique d d' h1 h1' hs hs'
  obtain rfl := h1.unique h1'
  exact ⟨rfl, word_unique h2 h2'⟩

theorem OptionTree.unique_closed {k : Kind} (hk : k = .semicolon ∨ k = .closeParen)
    {d d' : OptionTree} {w w' : Word k} (h : s.Past (d.tokens ++ w.1 :: ts) t)
    (h' : s.Past (d'.tokens ++ w'.1 :: us) t') :
    d = d' ∧ w = w' ∧ ∃ s1 : ParseState, s1.Past ts t ∧ s1.Past us t' := by
  have hk' : Grammar.standard.operand? k = none ∧ Grammar.standard.operator? k = none := by
    obtain rfl | rfl := hk <;> decide
  cases d with
  | none =>
    cases d' with
    | none => exact ⟨rfl, word_unique h h'⟩
    | some d' => exact (d'.ne_word w hk'.1 h' h).elim
  | some d =>
    cases d' with
    | none => exact (d.ne_word w' hk'.1 h h').elim
    | some d' =>
      obtain ⟨rfl, hrest⟩ := ExprTree.unique_closed hk'.2 h h'
      exact ⟨rfl, hrest⟩

theorem VariableTree.unique {v v' : VariableTree} (h : s.Past (v.tokens ++ ts) t)
    (h' : s.Past (v'.tokens ++ us) t') :
    v = v' ∧ ∃ s1 : ParseState, s1.Past ts t ∧ s1.Past us t' := by
  obtain ⟨ty, name, i, semi⟩ := v
  obtain ⟨ty', name', i', semi'⟩ := v'
  simp only [VariableTree.tokens, List.cons_append, List.append_assoc, List.nil_append] at h h'
  obtain ⟨hty, s1, h1, h1'⟩ := h.head_unique h'
  obtain rfl := TypeWord.ext_token hty
  obtain ⟨rfl, s2, h2, h2'⟩ := word_unique h1 h1'
  cases i with
  | none =>
    cases i' with
    | none =>
      obtain ⟨rfl, hrest⟩ := word_unique h2 h2'
      exact ⟨rfl, hrest⟩
    | some i' => exact (word_ne (by decide) h2 h2').elim
  | some i =>
    cases i' with
    | none => exact (word_ne (by decide) h2 h2').elim
    | some i' =>
      obtain ⟨eq, e⟩ := i
      obtain ⟨eq', e'⟩ := i'
      obtain ⟨rfl, s3, h3, h3'⟩ := word_unique h2 h2'
      obtain ⟨rfl, rfl, hrest⟩ := ExprTree.unique_closed rfl h3 h3'
      exact ⟨rfl, hrest⟩

theorem TypeWord.ne_word {k : Kind} (ty : TypeWord) (w : Word k) (hk : k.isType = false)
    (h : s.Past (ty.token :: ts) t) (h' : s.Past (w.1 :: us) t') : False := by
  have hty := ty.declares.1
  rw [(h.head_unique h').1, w.2, hk] at hty
  cases hty

theorem ExprTree.ne_typeWord (d : ExprTree p) (ty : TypeWord) (h : s.Past (d.tokens ++ ts) t)
    (h' : s.Past (ty.token :: us) t') : False := by
  obtain ⟨y, ys, f, hy, hf⟩ := d.begins
  rw [hy] at h
  have hty := ty.declares.1
  rw [← (h.head_unique h').1, (begins_of_operand hf).2.1] at hty
  cases hty

theorem HeaderTree.unique {d d' : HeaderTree} (h : s.Past (d.tokens ++ ts) t)
    (h' : s.Past (d'.tokens ++ us) t') :
    d = d' ∧ ∃ s1 : ParseState, s1.Past ts t ∧ s1.Past us t' := by
  cases d with
  | absent semi =>
    cases d' with
    | absent semi' =>
      obtain ⟨rfl, hrest⟩ := word_unique h h'
      exact ⟨rfl, hrest⟩
    | var v' => exact (v'.type.ne_word semi rfl h' h).elim
    | expr e' semi' =>
      rw [HeaderTree.tokens, List.append_assoc] at h'
      exact (e'.ne_word semi rfl h' h).elim
  | var v =>
    cases d' with
    | absent semi' => exact (v.type.ne_word semi' rfl h h').elim
    | var v' =>
      obtain ⟨rfl, hrest⟩ := VariableTree.unique h h'
      exact ⟨rfl, hrest⟩
    | expr e' semi' =>
      rw [HeaderTree.tokens, List.append_assoc] at h'
      exact (e'.ne_typeWord v.type h' h).elim
  | expr e semi =>
    rw [HeaderTree.tokens, List.append_assoc] at h
    cases d' with
    | absent semi' => exact (e.ne_word semi' rfl h h').elim
    | var v' => exact (e.ne_typeWord v'.type h h').elim
    | expr e' semi' =>
      rw [HeaderTree.tokens, List.append_assoc] at h'
      obtain ⟨rfl, rfl, hrest⟩ := ExprTree.unique_closed rfl h h'
      exact ⟨rfl, hrest⟩

theorem ParameterTree.unique {d d' : ParameterTree} (h : s.Past (d.tokens ++ ts) t)
    (h' : s.Past (d'.tokens ++ us) t') :
    d = d' ∧ ∃ s1 : ParseState, s1.Past ts t ∧ s1.Past us t' := by
  obtain ⟨ty, name⟩ := d
  obtain ⟨ty', name'⟩ := d'
  obtain ⟨hty, s1, h1, h1'⟩ := h.head_unique h'
  obtain rfl := TypeWord.ext_token hty
  obtain ⟨rfl, hrest⟩ := word_unique h1 h1'
  exact ⟨rfl, hrest⟩

theorem ParameterTrees.unique {r r' : Word .closeParen} :
    ∀ (d d' : ParameterTrees) {s : ParseState}, s.Past (d.tokens ++ r.1 :: ts) t →
      s.Past (d'.tokens ++ r'.1 :: us) t' →
      d = d' ∧ r = r' ∧ ∃ s1 : ParseState, s1.Past ts t ∧ s1.Past us t'
  | .one p, .one p', s, h, h' => by
    obtain ⟨rfl, s1, h1, h1'⟩ := ParameterTree.unique h h'
    exact ⟨rfl, word_unique h1 h1'⟩
  | .one p, .more p' comma' rest', s, h, h' => by
    rw [tokens, List.append_assoc] at h'
    obtain ⟨-, s1, h1, h1'⟩ := ParameterTree.unique h h'
    exact (word_ne (by decide) h1 h1').elim
  | .more p comma rest, .one p', s, h, h' => by
    rw [tokens, List.append_assoc] at h
    obtain ⟨-, s1, h1, h1'⟩ := ParameterTree.unique h h'
    exact (word_ne (by decide) h1 h1').elim
  | .more p comma rest, .more p' comma' rest', s, h, h' => by
    rw [tokens, List.append_assoc] at h h'
    obtain ⟨rfl, s1, h1, h1'⟩ := ParameterTree.unique h h'
    obtain ⟨rfl, s2, h2, h2'⟩ := word_unique h1 h1'
    obtain ⟨rfl, hrest⟩ := ParameterTrees.unique rest rest' h2 h2'
    exact ⟨rfl, hrest⟩

theorem ParameterTrees.unique_option {r r' : Word .closeParen} {d d' : Option ParameterTrees}
    (h : s.Past (d.elim [] ParameterTrees.tokens ++ r.1 :: ts) t)
    (h' : s.Past (d'.elim [] ParameterTrees.tokens ++ r'.1 :: us) t') :
    d = d' ∧ r = r' ∧ ∃ s1 : ParseState, s1.Past ts t ∧ s1.Past us t' := by
  have hne {d : ParameterTrees} {r : Word .closeParen} {ts us : List Token} {t t' : ParseState}
      (h : s.Past (d.tokens ++ ts) t) (h' : s.Past (r.1 :: us) t') : False := by
    obtain ⟨y, ys, hy, hclose⟩ := d.begins
    rw [hy] at h
    exact hclose ((congrArg Token.kind (h.head_unique h').1).trans r.2)
  cases d with
  | none =>
    cases d' with
    | none => exact ⟨rfl, word_unique h h'⟩
    | some d' => exact (hne h' h).elim
  | some d =>
    cases d' with
    | none => exact (hne h h').elim
    | some d' =>
      obtain ⟨rfl, hrest⟩ := ParameterTrees.unique d d' h h'
      exact ⟨rfl, hrest⟩

/-! ### Statements -/

/-- A statement that is not a declaration begins with no type keyword. -/
theorem BodyTree.ne_typeWord {o : Bool} (d : BodyTree o) (ty : TypeWord)
    (h : s.Past d.tokens t) (h' : s.Past (ty.token :: us) t') : False := by
  obtain ⟨y, ys, hy, hty, -⟩ := d.begins
  rw [hy] at h
  rw [(h.head_unique h').1, ty.declares.1] at hty
  cases hty

/-- The declarations of a variable and of a function differ behind the name. -/
theorem VariableTree.ne_function (v : VariableTree) {ty : TypeWord} {name : Word .identifier}
    {l : Word .openParen} (h : s.Past v.tokens t)
    (h' : s.Past (ty.token :: name.1 :: l.1 :: us) t') : False := by
  obtain ⟨ty', name', i, semi⟩ := v
  obtain ⟨-, s1, h1, h1'⟩ := h.head_unique h'
  obtain ⟨-, s2, h2, h2'⟩ := word_unique h1 h1'
  cases i with
  | none => exact word_ne (by decide) h2 h2'
  | some i => exact word_ne (by decide) h2 h2'

/-- Where the statements of a block or of a program end. -/
abbrev Closes (s : ParseState) : Prop := Ends (fun k => decide (k = .closeCurly)) s

theorem closes_of_word {r : Word .closeCurly} (h : s.Past (r.1 :: ts) t) : Closes s :=
  .inr (decide_eq_true (by rw [h.current, r.2]))

mutual

/-- **Two statements from the same place, to places where neither could be continued, are
equal.** -/
theorem StmtTree.unique : ∀ (d d' : StmtTree) {s t t' : ParseState}, s.Past d.tokens t →
    s.Past d'.tokens t' → (d.dangles = true → t.stream.current.kind ≠ .elseWord) →
      (d'.dangles = true → t'.stream.current.kind ≠ .elseWord) → d = d'
  | .body d, d', s, t, t', h, h', ht, ht' => by
    cases d' with
    | body d' =>
      cases BodyTree.unique d d' h h' ht ht'
      rfl
    | var v' => exact (d.ne_typeWord v'.type h h').elim
    | function ty' name' l' ps' r' lb' body' rb' => exact (d.ne_typeWord ty' h h').elim
  | .var v, d', s, t, t', h, h', ht, ht' => by
    cases d' with
    | body d' => exact (d'.ne_typeWord v.type h' h).elim
    | var v' =>
      rw [StmtTree.tokens, ← List.append_nil v.tokens] at h
      rw [StmtTree.tokens, ← List.append_nil v'.tokens] at h'
      rw [(VariableTree.unique h h').1]
    | function ty' name' l' ps' r' lb' body' rb' => exact (v.ne_function h h').elim
  | .function ty name l ps r lb body rb, d', s, t, t', h, h', ht, ht' => by
    cases d' with
    | body d' => exact (d'.ne_typeWord ty h' h).elim
    | var v' => exact (v'.ne_function h' h).elim
    | function ty' name' l' ps' r' lb' body' rb' =>
      obtain ⟨hty, s1, h1, h1'⟩ := h.head_unique h'
      obtain rfl := TypeWord.ext_token hty
      obtain ⟨rfl, s2, h2, h2'⟩ := word_unique h1 h1'
      obtain ⟨rfl, s3, h3, h3'⟩ := word_unique h2 h2'
      obtain ⟨rfl, rfl, s4, h4, h4'⟩ := ParameterTrees.unique_option h3 h3'
      obtain ⟨rfl, s5, h5, h5'⟩ := word_unique h4 h4'
      obtain ⟨s6, h6, h7⟩ := past_append.mp h5
      obtain ⟨s6', h6', h7'⟩ := past_append.mp h5'
      obtain rfl := StmtTrees.unique body body' h6 h6' (closes_of_word h7) (closes_of_word h7')
      obtain rfl := h6.unique h6'
      obtain ⟨rfl, -⟩ := word_unique h7 h7'
      rfl

/-- **Two sequences of statements from the same place, to places where statements end.** -/
theorem StmtTrees.unique : ∀ (d d' : StmtTrees) {s t t' : ParseState}, s.Past d.tokens t →
    s.Past d'.tokens t' → Closes t → Closes t' → d = d'
  | .nil, d', s, t, t', h, h', ht, ht' => by
    obtain ⟨-, rfl⟩ := past_nil.mp h
    cases d' with
    | nil => rfl
    | cons d' rest' => exact absurd ht (d'.not_ends (fun _ => of_decide_eq_true) h')
  | .cons d rest, d', s, t, t', h, h', ht, ht' => by
    cases d' with
    | nil =>
      obtain ⟨-, rfl⟩ := past_nil.mp h'
      exact absurd ht' (d.not_ends (fun _ => of_decide_eq_true) h)
    | cons d' rest' =>
      obtain ⟨s1, h1, h2⟩ := past_append.mp h
      obtain ⟨s1', h1', h2'⟩ := past_append.mp h'
      obtain rfl := StmtTree.unique d d' h1 h1'
        (fun _ => rest.ne_else (fun _ => of_decide_eq_true) h2 ht)
        (fun _ => rest'.ne_else (fun _ => of_decide_eq_true) h2' ht')
      obtain rfl := h1.unique h1'
      rw [StmtTrees.unique rest rest' h2 h2' ht ht']

/-- **Two statements that are not declarations,** from the same place, to places where neither could
be continued, are equal. -/
theorem BodyTree.unique : ∀ {o o' : Bool} (d : BodyTree o) (d' : BodyTree o') {s t t' : ParseState},
    s.Past d.tokens t → s.Past d'.tokens t' → (o = true → t.stream.current.kind ≠ .elseWord) →
      (o' = true → t'.stream.current.kind ≠ .elseWord) →
      (⟨o, d⟩ : Σ o : Bool, BodyTree o) = ⟨o', d'⟩
  | _, _, .block l body r, d', s, t, t', h, h', ht, ht' => by
    cases d' with
    | block l' body' r' =>
      obtain ⟨rfl, s1, h1, h1'⟩ := word_unique h h'
      obtain ⟨s2, h2, h3⟩ := past_append.mp h1
      obtain ⟨s2', h2', h3'⟩ := past_append.mp h1'
      obtain rfl := StmtTrees.unique body body' h2 h2' (closes_of_word h3) (closes_of_word h3')
      obtain rfl := h2.unique h2'
      obtain ⟨rfl, -⟩ := word_unique h3 h3'
      rfl
    | expr e' semi' => exact (e'.ne_word l rfl h' h).elim
    | _ => exact (word_ne (by decide) h h').elim
  | _, _, .ifOnly kw l c r yes, d', s, t, t', h, h', ht, ht' => by
    cases d' with
    | ifOnly kw' l' c' r' yes' =>
      obtain ⟨rfl, s1, h1, h1'⟩ := word_unique h h'
      obtain ⟨rfl, s2, h2, h2'⟩ := word_unique h1 h1'
      obtain ⟨rfl, rfl, s3, h3, h3'⟩ := ExprTree.unique_closed rfl h2 h2'
      cases BodyTree.unique yes yes' h3 h3' (fun _ => ht rfl) (fun _ => ht' rfl)
      rfl
    | ifElse kw' l' c' r' yes' kw2' no' =>
      obtain ⟨rfl, s1, h1, h1'⟩ := word_unique h h'
      obtain ⟨rfl, s2, h2, h2'⟩ := word_unique h1 h1'
      obtain ⟨rfl, rfl, s3, h3, h3'⟩ := ExprTree.unique_closed rfl h2 h2'
      obtain ⟨s4, h4, h5⟩ := past_append.mp h3'
      cases BodyTree.unique yes yes' h3 h4 (fun _ => ht rfl) nofun
      obtain rfl := h3.unique h4
      exact absurd (by rw [h5.current, kw2'.2]) (ht rfl)
    | expr e' semi' => exact (e'.ne_word kw rfl h' h).elim
    | _ => exact (word_ne (by decide) h h').elim
  | _, _, .ifElse kw l c r yes kw2 no, d', s, t, t', h, h', ht, ht' => by
    cases d' with
    | ifOnly kw' l' c' r' yes' =>
      obtain ⟨rfl, s1, h1, h1'⟩ := word_unique h h'
      obtain ⟨rfl, s2, h2, h2'⟩ := word_unique h1 h1'
      obtain ⟨rfl, rfl, s3, h3, h3'⟩ := ExprTree.unique_closed rfl h2 h2'
      obtain ⟨s4, h4, h5⟩ := past_append.mp h3
      cases BodyTree.unique yes yes' h4 h3' nofun (fun _ => ht' rfl)
      obtain rfl := h4.unique h3'
      exact absurd (by rw [h5.current, kw2.2]) (ht' rfl)
    | ifElse kw' l' c' r' yes' kw2' no' =>
      obtain ⟨rfl, s1, h1, h1'⟩ := word_unique h h'
      obtain ⟨rfl, s2, h2, h2'⟩ := word_unique h1 h1'
      obtain ⟨rfl, rfl, s3, h3, h3'⟩ := ExprTree.unique_closed rfl h2 h2'
      obtain ⟨s4, h4, h5⟩ := past_append.mp h3
      obtain ⟨s4', h4', h5'⟩ := past_append.mp h3'
      cases BodyTree.unique yes yes' h4 h4' nofun nofun
      obtain rfl := h4.unique h4'
      obtain ⟨rfl, s5, h6, h6'⟩ := word_unique h5 h5'
      cases BodyTree.unique no no' h6 h6' ht ht'
      rfl
    | expr e' semi' => exact (e'.ne_word kw rfl h' h).elim
    | _ => exact (word_ne (by decide) h h').elim
  | _, _, .whileLoop kw l c r body, d', s, t, t', h, h', ht, ht' => by
    cases d' with
    | whileLoop kw' l' c' r' body' =>
      obtain ⟨rfl, s1, h1, h1'⟩ := word_unique h h'
      obtain ⟨rfl, s2, h2, h2'⟩ := word_unique h1 h1'
      obtain ⟨rfl, rfl, s3, h3, h3'⟩ := ExprTree.unique_closed rfl h2 h2'
      cases BodyTree.unique body body' h3 h3' ht ht'
      rfl
    | expr e' semi' => exact (e'.ne_word kw rfl h' h).elim
    | _ => exact (word_ne (by decide) h h').elim
  | _, _, .forLoop kw l initial c semi i r body, d', s, t, t', h, h', ht, ht' => by
    cases d' with
    | forLoop kw' l' initial' c' semi' i' r' body' =>
      obtain ⟨rfl, s1, h1, h1'⟩ := word_unique h h'
      obtain ⟨rfl, s2, h2, h2'⟩ := word_unique h1 h1'
      obtain ⟨rfl, s3, h3, h3'⟩ := HeaderTree.unique h2 h2'
      obtain ⟨rfl, rfl, s4, h4, h4'⟩ := OptionTree.unique_closed (.inl rfl) h3 h3'
      obtain ⟨rfl, rfl, s5, h5, h5'⟩ := OptionTree.unique_closed (.inr rfl) h4 h4'
      cases BodyTree.unique body body' h5 h5' ht ht'
      rfl
    | expr e' semi' => exact (e'.ne_word kw rfl h' h).elim
    | _ => exact (word_ne (by decide) h h').elim
  | _, _, .giveBack kw value semi, d', s, t, t', h, h', ht, ht' => by
    cases d' with
    | giveBack kw' value' semi' =>
      obtain ⟨rfl, s1, h1, h1'⟩ := word_unique h h'
      obtain ⟨rfl, rfl, -⟩ := OptionTree.unique_closed (.inl rfl) h1 h1'
      rfl
    | expr e' semi' => exact (e'.ne_word kw rfl h' h).elim
    | _ => exact (word_ne (by decide) h h').elim
  | _, _, .print kw l e r semi, d', s, t, t', h, h', ht, ht' => by
    cases d' with
    | print kw' l' e' r' semi' =>
      obtain ⟨rfl, s1, h1, h1'⟩ := word_unique h h'
      obtain ⟨rfl, s2, h2, h2'⟩ := word_unique h1 h1'
      obtain ⟨rfl, rfl, s3, h3, h3'⟩ := ExprTree.unique_closed rfl h2 h2'
      obtain ⟨rfl, -⟩ := word_unique h3 h3'
      rfl
    | expr e' semi' => exact (e'.ne_word kw rfl h' h).elim
    | _ => exact (word_ne (by decide) h h').elim
  | _, _, .expr e semi, d', s, t, t', h, h', ht, ht' => by
    cases d' with
    | expr e' semi' =>
      obtain ⟨rfl, rfl, -⟩ := ExprTree.unique_closed rfl h h'
      rfl
    | block l' body' r' => exact (e.ne_word l' rfl h h').elim
    | _ kw' => exact (e.ne_word kw' rfl h h').elim

end

/-- **A program has at most one derivation.** -/
theorem ProgramTree.tokens_injective {d d' : ProgramTree} (h : d.tokens = d'.tokens) : d = d' := by
  obtain ⟨d⟩ := d
  obtain ⟨d'⟩ := d'
  let s : ParseState := ⟨⟨[], d.tokens, ⟨.endOfInput, "", Position.start⟩, []⟩, []⟩
  have hp : s.Past d.tokens (s.skip d.tokens.length) := past_skip rfl (List.prefix_refl _)
  have hp' : s.Past d'.tokens (s.skip d.tokens.length) := by
    rw [show d'.tokens = d.tokens from h.symm]
    exact hp
  have hend : Closes (s.skip d.tokens.length) := .inl List.drop_length
  rw [StmtTrees.unique d d' hp hp' hend hend]

end StackListing
