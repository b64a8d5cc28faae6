import StackListing.Proofs.Parsing.Oblivious
import StackListing.Proofs.Recovery.Cursor

/-!
# Statements before and behind a boundary

Tokens that are accepted, followed by any others: the statements of the first part are read as if
nothing followed, and then the second part is read as if nothing came before (`parse_append`).  Only
an `else` at the beginning of the second part would reach across.

The first part is read because it has a derivation, and the parser reads what derivations derive
whatever comes next (`statements_trees`).  Behind it the state differs from the beginning of the
second part only in the tokens that were read, to which the parser is oblivious.
-/

namespace StackListing

open Parse ParseState

/-! ### Reading what has a derivation -/

variable {s t : ParseState}

theorem StmtTrees.current_ne_else (d : StmtTrees) (hp : s.Past d.tokens t)
    (ht : t.stream.current.kind ≠ .elseWord) : s.stream.current.kind ≠ .elseWord := by
  cases d with
  | nil =>
    obtain ⟨-, rfl⟩ := past_nil.mp hp
    exact ht
  | cons d rest =>
    obtain ⟨x, xs, hx, helse, -⟩ := d.begins
    rw [tokens, hx] at hp
    rwa [hp.current]

/-- **Derived statements are read whatever comes next,** unless it is an `else`.  Then the loop goes
on behind them. -/
theorem statements_trees {stops : Kind → Bool} (hstops : ∀ k, stops k = true → k = .closeCurly)
    {xs : List Stmt} {u : ParseState} (ht : t.stream.current.kind ≠ .elseWord)
    (hrest : statements stops (stmt .standard) t.stream.remaining t = .ok xs u) :
    ∀ (d : StmtTrees) {s : ParseState} {j : Nat}, s.Past d.tokens t → s.stream.remaining ≤ j →
      statements stops (stmt .standard) j s = .ok (d.stmts ++ xs) u
  | .nil, s, j, hp, hj => by
    obtain ⟨hclosed, rfl⟩ := past_nil.mp hp
    exact ((settles_statements _ hclosed _ _ hj le_rfl).1).trans hrest
  | .cons d rest, s, j, hp, hj => by
    have hends : ¬ Ends stops s := d.not_ends hstops hp
    obtain ⟨s1, hp1, hp2⟩ := past_append.mp hp
    have hpos := d.tokens_pos
    have hrem := hp1.remaining
    obtain ⟨j, rfl⟩ := Nat.exists_eq_add_one_of_ne_zero (show j ≠ 0 by omega)
    have hread : Reads (stmt .standard) s d.tokens d.stmt s1 :=
      (stmt_reads _ le_rfl).mpr ⟨⟨d, rfl, rfl, fun _ => rest.current_ne_else hp2 ht⟩, hp1⟩
    rw [statements_round hends, bind_apply, (reads_recover.mpr ⟨_, rfl, hread⟩).run]
    exact map_of_ok _ (statements_trees hstops ht hrest rest hp2 (by omega))

/-! ### The stream of tokens one behind the other -/

theorem closed_append (l : List Token) {l' : List Token} (h : l' ≠ []) :
    TokenStream.closed (l ++ l') = l ++ TokenStream.closed l' := by
  unfold TokenStream.closed
  rw [List.getLast?_append]
  cases hlast : l'.getLast? with
  | none => exact absurd (List.getLast?_eq_none_iff.mp hlast) h
  | some x =>
    dsimp only [Option.or]
    split_ifs
    · rfl
    · rw [List.append_assoc]

theorem significant_of_open {tokens : List Token} (hend : ∀ x ∈ tokens, x.kind ≠ .endOfInput) :
    significant tokens = tokens.filter (·.kind ≠ .newline) := by
  refine List.takeWhile_eq_self_iff.mpr fun x hx => ?_
  exact decide_eq_true (hend x (List.mem_filter.mp hx).1)

/-- Tokens without an end marker stand before those of the stream behind them. -/
theorem ofTokens_append {ts₁ ts₂ : List Token} (hend : ∀ x ∈ ts₁, x.kind ≠ .endOfInput)
    (h : ts₂.filter (·.kind ≠ .newline) ≠ []) :
    TokenStream.ofTokens (ts₁ ++ ts₂) = { TokenStream.ofTokens ts₂ with
      ahead := significant ts₁ ++ (TokenStream.ofTokens ts₂).ahead } := by
  have hopen : ∀ x ∈ significant ts₁, decide (x.kind ≠ .endOfInput) = true := fun x hx =>
    decide_eq_true (kind_ne_end_of_significant hx)
  have hall : TokenStream.closed ((ts₁ ++ ts₂).filter (·.kind ≠ .newline)) =
      significant ts₁ ++ TokenStream.closed (ts₂.filter (·.kind ≠ .newline)) := by
    rw [List.filter_append, closed_append _ h, significant_of_open hend]
  unfold TokenStream.ofTokens
  rw [hall]
  dsimp only
  rw [List.takeWhile_append_of_pos hopen, List.dropWhile_append_of_pos hopen]
  split <;> rfl

/-- Behind the first part the parser stands at the beginning of the second, with the first part
read. -/
theorem past_first {ts₁ ts₂ : List Token} (hend : ∀ x ∈ ts₁, x.kind ≠ .endOfInput)
    (h : ts₂.filter (·.kind ≠ .newline) ≠ []) :
    (atToken (ts₁ ++ ts₂) 0 []).Past (significant ts₁)
      ((atToken ts₂ 0 []).onto (significant ts₁).reverse) := by
  have hstream : (atToken (ts₁ ++ ts₂) 0 []).stream = _ := ofTokens_append hend h
  have hbehind := ofTokens_behind ts₂
  refine ⟨atToken_closed _ 0 [], ?_, ?_, ?_, ?_, rfl⟩
  · rw [hstream]
    rfl
  · rw [hstream]
    show (TokenStream.ofTokens ts₂).behind ++ _ = _ ++ (TokenStream.ofTokens ts₂).behind
    rw [hbehind, List.nil_append, List.append_nil]
  · rw [hstream]
    rfl
  · rw [hstream]
    rfl

/-- Tokens that are all newlines add nothing. -/
theorem ofTokens_append_newlines {ts₁ ts₂ : List Token}
    (h : ts₂.filter (·.kind ≠ .newline) = []) :
    TokenStream.ofTokens (ts₁ ++ ts₂) = TokenStream.ofTokens ts₁ := by
  unfold TokenStream.ofTokens
  rw [List.filter_append, h, List.append_nil]

theorem parse_newlines {tokens : List Token} (h : tokens.filter (·.kind ≠ .newline) = []) :
    parse tokens = ⟨⟨[]⟩, []⟩ := by
  have hsignificant : significant tokens = [] := by rw [significant, h, List.takeWhile_nil]
  obtain ⟨herrors, hprogram⟩ :=
    parse_iff_exists_tree.mpr ⟨⟨.nil⟩, hsignificant.symm, rfl⟩
  cases hparse : parse tokens with
  | mk program errors =>
    rw [hparse] at herrors hprogram
    cases herrors
    cases hprogram
    rfl

theorem closed_cons (x : Token) (l : List Token) :
    ∃ l', TokenStream.closed (x :: l) = x :: l' := by
  unfold TokenStream.closed
  rw [List.getLast?_cons]
  dsimp only
  split_ifs
  · exact ⟨l, rfl⟩
  · exact ⟨_, rfl⟩

/-- The first token that is no newline is the one at which the parser begins. -/
theorem current_ofTokens {tokens : List Token} {x : Token}
    (h : tokens.find? (·.kind ≠ .newline) = some x) :
    (TokenStream.ofTokens tokens).current = x := by
  have hlooks : (given tokens)[0]? = some (TokenStream.ofTokens tokens).current :=
    (atToken_looks tokens (Nat.zero_le _) []).1
  rw [← List.head?_filter] at h
  obtain ⟨l, hl⟩ := List.head?_eq_some_iff.mp h
  obtain ⟨l', hl'⟩ := closed_cons x l
  rw [given, hl, hl'] at hlooks
  exact (Option.some.inj hlooks).symm

/-! ### The parts of a text -/

/-- **Tokens that are accepted do not depend on what follows,** unless it begins with an `else`:
their statements come first, then the statements of what follows, and the complaints are those about
what follows. -/
theorem parse_append (ts₁ ts₂ : List Token) (hend : ∀ t ∈ ts₁, t.kind ≠ .endOfInput)
    (hclean : (parse ts₁).errors = [])
    (helse : ∀ t, ts₂.find? (·.kind ≠ .newline) = some t → t.kind ≠ .elseWord) :
    parse (ts₁ ++ ts₂) =
      ⟨⟨(parse ts₁).program.statements ++ (parse ts₂).program.statements⟩, (parse ts₂).errors⟩ := by
  cases hfirst : ts₂.find? (·.kind ≠ .newline) with
  | none =>
    have hnone : ts₂.filter (·.kind ≠ .newline) = [] := by
      rw [← List.head?_eq_none_iff, List.head?_filter, hfirst]
    have hsame : parse (ts₁ ++ ts₂) = parse ts₁ := by
      unfold parse
      rw [ofTokens_append_newlines hnone]
    rw [hsame, parse_newlines hnone, List.append_nil, ← hclean]
  | some x =>
    have hsome : ts₂.filter (·.kind ≠ .newline) ≠ [] := by
      rw [Ne, ← List.head?_eq_none_iff, List.head?_filter, hfirst]
      nofun
    obtain ⟨d, hd, hprogram⟩ := parse_iff_exists_tree.mp ⟨hclean, rfl⟩
    obtain ⟨xs, u, hxs⟩ : ∃ xs u, statements (fun _ => false) (stmt .standard)
        (atToken ts₂ 0 []).stream.remaining (atToken ts₂ 0 []) = .ok xs u := exists_statements _ _
    have hpast : (atToken (ts₁ ++ ts₂) 0 []).Past d.statements.tokens
        ((atToken ts₂ 0 []).onto (significant ts₁).reverse) := by
      rw [show d.statements.tokens = significant ts₁ from hd]
      exact past_first hend hsome
    have hnext : ((atToken ts₂ 0 []).onto (significant ts₁).reverse).stream.current.kind ≠
        .elseWord := by
      show (TokenStream.ofTokens ts₂).current.kind ≠ .elseWord
      rw [current_ofTokens hfirst]
      exact helse x hfirst
    -- the second part is read as from its own beginning
    have hoblivious : Has @Oblivious (statements (fun _ => false) (stmt .standard)
      (atToken ts₂ 0 []).stream.remaining) := inferInstance
    have hrest := hoblivious.holds (atToken ts₂ 0 []) (significant ts₁).reverse
    rw [hxs] at hrest
    -- and before it the first part, as its derivation says
    have hstops : ∀ k : Kind, (fun _ : Kind => false) k = true → k = .closeCurly := nofun
    have hrun := statements_trees hstops hnext hrest d.statements hpast le_rfl
    rw [parse_of_program (program_of_statements hrun), parse_of_program (program_of_statements hxs),
      ← hprogram]
    rfl

/-- The tokens of `if (x) y;`, behind which an `else` would still belong to the `if`. -/
def dangling : List Token :=
  [⟨.ifWord, "if", ⟨1, 1⟩⟩, ⟨.openParen, "(", ⟨1, 4⟩⟩, ⟨.identifier, "x", ⟨1, 5⟩⟩,
    ⟨.closeParen, ")", ⟨1, 6⟩⟩, ⟨.identifier, "y", ⟨1, 8⟩⟩, ⟨.semicolon, ";", ⟨1, 9⟩⟩]

/-- The tokens of `int; z;` on a line of its own: a declaration without a name, and a statement. -/
def nameless : List Token :=
  [⟨.newline, "", ⟨1, 10⟩⟩, ⟨.intWord, "int", ⟨2, 1⟩⟩, ⟨.semicolon, ";", ⟨2, 4⟩⟩,
    ⟨.identifier, "z", ⟨2, 6⟩⟩, ⟨.semicolon, ";", ⟨2, 7⟩⟩]

theorem parse_append_nameless : parse (dangling ++ nameless) =
    ⟨⟨[.branch (.var "x" ⟨1, 5⟩) (.expr (.var "y" ⟨1, 8⟩)) none ⟨1, 1⟩, .expr (.var "z" ⟨2, 6⟩)]⟩,
      (parse nameless).errors⟩ ∧ (parse nameless).errors.length = 1 := by
  refine ⟨?_, by decide⟩
  have hfirst : ∀ t, nameless.find? (·.kind ≠ .newline) = some t → t.kind ≠ .elseWord := by
    rintro t ⟨⟩
    decide
  exact parse_append dangling nameless (by decide) (by decide) hfirst

end StackListing
