import StackListing.Proofs.Grammar.Unambiguous

/-!
# The parser accepts exactly the grammar

Tokens are accepted if and only if the significant ones among them, those before the first end
marker that are no newlines, are derived by a program's tree.  The tree is then the only one, and
the parser returns the program that it stands for.
-/

namespace StackListing

open Parse ParseState

/-- **The tokens that carry meaning:** those before the first end marker, without newlines. -/
def significant (tokens : List Token) : List Token :=
  (tokens.filter (·.kind ≠ .newline)).takeWhile (·.kind ≠ .endOfInput)

/-- Closing tokens by an end marker changes nothing before the first end marker. -/
theorem takeWhile_closed (tokens : List Token) :
    (TokenStream.closed tokens).takeWhile (·.kind ≠ .endOfInput) =
      tokens.takeWhile (·.kind ≠ .endOfInput) := by
  have hsnoc (l : List Token) (x : Token) (hx : x.kind = .endOfInput) :
      (l ++ [x]).takeWhile (·.kind ≠ .endOfInput) = l.takeWhile (·.kind ≠ .endOfInput) := by
    induction l with
    | nil => simp [hx]
    | cons y ys ih => simp only [List.cons_append, List.takeWhile_cons, ih]
  unfold TokenStream.closed
  cases h : tokens.getLast? with
  | none =>
    obtain rfl := List.getLast?_eq_none_iff.mp h
    rfl
  | some t =>
    dsimp only
    split_ifs
    · rfl
    · exact hsnoc tokens _ rfl

/-- The stream of tokens has the significant ones ahead and is closed by an end marker. -/
theorem ofTokens_spec (tokens : List Token) :
    (TokenStream.ofTokens tokens).ahead = significant tokens ∧
      (TokenStream.ofTokens tokens).stop.kind = .endOfInput := by
  unfold TokenStream.ofTokens
  dsimp only
  split
  · rename_i stop beyond hdrop
    refine ⟨takeWhile_closed _, ?_⟩
    have := List.head?_dropWhile_not (fun t : Token => decide (t.kind ≠ .endOfInput))
      (TokenStream.closed (tokens.filter (·.kind ≠ .newline)))
    rw [hdrop] at this
    simpa using this
  · exact ⟨takeWhile_closed _, rfl⟩

/-- Tokens are accepted as a program exactly if the program parser reads all of them as it. -/
theorem parse_iff_reads {tokens : List Token} {p : Program} :
    ((parse tokens).errors = [] ∧ (parse tokens).program = p) ↔
      ∃ t, Reads (Parse.program .standard) ⟨TokenStream.ofTokens tokens, []⟩ (significant tokens)
          p t ∧
        t.stream.ahead = [] := by
  obtain ⟨hahead, hstop⟩ := ofTokens_spec tokens
  unfold parse
  constructor
  · rintro ⟨herrors, hprogram⟩
    cases h : Parse.program .standard ⟨TokenStream.ofTokens tokens, []⟩ with
    | ok q t =>
      rw [h] at herrors hprogram
      subst hprogram
      obtain ⟨ts, hp⟩ := (Steady.of_ok h).past hstop herrors
      obtain ⟨-, -, hend⟩ := program_reads_iff.mp ⟨h, hp⟩
      have hts : significant tokens = ts := by
        rw [← hahead, hp.ahead, hend, List.append_nil]
      exact ⟨t, hts ▸ ⟨h, hp⟩, hend⟩
    | error d t =>
      rw [h] at herrors
      exact absurd herrors (List.concat_ne_nil _ _)
  · rintro ⟨t, ⟨hrun, hp⟩, -⟩
    rw [hrun]
    exact ⟨hp.errors, rfl⟩

/-- Tokens are accepted as a program exactly if they have a derivation that stands for it. -/
theorem parse_iff_exists_tree {tokens : List Token} {p : Program} :
    ((parse tokens).errors = [] ∧ (parse tokens).program = p) ↔
      ∃ d : ProgramTree, d.tokens = significant tokens ∧ d.program = p := by
  obtain ⟨hahead, hstop⟩ := ofTokens_spec tokens
  rw [parse_iff_reads]
  constructor
  · rintro ⟨t, h, -⟩
    exact (program_reads_iff.mp h).1
  · intro hd
    have hp : Past ⟨TokenStream.ofTokens tokens, []⟩ (significant tokens) _ :=
      past_skip hstop ⟨[], by rw [List.append_nil, hahead]⟩
    have hend := hp.ahead
    rw [hahead, List.self_eq_append_right] at hend
    exact ⟨_, program_reads_iff.mpr ⟨hd, hp, hend⟩, hend⟩

/-- **The parser accepts exactly its grammar.**  It reports nothing if and only if the significant
tokens have a derivation, which is then the only one; and the program that it returns is the one
that the derivation stands for. -/
theorem parse_errors_eq_nil_iff (tokens : List Token) :
    ((parse tokens).errors = [] ↔ ∃ d : ProgramTree, d.tokens = significant tokens) ∧
      ((parse tokens).errors = [] ↔ ∃! d : ProgramTree, d.tokens = significant tokens) ∧
      ∀ d : ProgramTree, d.tokens = significant tokens → d.program = (parse tokens).program := by
  have hex : (parse tokens).errors = [] ↔ ∃ d : ProgramTree, d.tokens = significant tokens := by
    constructor
    · intro h
      obtain ⟨d, hd, -⟩ := parse_iff_exists_tree.mp ⟨h, rfl⟩
      exact ⟨d, hd⟩
    · rintro ⟨d, hd⟩
      exact (parse_iff_exists_tree.mpr ⟨d, hd, rfl⟩).1
  refine ⟨hex, hex.trans ⟨?_, ExistsUnique.exists⟩, ?_⟩
  · rintro ⟨d, hd⟩
    refine ⟨d, hd, ?_⟩
    intro d' hd'
    exact ProgramTree.tokens_injective (hd'.trans hd.symm)
  · intro d hd
    exact (parse_iff_exists_tree.mpr ⟨d, hd, rfl⟩).2.symm

end StackListing
