import Mathlib.Order.Bounds.Basic
import Mathlib.Order.Nat
import StackListing.Proofs.Recovery.Cursor

/-!
# Where reading is resumed

A boundary between statements is a place at an end marker, behind a semicolon, or before a word that
opens a statement.  This is said of the tokens that the parser gets to see, by their places
(`IsBoundary`).  The search for a boundary moves a stream instead: one step of it stays if the
stream rests (`Rests`) and goes on by one token otherwise, so a whole search stops at the first
place of rest (`sought_eq_iterate`).  Places of rest and boundaries are the same (`rests_iff`), and
skipping takes one token before it searches; hence it stops at the earliest boundary behind the
place where it began.
-/

namespace StackListing

open Parse ParseState

/-! ### The search -/

namespace TokenStream

variable {s : TokenStream}

/-- The search for a boundary does not go on: nothing is left, or the token read last is a
semicolon, or the current one is a starter. -/
def Rests (s : TokenStream) : Prop :=
  s.ahead = [] ∨ s.previous?.map (·.kind) = some .semicolon ∨ s.current.kind ∈ starters

/-- The stream where the search for a boundary stops that begins in `s`. -/
def sought (s : TokenStream) : TokenStream :=
  let (behind, ahead) := seek s.behind s.ahead
  { s with behind, ahead }

theorem sought_of_rests (h : s.Rests) : s.sought = s := by
  obtain ⟨b, a, e, z⟩ := s
  cases a with
  | nil => rfl
  | cons t ts =>
    have hstop : seek b (t :: ts) = (b, t :: ts) := if_pos (h.resolve_left nofun)
    unfold sought
    rw [hstop]

theorem sought_of_not_rests (h : ¬ s.Rests) : s.sought = s.advance.sought := by
  obtain ⟨b, a, e, z⟩ := s
  cases a with
  | nil => exact absurd (.inl rfl) h
  | cons t ts =>
    have hgo : seek b (t :: ts) = seek (t :: b) ts := if_neg fun hstop => h (.inr hstop)
    unfold sought
    rw [hgo]
    rfl

/-- **The search stops at the first place of rest.** -/
theorem sought_eq_iterate {n : Nat} (hgo : ∀ i < n, ¬ (advance^[i] s).Rests)
    (hstop : (advance^[n] s).Rests) : s.sought = advance^[n] s := by
  induction n generalizing s with
  | zero => exact sought_of_rests hstop
  | succ n ih =>
    have hgo₀ : ¬ s.Rests := hgo 0 n.succ_pos
    rw [sought_of_not_rests hgo₀]
    exact ih (fun i hi => hgo (i + 1) (Nat.succ_lt_succ hi)) hstop

/-- Skipping takes the current token, whatever it is, and then searches. -/
theorem synchronize_eq_sought (h : s.ahead ≠ []) : s.synchronize = s.advance.sought := by
  obtain ⟨b, a, e, z⟩ := s
  cases a with
  | nil => exact absurd rfl h
  | cons t ts => rfl

end TokenStream

/-! ### Boundaries -/

/-- The words before which reading can start afresh. -/
def openers : List String :=
  ["if", "for", "while", "return", "function", "int", "float", "bool", "string"]

/-- The kind of the `q`-th token. -/
def kindAt? (all : List Token) (q : Nat) : Option Kind := all[q]?.map (·.kind)

/-- **A boundary between statements:** the `q`-th token is an end marker, or the one before it is a
semicolon, or it is one of the `openers`. -/
def IsBoundary (all : List Token) (q : Nat) : Prop :=
  kindAt? all q = some .endOfInput ∨ (0 < q ∧ kindAt? all (q - 1) = some .semicolon) ∨
    kindAt? all q ∈ openers.map Kind.ofKeyword?

instance decidableIsBoundary (all : List Token) (q : Nat) : Decidable (IsBoundary all q) :=
  inferInstanceAs (Decidable (_ ∨ _ ∨ _))

/-- The place of the first end marker among the tokens that the parser gets to see. -/
def endPlace (tokens : List Token) : Nat := (given tokens).findIdx (·.kind = .endOfInput)

/-- The starters are the kinds of the openers. -/
theorem openers_kinds : openers.map Kind.ofKeyword? = TokenStream.starters.map some := by
  decide +kernel

theorem endPlace_eq (tokens : List Token) : endPlace tokens = (significant tokens).length := by
  have hnone : (significant tokens).findIdx (·.kind = .endOfInput) = (significant tokens).length :=
    List.findIdx_eq_length_of_false fun x hx => decide_eq_false (kind_ne_end_of_significant hx)
  rw [endPlace, given_eq, List.findIdx_append, hnone, if_neg (Nat.lt_irrefl _), List.findIdx_cons,
    decide_eq_true (ofTokens_spec tokens).2, cond_true, Nat.zero_add]

section Places

variable {tokens : List Token} {p q : Nat}

theorem isBoundary_endPlace (tokens : List Token) :
    IsBoundary (given tokens) (endPlace tokens) := by
  obtain ⟨hcurrent, hend, -⟩ := atToken_looks tokens le_rfl []
  rw [endPlace_eq]
  refine .inl ?_
  rw [kindAt?, hcurrent, Option.map_some, hend.mpr rfl]

/-- **The search rests exactly at boundaries.** -/
theorem rests_iff (hpos : 0 < q) (hq : q ≤ endPlace tokens) (errors : Diagnostics) :
    (atToken tokens q errors).stream.Rests ↔ IsBoundary (given tokens) q := by
  rw [endPlace_eq] at hq
  obtain ⟨hcurrent, hend, -, hprevious⟩ := atToken_looks tokens hq errors
  have hkind : kindAt? (given tokens) q = some (atToken tokens q errors).stream.current.kind := by
    rw [kindAt?, hcurrent, Option.map_some]
  have hahead : (atToken tokens q errors).stream.ahead = [] ↔
      (atToken tokens q errors).stream.current.kind = .endOfInput := by
    rw [hend, atToken_ahead, List.drop_eq_nil_iff]
    omega
  have hbefore : (atToken tokens q errors).stream.previous?.map (·.kind) =
      kindAt? (given tokens) (q - 1) := by
    have hlt : q - 1 < (given tokens).length := by
      rw [given_eq, List.length_append]
      omega
    rw [hprevious, List.getLast?_take, if_neg hpos.ne', List.getElem?_eq_getElem hlt,
      Option.some_or, kindAt?, List.getElem?_eq_getElem hlt]
  rw [TokenStream.Rests, IsBoundary, hahead, hbefore, hkind, openers_kinds]
  simp [hpos]

/-- Behind every place before the end marker there is an earliest boundary, at the marker or before
it. -/
theorem exists_earliest (hp : p < endPlace tokens) :
    ∃ q ≤ endPlace tokens, IsLeast {q | p < q ∧ IsBoundary (given tokens) q} q := by
  have hend := isBoundary_endPlace tokens
  have hex : ∃ q, p < q ∧ IsBoundary (given tokens) q := ⟨_, hp, hend⟩
  exact ⟨Nat.find hex, Nat.find_min' hex ⟨hp, hend⟩, Nat.isLeast_find hex⟩

/-- **Skipping stops at the earliest boundary** behind the place where it begins, if that is before
the end marker. -/
theorem synchronize_stream (hp : p < endPlace tokens) :
    ∃ q, IsLeast {q | p < q ∧ IsBoundary (given tokens) q} q ∧ ∀ errors,
      (atToken tokens p errors).stream.synchronize = (atToken tokens q errors).stream := by
  obtain ⟨q, hle, hleast⟩ := exists_earliest hp
  refine ⟨q, hleast, fun errors => ?_⟩
  -- the token at `p` is taken unseen, and the search begins behind it
  obtain ⟨n, rfl⟩ := Nat.exists_eq_add_of_le (Nat.succ_le_of_lt hleast.1.1)
  have hplace (i : Nat) : TokenStream.advance^[i] (atToken tokens p errors).stream.advance =
      (atToken tokens (p + 1 + i) errors).stream := by
    rw [Nat.add_comm, atToken, atToken, Function.iterate_add_apply, Function.iterate_succ_apply']
  have hahead : (atToken tokens p errors).stream.ahead ≠ [] := by
    rw [endPlace_eq] at hp
    exact fun h => hp.ne (eq_length_of_ahead hp.le h)
  rw [TokenStream.synchronize_eq_sought hahead, ← hplace n]
  refine TokenStream.sought_eq_iterate (fun i hi hrests => ?_) ?_
  · rw [hplace, rests_iff (by omega) (by omega)] at hrests
    have hmin := hleast.2 ⟨by omega, hrests⟩
    omega
  · rw [hplace, rests_iff (by omega) hle]
    exact hleast.1.2

theorem synchronize_stream_end (errors : Diagnostics) :
    (atToken tokens (endPlace tokens) errors).stream.synchronize =
      (atToken tokens (endPlace tokens) errors).stream := by
  refine TokenStream.synchronize_of_ahead ?_
  rw [atToken_ahead, endPlace_eq, List.drop_length]

end Places

/-! ### Resuming -/

/-- **Reading is resumed at the earliest boundary.**  For any tokens, skipping that begins before
the first end marker stops at the least place behind its beginning where there is an end marker, or
a semicolon just before, or one of the words that open a statement; at the end marker it does
nothing.  In neither case does it report anything. -/
theorem synchronize_earliest (tokens : List Token) (p : Nat) (errors : Diagnostics) :
    (p < endPlace tokens → ∃ q, IsLeast {q | p < q ∧ IsBoundary (given tokens) q} q ∧
      Parse.synchronize (atToken tokens p errors) = .ok () (atToken tokens q errors)) ∧
    (p = endPlace tokens →
      Parse.synchronize (atToken tokens p errors) = .ok () (atToken tokens p errors)) := by
  have hrun (q : Nat) (h : (atToken tokens p errors).stream.synchronize =
      (atToken tokens q errors).stream) :
      Parse.synchronize (atToken tokens p errors) = .ok () (atToken tokens q errors) :=
    congrArg (fun s => EStateM.Result.ok () (ParseState.mk s errors)) h
  refine ⟨fun hp => ?_, ?_⟩
  · obtain ⟨q, hleast, hstream⟩ := synchronize_stream hp
    exact ⟨q, hleast, hrun q (hstream errors)⟩
  · rintro rfl
    exact hrun _ (synchronize_stream_end errors)

/-- Tokens with a semicolon, a newline and a keyword that follow one another closely, and a word
behind the end marker. -/
def crowded : List Token :=
  [⟨.identifier, "x", ⟨1, 1⟩⟩, ⟨.semicolon, ";", ⟨1, 2⟩⟩, ⟨.newline, "\n", ⟨1, 3⟩⟩,
    ⟨.ifWord, "if", ⟨2, 1⟩⟩, ⟨.closeParen, ")", ⟨2, 3⟩⟩, ⟨.endOfInput, "", ⟨2, 4⟩⟩,
    ⟨.intWord, "int", ⟨2, 5⟩⟩]

/-- Skipping that begins at the keyword does not stop there but at the end marker, and no more
happens at the marker. -/
theorem synchronize_earliest_crowded :
    (2 < endPlace crowded ∧ IsLeast {q | 2 < q ∧ IsBoundary (given crowded) q} 4 ∧
      Parse.synchronize (atToken crowded 2 []) = .ok () (atToken crowded 4 [])) ∧
    (4 = endPlace crowded ∧
      Parse.synchronize (atToken crowded 4 []) = .ok () (atToken crowded 4 [])) := by
  have hlt : 2 < endPlace crowded := by decide
  have hend : 4 = endPlace crowded := by decide
  have hleast : IsLeast {q | 2 < q ∧ IsBoundary (given crowded) q} 4 := by
    refine ⟨⟨by decide, by decide⟩, ?_⟩
    rintro q ⟨hq, hbound⟩
    have hparen : ¬ IsBoundary (given crowded) 3 := by decide
    have hne : q ≠ 3 := fun h => hparen (h ▸ hbound)
    omega
  obtain ⟨q, hq, hrun⟩ := (synchronize_earliest crowded 2 []).1 hlt
  obtain rfl := hq.unique hleast
  exact ⟨⟨hlt, hleast, hrun⟩, hend, (synchronize_earliest crowded 4 []).2 hend⟩

/-- **After a failure, reading goes on at the earliest boundary.**  A statement begun at the `k`-th
token that fails does so there or further on, at a place `p`.  The failure is reported, behind what
the statement itself reported, and the next attempt begins at the earliest boundary behind `p`, or
at the end marker if the failure is at the marker. -/
theorem recover_earliest {tokens : List Token} {k : Nat} {errors : Diagnostics} {d : Diagnostic}
    {t : ParseState} (stmt : Parse Stmt) [Steady stmt] (hk : k ≤ endPlace tokens)
    (h : stmt (atToken tokens k errors) = .error d t) :
    ∃ p q ds, k ≤ p ∧ t = atToken tokens p (errors ++ ds) ∧
      (p < endPlace tokens ∧ IsLeast {q | p < q ∧ IsBoundary (given tokens) q} q ∨
        p = endPlace tokens ∧ q = p) ∧
      recover stmt (atToken tokens k errors) =
        .ok none (atToken tokens q (errors ++ ds ++ [d])) := by
  have hlead : (atToken tokens k errors).Leads t := by
    have hleads := Steady.leads (p := stmt) (atToken tokens k errors)
    rwa [h] at hleads
  rw [endPlace_eq] at hk
  obtain ⟨p, ds, hkp, hp, rfl⟩ := hlead.exists_atToken hk
  rw [← endPlace_eq] at hp
  have hrun (q : Nat) (hq : (atToken tokens p (errors ++ ds)).stream.synchronize =
      (atToken tokens q (errors ++ ds)).stream) :
      recover stmt (atToken tokens k errors) =
        .ok none (atToken tokens q (errors ++ ds ++ [d])) := by
    rw [recover_apply, h]
    exact congrArg (fun s => EStateM.Result.ok none (ParseState.mk s (errors ++ ds ++ [d]))) hq
  obtain hlt | rfl := hp.lt_or_eq
  · obtain ⟨q, hleast, hstream⟩ := synchronize_stream hlt
    exact ⟨p, q, ds, hkp, rfl, .inl ⟨hlt, hleast⟩, hrun q (hstream _)⟩
  · exact ⟨_, _, ds, hkp, rfl, .inr ⟨rfl, rfl⟩, hrun _ (synchronize_stream_end _)⟩

end StackListing
