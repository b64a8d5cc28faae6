import StackListing.Proofs.Parsing.Compositional

/-!
# What was read before makes no difference

A parsing step looks ahead only: what it does is the same whatever tokens were read before it began.
The one place that looks back is the search for a boundary between statements, which asks for the
token read last, and it does so only behind a token that it skipped itself.
-/

namespace StackListing

namespace ParseState

/-- The state with the tokens `b` read before all others, the latest first. -/
def onto (s : ParseState) (b : List Token) : ParseState :=
  { s with stream := { s.stream with behind := s.stream.behind ++ b } }

theorem advance_onto (s : ParseState) (b : List Token) :
    (s.onto b).stream.advance =
      (ParseState.mk s.stream.advance s.errors |>.onto b).stream := by
  obtain ⟨⟨behind, ahead, stop, beyond⟩, errors⟩ := s
  cases ahead <;> rfl

/-- The search for a boundary does not look past a token that was read. -/
theorem seek_append (t : Token) (behind b ts : List Token) :
    TokenStream.seek (t :: behind ++ b) ts =
      ((TokenStream.seek (t :: behind) ts).1 ++ b, (TokenStream.seek (t :: behind) ts).2) := by
  induction ts generalizing t behind with
  | nil => rfl
  | cons x xs ih =>
    -- both searches ask for the kind of `t`
    by_cases h : some t.kind = some .semicolon ∨ x.kind ∈ TokenStream.starters
    · have hstop (l : List Token) : TokenStream.seek (t :: l) (x :: xs) = (t :: l, x :: xs) :=
        if_pos h
      rw [List.cons_append, hstop, hstop]
      rfl
    · have hgo (l : List Token) :
          TokenStream.seek (t :: l) (x :: xs) = TokenStream.seek (x :: t :: l) xs := if_neg h
      rw [List.cons_append, hgo, hgo]
      exact ih x (t :: behind)

theorem synchronize_onto (s : ParseState) (b : List Token) :
    (s.onto b).stream.synchronize =
      (ParseState.mk s.stream.synchronize s.errors |>.onto b).stream := by
  obtain ⟨⟨behind, ahead, stop, beyond⟩, errors⟩ := s
  cases ahead with
  | nil => rfl
  | cons t ts =>
    have hseek := seek_append t behind b ts
    simp only [onto, TokenStream.synchronize]
    rw [← List.cons_append, hseek]

end ParseState

namespace Parse

open ParseState

variable {α β : Type}

/-- The result with the tokens `b` read before all others. -/
def under (b : List Token) :
    EStateM.Result Diagnostic ParseState α → EStateM.Result Diagnostic ParseState α
  | .ok a t => .ok a (t.onto b)
  | .error d t => .error d (t.onto b)

/-- **An oblivious step:** tokens read before it began stay where they are, and change nothing. -/
def Oblivious (p : Parse α) : Prop :=
  ∀ (s : ParseState) (b : List Token), p (s.onto b) = under b (p s)

theorem Oblivious.bind {p : Parse α} {f : α → Parse β} (hp : Oblivious p)
    (hf : ∀ a, Oblivious (f a)) : Oblivious (p >>= f) := by
  intro s b
  rw [bind_apply, bind_apply, hp]
  cases p s with
  | ok a t => exact hf a t b
  | error d t => rfl

theorem oblivious_advance : Oblivious advance := by
  intro s b
  show EStateM.Result.ok s.stream.current { s.onto b with stream := (s.onto b).stream.advance } = _
  rw [advance_onto]
  rfl

theorem oblivious_recover {stmt : Parse Stmt} (h : Oblivious stmt) : Oblivious (recover stmt) := by
  intro s b
  unfold recover
  rw [h]
  cases stmt s with
  | ok x t => rfl
  | error d t =>
    show EStateM.Result.ok none (ParseState.mk (t.onto b).stream.synchronize (t.errors ++ [d])) = _
    rw [synchronize_onto]
    rfl

/-- **The parser is oblivious.** -/
instance recovering_oblivious : Recovering @Oblivious where
  pure _ _ _ := rfl
  throw _ _ _ := rfl
  bind := Oblivious.bind
  atEnd _ _ := rfl
  current _ _ := rfl
  peek _ _ _ := rfl
  remaining _ _ := rfl
  advance := oblivious_advance
  report _ _ _ := rfl
  recover := oblivious_recover

end Parse

end StackListing
