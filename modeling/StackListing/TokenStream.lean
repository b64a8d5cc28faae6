import StackListing.Token

/-!
# Token streams

A token stream is a list of tokens with a place in it.  Newlines carry no meaning and are left out,
and the stream is closed by an end marker.  Reading never goes past the first end marker; tokens
that were given behind it can be peeked at and are otherwise without effect.
-/

namespace StackListing

/-- Tokens with a reading place. -/
structure TokenStream where
  /-- The tokens already read, the latest first. -/
  behind : List Token
  /-- The tokens from the reading place to the end marker. -/
  ahead : List Token
  /-- The first end marker. -/
  stop : Token
  /-- What was given behind the end marker. -/
  beyond : List Token
deriving DecidableEq

namespace TokenStream

/-- Tokens that end with an end marker: if it is missing, one is put at the place of the last token,
or at the start of the text if there is none. -/
def closed (tokens : List Token) : List Token :=
  match tokens.getLast? with
  | none => [⟨.endOfInput, "", Position.start⟩]
  | some t => if t.kind = .endOfInput then tokens else tokens ++ [⟨.endOfInput, "", t.position⟩]

/-- The stream of the given tokens, at its start. -/
def ofTokens (tokens : List Token) : TokenStream :=
  let all := closed (tokens.filter (·.kind ≠ .newline))
  let ahead := all.takeWhile (·.kind ≠ .endOfInput)
  match all.dropWhile (·.kind ≠ .endOfInput) with
  | stop :: beyond => ⟨[], ahead, stop, beyond⟩
  | [] => ⟨[], ahead, ⟨.endOfInput, "", Position.start⟩, []⟩

/-- The token at the reading place. -/
def current (s : TokenStream) : Token := s.ahead.headD s.stop

/-- The token `n` places further on; past the last token it is the last token. -/
def peek (s : TokenStream) (n : Nat) : Token :=
  (s.ahead ++ s.stop :: s.beyond)[n]?.getD (s.beyond.getLastD s.stop)

/-- The token read last. -/
def previous? (s : TokenStream) : Option Token := s.behind.head?

/-- Whether the end marker is reached. -/
def atEnd (s : TokenStream) : Bool := s.ahead.isEmpty

/-- The number of tokens before the end marker. -/
def remaining (s : TokenStream) : Nat := s.ahead.length

/-- The stream behind the current token; the end marker stays. -/
def advance (s : TokenStream) : TokenStream :=
  match s.ahead with
  | [] => s
  | t :: ts => { s with behind := t :: s.behind, ahead := ts }

/-- The kinds of tokens before which reading can start afresh. -/
def starters : List Kind :=
  [.ifWord, .forWord, .whileWord, .returnWord, .functionWord, .intWord, .floatWord, .boolWord,
    .stringWord]

/-- Moves tokens behind the reading place until the one read last is a semicolon, or the next one is
a starter, or none is left. -/
def seek (behind : List Token) : List Token → List Token × List Token
  | [] => (behind, [])
  | t :: ts =>
    if behind.head?.map (·.kind) = some .semicolon ∨ t.kind ∈ starters then (behind, t :: ts)
    else seek (t :: behind) ts

/-- **The stream at the next boundary between statements,** behind at least one token. -/
def synchronize (s : TokenStream) : TokenStream :=
  match s.ahead with
  | [] => s
  | t :: ts =>
    let (behind, ahead) := seek (t :: s.behind) ts
    { s with behind, ahead }

theorem synchronize_of_ahead {s : TokenStream} (h : s.ahead = []) : s.synchronize = s := by
  rw [synchronize, h]

@[simp] theorem current_nil {b beyond : List Token} {e : Token} :
    (TokenStream.mk b [] e beyond).current = e := rfl

@[simp] theorem current_cons {b ts beyond : List Token} {t e : Token} :
    (TokenStream.mk b (t :: ts) e beyond).current = t := rfl

@[simp] theorem advance_nil {b beyond : List Token} {e : Token} :
    (TokenStream.mk b [] e beyond).advance = ⟨b, [], e, beyond⟩ := rfl

@[simp] theorem advance_cons {b ts beyond : List Token} {t e : Token} :
    (TokenStream.mk b (t :: ts) e beyond).advance = ⟨t :: b, ts, e, beyond⟩ := rfl

end TokenStream

end StackListing
