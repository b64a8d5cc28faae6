import StackListing.Proofs.Lexing.Blanks

/-!
# Scanning goes line by line

A newline stands in no text of a pattern but in a newline itself and between the quotes of a string
(`Pattern.Matches.newline_mem`).  So what fits at a place also fits there when a newline and any
text are added at the end, unless it is an unclosed string, which takes all that follows
(`Piece.Fits.before_newline`).  Hence the cut of two texts with a newline between them is the cut of
the first, the newline, and the cut of the second (`IsCut.append_newline`), and the places of the
second are those that it has by itself, further down (`located_below`).
-/

namespace StackListing

/-! ### Texts with a newline behind them -/

namespace Pattern

/-- **Only newlines and strings have a newline in them.** -/
theorem Matches.newline_mem {p : Pattern} {w : List Char} (h : p.Matches w) (hw : '\n' ∈ w) :
    p = .newline ∨ p = .string := by
  rcases h.of_separator (.inr rfl) hw with rfl | rfl | rfl | rfl
  · exact .inl rfl
  · exact absurd (h.2 _ hw) (by decide)
  · exact .inr rfl
  · obtain ⟨cs, rfl, hcs⟩ := h
    simp only [List.mem_cons, hcs, or_false] at hw
    exact absurd hw (by decide)

/-- The longest text stays the longest before a newline. -/
theorem Longest.before_newline {p : Pattern} {w rest : List Char} (hp : p ≠ .quote)
    (h : p.Longest w rest) (rest' : List Char) : p.Longest w (rest ++ '\n' :: rest') where
  matched := h.matched
  longest q v hv hpre := by
    have hpre' : v <+: (w ++ rest) ++ '\n' :: rest' := by rwa [List.append_assoc]
    rcases prefix_or_reaches hpre' with hshort | hreach
    · exact h.longest q v hv hshort
    rcases hv.newline_mem (hreach.subset (by simp)) with rfl | rfl
    · have hne := List.length_pos_iff.mpr h.matched.ne_nil
      rw [show v = ['\n'] from hv]
      exact hne
    · exact h.matched.length_string_le hp hv hpre

/-- Where no pattern has a text, none has one when a newline is added behind it. -/
theorem not_begins_before_newline {c : Char} {rest : List Char}
    (h : ∀ p : Pattern, ¬ p.Begins (c :: rest)) (rest' : List Char) (p : Pattern) :
    ¬ p.Begins (c :: (rest ++ '\n' :: rest')) := by
  intro hbegins
  have hopens := hbegins.opens
  obtain ⟨v, hv, hpre⟩ := hbegins
  have hpre' : v <+: (c :: rest) ++ '\n' :: rest' := hpre
  rcases prefix_or_reaches hpre' with hshort | hreach
  · exact h p ⟨v, hv, hshort⟩
  rcases hv.newline_mem (hreach.subset (by simp)) with rfl | rfl
  · exact h .newline ⟨['\n'], rfl, rest, by rw [show c = '\n' from hopens]; rfl⟩
  · exact h .quote ⟨['"'], rfl, rest, by rw [show c = '"' from hopens]; rfl⟩

/-- Nothing is longer than a newline where one stands. -/
theorem longest_newline (rest : List Char) : Longest .newline ['\n'] rest where
  matched := rfl
  longest q v hv hpre := by
    have hopens : q.Opens '\n' := Begins.opens ⟨v, hv, hpre⟩
    obtain rfl := eq_newline_of_group hopens.group_eq
    exact (congrArg List.length hv).le

end Pattern

/-! ### Cuts -/

/-- **A piece that fits also fits before a newline,** unless it is an unclosed string. -/
theorem Piece.Fits.before_newline {x : Piece} {rest : List Char} (h : x.Fits rest)
    (hx : ∀ w, x ≠ .unclosed w) (rest' : List Char) : x.Fits (rest ++ '\n' :: rest') := by
  cases h with
  | lexeme hp h => exact .lexeme hp (h.before_newline hp rest')
  | stray h => exact .stray (Pattern.not_begins_before_newline h rest')
  | unclosed h => exact absurd rfl (hx _)

/-- The piece that a newline is. -/
def Piece.newline : Piece := .lexeme .newline ['\n']

theorem Piece.fits_newline (rest : List Char) : Piece.newline.Fits rest :=
  .lexeme (by decide) (Pattern.longest_newline rest)

/-- **A newline separates cuts.** -/
theorem IsCut.append_newline {a b : List Char} {xs ys : List Piece} (ha : IsCut a xs)
    (hxs : ∀ x ∈ xs, ∀ w, x ≠ .unclosed w) (hb : IsCut b ys) :
    IsCut (a ++ '\n' :: b) (xs ++ Piece.newline :: ys) := by
  induction xs generalizing a with
  | nil =>
    obtain rfl : [] = a := ha.whole
    exact hb.cons (Piece.fits_newline b)
  | cons x xs ih =>
    obtain ⟨hx, hxs⟩ := List.forall_mem_cons.mp hxs
    obtain rfl : x.text ++ xs.flatMap Piece.text = a := ha.whole
    rw [List.append_assoc]
    exact (ih ha.tail hxs).cons (ha.head.before_newline hx b)

/-! ### Places further down -/

/-- The place `n` lines further down. -/
def Position.below (n : Int) (p : Position) : Position := ⟨p.line + n, p.column⟩

/-- The token `n` lines further down. -/
def Token.below (n : Int) (t : Token) : Token := { t with position := t.position.below n }

/-- The complaint `n` lines further down. -/
def Diagnostic.below (n : Int) (d : Diagnostic) : Diagnostic :=
  { d with position := d.position.below n }

/-- Behind a newline columns begin afresh, and lines go on from those before it. -/
theorem place_append_newline (a before : List Char) :
    place (a ++ '\n' :: before) = (place before).below (place a).line := by
  have hcolumn : ((a ++ '\n' :: before).reverse.takeWhile (· ≠ '\n')).length =
      (before.reverse.takeWhile (· ≠ '\n')).length := by
    have hreverse : (a ++ '\n' :: before).reverse = before.reverse ++ '\n' :: a.reverse := by simp
    rw [hreverse, List.takeWhile_append]
    split_ifs with hall
    · rw [List.takeWhile_cons_of_neg (by decide), List.append_nil, hall]
    · rfl
  simp only [place, Position.below, hcolumn, List.count_append, List.count_cons_self,
    Position.mk.injEq, and_true]
  omega

theorem located_append (before : List Char) (xs ys : List Piece) :
    located before (xs ++ ys) =
      located before xs ++ located (before ++ xs.flatMap Piece.text) ys := by
  induction xs generalizing before with
  | nil => simp [located]
  | cons x xs ih => simp [located, ih, List.append_assoc]

/-- **Pieces behind a newline stand where they stand by themselves, further down.** -/
theorem located_below (a before : List Char) (ys : List Piece) :
    located (a ++ '\n' :: before) ys =
      (located before ys).map fun y => (y.1.below (place a).line, y.2) := by
  induction ys generalizing before with
  | nil => rfl
  | cons y ys ih =>
    rw [located, located, List.map_cons, place_append_newline, List.append_assoc, List.cons_append,
      ih]

theorem Piece.token?_below (n : Int) (pos : Position) (x : Piece) :
    x.token? (pos.below n) = (x.token? pos).map (Token.below n) := by
  cases x with
  | lexeme p w => cases p <;> rfl
  | stray c => rfl
  | unclosed w => rfl

theorem Piece.error?_below (n : Int) (pos : Position) (x : Piece) :
    x.error? (pos.below n) = (x.error? pos).map (Diagnostic.below n) := by
  cases x <;> rfl

/-- What is found at pieces behind a newline is found there by itself, further down. -/
theorem filterMap_located_below {α : Type} {f : Position × Piece → Option α} {lower : Int → α → α}
    (hf : ∀ n pos x, f (pos.below n, x) = (f (pos, x)).map (lower n)) (a : List Char)
    (ys : List Piece) :
    (located (a ++ ['\n']) ys).filterMap f =
      ((located [] ys).filterMap f).map (lower (place a).line) := by
  rw [located_below, List.filterMap_map, List.map_filterMap]
  congr 1
  funext y
  exact hf _ _ _

/-! ### Scans -/

/-- Without a complaint about an unclosed string there is none. -/
theorem not_unclosed_of_errors {before : List Char} {xs : List Piece}
    (h : ∀ d ∈ (located before xs).filterMap (fun y => y.2.error? y.1),
      d.cause ≠ .unterminatedString) : ∀ x ∈ xs, ∀ w, x ≠ .unclosed w := by
  rintro x hx w rfl
  rw [← map_snd_located before xs] at hx
  obtain ⟨⟨pos, x⟩, hy, rfl⟩ := List.mem_map.mp hx
  exact h ⟨.unterminatedString, pos⟩ (List.mem_filterMap.mpr ⟨_, hy, rfl⟩) rfl

/-- What is found at the pieces of two texts with a newline between them. -/
theorem filterMap_located_append_newline {α : Type} {f : Position × Piece → Option α}
    {lower : Int → α → α} (hf : ∀ n pos x, f (pos.below n, x) = (f (pos, x)).map (lower n))
    {a : List Char} {xs : List Piece} (ha : IsCut a xs) (ys : List Piece) :
    (located [] (xs ++ Piece.newline :: ys)).filterMap f =
      (located [] xs).filterMap f ++ (f (place a, Piece.newline)).toList ++
        ((located [] ys).filterMap f).map (lower (place a).line) := by
  rw [located_append, List.nil_append, ha.whole, located, List.filterMap_append,
    ← filterMap_located_below hf, List.append_assoc, List.filterMap_cons]
  cases f (place a, Piece.newline) <;> rfl

/-- **Scanning goes line by line.**  If no string is left open in `a`, the tokens of `a`, a newline
and `b` are the words of `a`, a newline token where the end of `a` was, and the tokens of `b`; these
stand as many lines further down as the number of the line on which `a` ends.  The complaints are
those about `a` and then those about `b`, as many lines further down. -/
theorem tokenize_append_newline (a b : String)
    (hclosed : ∀ d ∈ (tokenize a).errors, d.cause ≠ .unterminatedString) :
    ∃ (words : List Token) (stop : Token), (tokenize a).tokens = words ++ [stop] ∧
      stop.kind = .endOfInput ∧
      (tokenize (a ++ "\n" ++ b)).tokens = words ++ ⟨.newline, "\n", stop.position⟩ ::
        (tokenize b).tokens.map (Token.below stop.position.line) ∧
      (tokenize (a ++ "\n" ++ b)).errors = (tokenize a).errors ++
        (tokenize b).errors.map (Diagnostic.below stop.position.line) := by
  obtain ⟨xs, ha, -, hscan⟩ := exists_tokenize_eq a
  obtain ⟨ys, hb, -, hscan'⟩ := exists_tokenize_eq b
  obtain ⟨zs, hboth, -, hscan''⟩ := exists_tokenize_eq (a ++ "\n" ++ b)
  have htext : (a ++ "\n" ++ b).toList = a.toList ++ '\n' :: b.toList := by simp
  rw [hscan] at hclosed
  obtain rfl : zs = xs ++ Piece.newline :: ys :=
    hboth.unique (htext ▸ ha.append_newline (not_unclosed_of_errors hclosed) hb)
  refine ⟨_, _, congrArg Scan.tokens hscan, rfl, ?_, ?_⟩
  · rw [hscan'', hscan', htext, place_append_newline]
    dsimp only
    rw [filterMap_located_append_newline (fun n pos x => x.token?_below n pos) ha, List.map_append,
      List.append_assoc, List.append_assoc]
    rfl
  · rw [hscan'', hscan, hscan']
    dsimp only
    rw [filterMap_located_append_newline (fun n pos x => x.error?_below n pos) ha]
    simp [Piece.newline, Piece.error?]

/-- A string over two lines, half a number, and a comment with a quote in it. -/
def halfLine : String := "\"p\nq\" 1.// \""

/-- Digits that would complete the number, half an operator, and an unclosed string. -/
def openLines : String := "5 &\n\"r"

theorem tokenize_append_newline_halfLine :
    (∀ d ∈ (tokenize halfLine).errors, d.cause ≠ .unterminatedString) ∧
    (∃ (words : List Token) (stop : Token), (tokenize halfLine).tokens = words ++ [stop] ∧
      stop.kind = .endOfInput ∧
      (tokenize (halfLine ++ "\n" ++ openLines)).tokens =
        words ++ ⟨.newline, "\n", stop.position⟩ ::
          (tokenize openLines).tokens.map (Token.below stop.position.line) ∧
      (tokenize (halfLine ++ "\n" ++ openLines)).errors = (tokenize halfLine).errors ++
        (tokenize openLines).errors.map (Diagnostic.below stop.position.line)) ∧
    (tokenize (halfLine ++ "\n" ++ openLines)).errors = [⟨.unexpectedCharacter '.', ⟨2, 5⟩⟩,
      ⟨.unexpectedCharacter '&', ⟨3, 3⟩⟩, ⟨.unterminatedString, ⟨4, 1⟩⟩] := by
  have hclosed : ∀ d ∈ (tokenize halfLine).errors, d.cause ≠ .unterminatedString := by
    decide +kernel
  exact ⟨hclosed, tokenize_append_newline halfLine openLines hclosed, by decide +kernel⟩

end StackListing
