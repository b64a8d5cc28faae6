import StackListing.Proofs.Lexing.Blanks

/-!
# What a text yields in its context

A word ends where the text behind it cannot continue it, so what a scanner makes of a text depends
on what follows.  `Yields s B G` says that wherever the text `s` stands, and whatever follows it
that satisfies `B`, the scanner finds no fault in it, takes tokens from it that satisfy `G`, and
goes on behind it as if a new text began there.  Texts that are written one behind the other yield
what they yield one by one (`Yields.seq`), so a printed text is read piece by piece.
-/

namespace StackListing

/-- The tokens of a text at a place, without newlines, and the complaints about it. -/
def scanAt (pos : Position) (cs : List Char) : Scan :=
  ⟨(Scan.ofSegments pos (Segment.split cs)).tokens.filter (·.kind ≠ .newline),
    (Scan.ofSegments pos (Segment.split cs)).errors⟩

/-- A scan that finds the tokens `ts` and then goes on as `rest`. -/
def Scan.behind (ts : List Token) (rest : Scan) : Scan := ⟨ts ++ rest.tokens, rest.errors⟩

/-- **What a text yields** before texts that satisfy `B`. -/
def Yields (s : String) (B : List Char → Prop) (G : List Token → Prop) : Prop :=
  ∀ pos rest, B rest → ∃ ts, G ts ∧ (∀ t ∈ ts, t.kind ≠ .endOfInput) ∧
    scanAt pos (s.toList ++ rest) = (scanAt (pos.advance s.toList) rest).behind ts

/-- Any text may follow. -/
def Anything (_ : List Char) : Prop := True

/-- Characters that end every word before them. -/
def boundary : List Char := [' ', '\n', '(', ')', ',', ';']

/-- What follows begins with a character that ends every word before it. -/
def Bounded (rest : List Char) : Prop := rest = [] ∨ ∃ c cs, rest = c :: cs ∧ c ∈ boundary

/-- Tokens that are those of `G` followed by those of `H`. -/
def Then (G H : List Token → Prop) (ts : List Token) : Prop :=
  ∃ a b, ts = a ++ b ∧ G a ∧ H b

/-- No tokens. -/
def Nothing (ts : List Token) : Prop := ts = []

/-- A single token. -/
def Single (kind : Kind) (value : String) (ts : List Token) : Prop :=
  ∃ pos, ts = [⟨kind, value, pos⟩]

namespace Yields

variable {s t : String} {B B' : List Char → Prop} {G H : List Token → Prop}

theorem mono (h : Yields s B G) (hB : ∀ rest, B' rest → B rest) (hG : ∀ ts, G ts → H ts) :
    Yields s B' H := by
  intro pos rest hrest
  obtain ⟨ts, hts, hscan⟩ := h pos rest (hB rest hrest)
  exact ⟨ts, hG ts hts, hscan⟩

theorem map (h : Yields s B G) (hG : ∀ ts, G ts → H ts) : Yields s B H := h.mono (fun _ => id) hG

/-- **Texts one behind the other.** -/
theorem seq (h : Yields s B G) (h' : Yields t B' H) (hB : ∀ rest, B' rest → B (t.toList ++ rest)) :
    Yields (s ++ t) B' (Then G H) := by
  intro pos rest hrest
  obtain ⟨a, ha, hane, hscan⟩ := h pos (t.toList ++ rest) (hB rest hrest)
  obtain ⟨b, hb, hbne, hscan'⟩ := h' (pos.advance s.toList) rest hrest
  refine ⟨a ++ b, ⟨a, b, rfl, ha, hb⟩, ?_, ?_⟩
  · intro x hx
    rcases List.mem_append.mp hx with hx | hx
    · exact hane x hx
    · exact hbne x hx
  · rw [String.toList_append, List.append_assoc, hscan, hscan', Position.advance_append]
    simp only [Scan.behind, List.append_assoc]

/-- A text that is read in the same way before any other. -/
theorem next (h : Yields s Anything G) (h' : Yields t B' H) : Yields (s ++ t) B' (Then G H) :=
  h.seq h' fun _ _ => trivial

/-- A text that must be ended, before one that ends it. -/
theorem upTo (h : Yields s Bounded G) (h' : Yields t B' H)
    (ht : ∃ c ∈ boundary, t.toList.head? = some c) : Yields (s ++ t) B' (Then G H) := by
  refine h.seq h' fun rest _ => ?_
  obtain ⟨c, hc, hhead⟩ := ht
  obtain ⟨cs, htext⟩ := List.head?_eq_some_iff.mp hhead
  exact .inr ⟨c, cs ++ rest, by rw [htext, List.cons_append], hc⟩

/-- A text that is read in the same way before any other is so before some. -/
theorem anywhere (h : Yields s Anything G) (hG : ∀ ts, G ts → H ts) : Yields s B H :=
  h.mono (fun _ _ => trivial) hG

theorem empty : Yields "" B Nothing := by
  intro pos rest _
  exact ⟨[], rfl, by simp, rfl⟩

end Yields

/-! ### One segment -/

theorem scanAt_nil (pos : Position) : scanAt pos [] = ⟨[⟨.endOfInput, "", pos⟩], []⟩ := by
  simp [scanAt, Scan.ofSegments]

/-- A text that is one token wherever `B` holds of what follows. -/
theorem yields_single {w : String} {c : Char} {cs : List Char} {kind : Kind}
    {B : List Char → Prop} (hw : w.toList = c :: cs) (hkind : kind ≠ .newline)
    (hend : kind ≠ .endOfInput)
    (h : ∀ rest, B rest → Segment.first c (cs ++ rest) = ⟨.token kind, c :: cs⟩) :
    Yields w B (Single kind (Segment.value ⟨.token kind, c :: cs⟩)) := by
  intro pos rest hrest
  refine ⟨_, ⟨pos, rfl⟩, by simpa using hend, ?_⟩
  rw [hw, scanAt, split_of_first (h rest hrest)]
  simp [Scan.ofSegments, scanAt, Scan.behind, hkind]

theorem yields_blank : Yields " " Anything Nothing := by
  intro pos rest _
  refine ⟨[], rfl, by simp, ?_⟩
  show scanAt pos (' ' :: rest) = Scan.behind [] (scanAt (pos.next ' ') rest)
  unfold scanAt Scan.behind
  rw [ofSegments_blank (.inl rfl), List.nil_append]

theorem yields_newline : Yields "\n" Anything Nothing := by
  intro pos rest _
  refine ⟨[], rfl, by simp, ?_⟩
  have hsplit : Segment.split (['\n'] ++ rest) = ⟨.token .newline, ['\n']⟩ :: Segment.split rest :=
    split_of_first rfl
  show scanAt pos (['\n'] ++ rest) = _
  rw [scanAt, hsplit]
  simp [Scan.ofSegments, scanAt, Scan.behind]

/-- Behind a blank anything may follow. -/
theorem Yields.blank {s : String} {G : List Token → Prop} (h : Yields s Bounded G) :
    Yields (s ++ " ") Anything G := by
  refine (h.upTo yields_blank (by decide)).map ?_
  rintro _ ⟨_, _, rfl, hts, rfl⟩
  rwa [List.append_nil]

/-! ### Words, numbers and strings -/

section Bounded

variable {P : Char → Bool} {cs rest : List Char} (hrest : Bounded rest)
  (hP : ∀ c ∈ boundary, P c = false) (hcs : ∀ c ∈ cs, P c = true)
include hrest hP hcs

theorem takeWhile_bounded : (cs ++ rest).takeWhile P = cs := by
  rw [List.takeWhile_append_of_pos hcs]
  rcases hrest with rfl | ⟨c, rest, rfl, hc⟩
  · rw [List.takeWhile_nil, List.append_nil]
  · rw [List.takeWhile_cons_of_neg (by rw [hP c hc]; decide), List.append_nil]

theorem dropWhile_bounded : (cs ++ rest).dropWhile P = rest := by
  rw [List.dropWhile_append_of_pos hcs]
  rcases hrest with rfl | ⟨c, rest, rfl, hc⟩
  · rfl
  · rw [List.dropWhile_cons_of_neg (by rw [hP c hc]; decide)]

end Bounded

theorem yields_word {w : String} (hw : Pattern.word.Matches w.toList) :
    Yields w Bounded (Single (Kind.ofWord w) w) := by
  obtain ⟨c, cs, htext, hc, hcs⟩ := hw
  have hword : w = String.ofList (c :: cs) := by rw [← htext, String.ofList_toList]
  have hfirst (rest : List Char) (hrest : Bounded rest) :
      Segment.first c (cs ++ rest) = ⟨.token (Kind.ofWord w), c :: cs⟩ := by
    rw [Segment.first, if_pos (Segment.isLetter_iff.mpr hc), Segment.word,
      takeWhile_bounded hrest (by decide) fun d hd => Segment.isWordChar_iff.mpr (hcs d hd), hword]
  have hsingle := yields_single htext (Kind.ofWord_ne w (by decide) (by decide))
    (Kind.ofWord_ne w (by decide) (by decide)) hfirst
  rwa [Segment.value_of_ne _ (Kind.ofWord_ne w (by decide) (by decide)), ← hword] at hsingle

theorem first_digit {c : Char} (hc : Digit c) (cs : List Char) :
    Segment.first c cs = Segment.number c cs := by
  have hletter : ¬ Segment.isLetter c = true := fun h =>
    (Segment.isLetter_iff.mp h).not_digit hc
  rw [Segment.first, if_neg hletter, if_pos (isDigit_iff.mpr hc)]

theorem yields_integer {w : String} (hw : Digits w.toList) :
    Yields w Bounded (Single .integerLiteral w) := by
  obtain ⟨c, cs, htext⟩ := List.exists_cons_of_ne_nil hw.1
  have hdigit : ∀ d ∈ c :: cs, Digit d := htext ▸ hw.2
  have hcs : ∀ d ∈ cs, d.isDigit = true := fun d hd =>
    isDigit_iff.mpr (hdigit d (List.mem_cons_of_mem c hd))
  have hfirst (rest : List Char) (hrest : Bounded rest) :
      Segment.first c (cs ++ rest) = ⟨.token .integerLiteral, c :: cs⟩ := by
    rw [first_digit (hdigit c List.mem_cons_self), Segment.number,
      takeWhile_bounded hrest (by decide) hcs, dropWhile_bounded hrest (by decide) hcs]
    rcases hrest with rfl | ⟨d, rest, rfl, hd⟩
    · rfl
    · split
      · rename_i heq
        cases heq
        exact absurd hd (by decide)
      · rfl
  have hsingle := yields_single htext (by decide) (by decide) hfirst
  rwa [Segment.value_of_ne _ (by decide), ← htext, String.ofList_toList] at hsingle

theorem yields_float {w : String} (hw : Pattern.float.Matches w.toList) :
    Yields w Bounded (Single .floatLiteral w) := by
  obtain ⟨ds, es, htext, hds, hes⟩ := hw
  obtain ⟨c, cs, rfl⟩ := List.exists_cons_of_ne_nil hds.1
  obtain ⟨e, es, rfl⟩ := List.exists_cons_of_ne_nil hes.1
  have hcs : ∀ d ∈ cs, d.isDigit = true := fun d hd =>
    isDigit_iff.mpr (hds.2 d (List.mem_cons_of_mem c hd))
  have hes' : ∀ d ∈ es, d.isDigit = true := fun d hd =>
    isDigit_iff.mpr (hes.2 d (List.mem_cons_of_mem e hd))
  have hfirst (rest : List Char) (hrest : Bounded rest) :
      Segment.first c (cs ++ '.' :: e :: es ++ rest) =
        ⟨.token .floatLiteral, c :: (cs ++ '.' :: e :: es)⟩ := by
    have htake : (cs ++ '.' :: e :: es ++ rest).takeWhile Char.isDigit = cs := by
      exact takeWhile_of_ends (c := '.') ⟨e :: es ++ rest, by simp⟩ hcs (by decide)
    have hdrop : (cs ++ '.' :: e :: es ++ rest).dropWhile Char.isDigit =
        '.' :: e :: (es ++ rest) := by
      rw [List.append_assoc, List.dropWhile_append_of_pos hcs]
      exact List.dropWhile_cons_of_neg (by decide)
    rw [first_digit (hds.2 c List.mem_cons_self), Segment.number, htake, hdrop]
    show (if e.isDigit = true then (⟨_, _⟩ : Segment) else _) = _
    rw [if_pos (isDigit_iff.mpr (hes.2 e List.mem_cons_self)),
      takeWhile_bounded hrest (by decide) hes']
    rfl
  rw [List.cons_append] at htext
  have hsingle := yields_single htext (by decide) (by decide) hfirst
  rwa [Segment.value_of_ne _ (by decide), ← htext, String.ofList_toList] at hsingle

/-- A string ends at its closing quote, whatever follows. -/
theorem yields_string {s : String} (hs : '"' ∉ s.toList) :
    Yields ("\"" ++ s ++ "\"") Anything (Single .stringLiteral s) := by
  have htext : ("\"" ++ s ++ "\"").toList = '"' :: (s.toList ++ ['"']) := by simp
  have hfirst (rest : List Char) (_ : Anything rest) :
      Segment.first '"' (s.toList ++ ['"'] ++ rest) =
        ⟨.token .stringLiteral, '"' :: (s.toList ++ ['"'])⟩ := by
    show Segment.string _ = _
    have htake : (s.toList ++ ['"'] ++ rest).takeWhile (· ≠ '"') = s.toList := by
      refine takeWhile_of_ends (c := '"') ⟨rest, rfl⟩ (fun d hd => ?_) (by simp)
      exact decide_eq_true fun heq => hs (heq ▸ hd)
    rw [Segment.string, if_pos (by simp), htake]
    rfl
  have hsingle := yields_single htext (by decide) (by decide) hfirst
  have hvalue : Segment.value ⟨.token .stringLiteral, '"' :: (s.toList ++ ['"'])⟩ = s := by
    simp [Segment.value]
  rwa [hvalue] at hsingle

/-! ### Punctuation -/

theorem yields_of_sign {kind : Kind} {w : String} {B : List Char → Prop}
    (hw : kind.sign? = some w.toList)
    (hfirst : ∀ c cs rest, w.toList = c :: cs → B rest →
      Segment.first c (cs ++ rest) = ⟨.token kind, c :: cs⟩) : Yields w B (Single kind w) := by
  have hne (k : Kind) (hk : k.sign? = none) : kind ≠ k := by
    rintro rfl
    rw [hk] at hw
    cases hw
  obtain ⟨c, cs, htext, -⟩ := Pattern.Matches.opens (p := .sign kind) hw
  have hsingle := yields_single htext (hne _ rfl) (hne _ rfl) fun rest => hfirst c cs rest htext
  rwa [Segment.value_of_ne _ (hne _ rfl), ← htext, String.ofList_toList] at hsingle

/-- Punctuation with which nothing longer begins, before any text. -/
theorem yields_mark (kind : Kind) (w : String) (hw : kind.sign? = some w.toList)
    (hkind : kind ∈ [.openParen, .closeParen, .openCurly, .closeCurly, .comma, .semicolon, .dash]) :
    Yields w Anything (Single kind w) := by
  refine yields_of_sign hw fun c cs rest htext _ => ?_
  rw [htext] at hw
  cases kind <;> cases hw <;> first | rfl | exact absurd hkind (by decide)

/-- Punctuation before a character that ends it. -/
theorem yields_sign (kind : Kind) (w : String) (hw : kind.sign? = some w.toList) :
    Yields w Bounded (Single kind w) := by
  refine yields_of_sign hw fun c cs rest htext hrest => ?_
  rw [htext] at hw
  -- only a sign that could be continued looks at what follows
  cases kind <;> cases hw <;> first
    | rfl
    | (rcases hrest with rfl | ⟨d, rest, rfl, hd⟩
       · rfl
       · simp only [boundary, List.mem_cons, List.not_mem_nil, or_false] at hd
         rcases hd with rfl | rfl | rfl | rfl | rfl | rfl <;> rfl)

end StackListing
