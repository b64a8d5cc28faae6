import StackListing.Proofs.Layout.Reading
import StackListing.Proofs.Phases.Gating

/-!
# Layout and string contents make no difference

Two sources may differ in their spaces, comments and line breaks and in what stands between the
quotes of their string literals.  If they are otherwise written in the same words, then compilation
does not tell them apart: they have the same listing, or they fail in the same phase with the same
complaints at places of their own (`compile_insensitive`).
-/

namespace StackListing

/-- What is left of tokens without their places: their kinds and texts, leaving out newlines and the
texts of string literals. -/
def bareWords (tokens : List Token) : List (Kind × String) :=
  (tokens.filter (·.kind ≠ .newline)).map fun t =>
    (t.kind, if t.kind = .stringLiteral then "" else t.value)

/-- What complaints say, without the places they are about: the names of their causes and their
words. -/
def Diagnostics.said (ds : Diagnostics) : List (String × String) :=
  ds.map fun d => (d.cause.name, d.message)

/-- Places that have nothing to do with each other. -/
def anywhere (_ _ : Position) : Prop := True

/-- Tokens with the same bare words are alike, newlines apart. -/
theorem alike_of_bareWords {ts ts' : List Token} (h : bareWords ts = bareWords ts') :
    List.Forall₂ (Token.Alike anywhere) (ts.filter (·.kind ≠ .newline))
      (ts'.filter (·.kind ≠ .newline)) := by
  have hwords : List.Forall₂ Eq (bareWords ts) (bareWords ts') := by
    rw [h]
    exact List.forall₂_refl _
  rw [bareWords, bareWords, List.forall₂_map_left_iff, List.forall₂_map_right_iff] at hwords
  refine hwords.imp fun t t' htt => ?_
  obtain ⟨kind, value, p⟩ := t
  obtain ⟨kind', value', p'⟩ := t'
  obtain ⟨rfl, hvalue⟩ := Prod.ext_iff.mp htt
  refine ⟨fun hkind => ?_, trivial⟩
  simpa only [hkind, if_false] using hvalue

namespace Diagnostics.Alike

variable {ρ : Position → Position → Prop} {ds ds' : Diagnostics}

theorem said_eq (h : Diagnostics.Alike ρ ds ds') : ds.said = ds'.said := by
  induction h with
  | nil => rfl
  | cons hd _ ih =>
    have hfirst := congrArg₂ Prod.mk hd.name hd.message
    exact congrArg₂ List.cons hfirst ih

theorem eq_nil_iff (h : Diagnostics.Alike ρ ds ds') : ds = [] ↔ ds' = [] := by
  cases h <;> simp

end Diagnostics.Alike

/-- **Compilation does not depend on layout or on string contents.**  Two sources that are scanned
without complaints to the same words, newlines and the texts of string literals apart, either have
the same listing or fail in the same phase, with complaints that have the same names and the same
words in the same order. -/
theorem compile_insensitive {a b : String} (ha : (tokenize a).errors = [])
    (hb : (tokenize b).errors = [])
    (hwords : bareWords (tokenize a).tokens = bareWords (tokenize b).tokens) :
    (∃ listing, compile a = .ok listing ∧ compile b = .ok listing) ∨
    ∃ f g : Failure, compile a = .error f ∧ compile b = .error g ∧ f.phase = g.phase ∧
      f.errors.said = g.errors.said := by
  obtain ⟨hprogram, herrors⟩ : (parsed a).program.Alike anywhere (parsed b).program ∧
      Diagnostics.Alike anywhere (parsed a).errors (parsed b).errors :=
    parse_alike trivial (alike_of_bareWords hwords)
  have hcheck := hprogram.check
  rw [compile_eq a, compile_eq b, if_pos ha, if_pos hb]
  by_cases hparse : (parsed a).errors = []
  · rw [if_pos hparse, if_pos (herrors.eq_nil_iff.mp hparse)]
    by_cases hsilent : (parsed a).program.check = []
    · have hsilent' : (parsed b).program.check = [] := hcheck.eq_nil_iff.mp hsilent
      exact .inl ⟨(parsed a).program.listing, Phase.outcome_eq_ok_iff.mpr ⟨hsilent, rfl⟩,
        Phase.outcome_eq_ok_iff.mpr ⟨hsilent', hprogram.listing_eq.symm⟩⟩
    · have hfault' : (parsed b).program.check ≠ [] := mt hcheck.eq_nil_iff.mpr hsilent
      exact .inr ⟨_, _, Phase.outcome_eq_error_iff.mpr ⟨hsilent, rfl⟩,
        Phase.outcome_eq_error_iff.mpr ⟨hfault', rfl⟩, rfl, hcheck.said_eq⟩
  · rw [if_neg hparse, if_neg (mt herrors.eq_nil_iff.mpr hparse)]
    exact .inr ⟨_, _, rfl, rfl, rfl, herrors.said_eq⟩

/-- A declaration and a use of another name, on one line. -/
def onOneLine : String := "int x=\"a\";print(y);"

/-- The same words on several lines, with a comment and another text in the quotes. -/
def onSeveralLines : String := "int x = // a number\n  \"some\ntext\" ;\n\nprint ( y ) ;\n"

theorem compile_insensitive_lines : (tokenize onOneLine).errors = [] ∧
    (tokenize onSeveralLines).errors = [] ∧
    bareWords (tokenize onOneLine).tokens = bareWords (tokenize onSeveralLines).tokens ∧
    ((∃ listing, compile onOneLine = .ok listing ∧ compile onSeveralLines = .ok listing) ∨
      ∃ f g : Failure, compile onOneLine = .error f ∧ compile onSeveralLines = .error g ∧
        f.phase = g.phase ∧ f.errors.said = g.errors.said) := by
  have ha : (tokenize onOneLine).errors = [] := by decide +kernel
  have hb : (tokenize onSeveralLines).errors = [] := by decide +kernel
  have hwords : bareWords (tokenize onOneLine).tokens =
      bareWords (tokenize onSeveralLines).tokens := by decide +kernel
  exact ⟨ha, hb, hwords, compile_insensitive ha hb hwords⟩

end StackListing
