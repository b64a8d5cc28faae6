import StackListing.Proofs.Phases.Categories

/-!
# A failure comes from one phase

Compilation stops at the first phase that has something to report.  So it returns a listing exactly
if no phase reports anything, and otherwise fails with all reports of that phase and with nothing
else.  What a phase reports is said here without the gates: as if every phase ran, each on what the
one before it made of the source.
-/

namespace StackListing

namespace Phase

/-- The place of a phase in the order in which they run. -/
def rank : Phase → Nat
  | scanning => 0
  | parsing => 1
  | checking => 2
  | generation => 3

end Phase

/-- What the parser makes of a source, with its complaints. -/
def parsed (source : String) : ParseResult := parse (tokenize source).tokens

/-- What a phase reports about a source when no gate stops it. -/
def Phase.reports (source : String) : Phase → Diagnostics
  | scanning => (tokenize source).errors
  | parsing => (parsed source).errors
  | checking => (parsed source).program.check
  | generation => []

/-- A gate lets a result through if there are no complaints about it. -/
theorem Phase.outcome_bind {α β : Type} (phase : Phase) (errors : Diagnostics) (result : α)
    (f : α → Except Failure β) :
    (phase.outcome errors result >>= f) =
      if errors = [] then f result else .error ⟨phase, errors⟩ := by
  cases errors <;> rfl

/-- Compilation with its gates written out: the three phases that can complain, in order. -/
theorem compile_eq (source : String) : compile source =
    if (tokenize source).errors = [] then
      if (parsed source).errors = [] then
        Phase.checking.outcome (parsed source).program.check (parsed source).program.listing
      else .error ⟨.parsing, (parsed source).errors⟩
    else .error ⟨.scanning, (tokenize source).errors⟩ := by
  unfold compile parseSource scanSource
  rw [bind_assoc, Phase.outcome_bind, Phase.outcome_bind]
  rfl

theorem compile_eq_ok_iff {source listing : String} :
    compile source = .ok listing ↔
      (∀ phase : Phase, phase.reports source = []) ∧ listing = (parsed source).program.listing := by
  rw [compile_eq]
  constructor
  · intro h
    split_ifs at h with hscan hparse
    obtain ⟨hcheck, hlisting⟩ := Phase.outcome_eq_ok_iff.mp h
    refine ⟨fun phase => ?_, hlisting.symm⟩
    cases phase with
    | scanning => exact hscan
    | parsing => exact hparse
    | checking => exact hcheck
    | generation => rfl
  · rintro ⟨hsilent, rfl⟩
    have hscan : (tokenize source).errors = [] := hsilent .scanning
    have hparse : (parsed source).errors = [] := hsilent .parsing
    have hcheck : (parsed source).program.check = [] := hsilent .checking
    rw [if_pos hscan, if_pos hparse]
    exact Phase.outcome_eq_ok_iff.mpr ⟨hcheck, rfl⟩

/-- A source about which no phase complains is accepted. -/
theorem compile_of_silent {source : String} (hscan : (tokenize source).errors = [])
    (hparse : (parsed source).errors = []) (hcheck : (parsed source).program.check = []) :
    compile source = .ok (parsed source).program.listing := by
  refine compile_eq_ok_iff.mpr ⟨fun phase => ?_, rfl⟩
  cases phase with
  | scanning => exact hscan
  | parsing => exact hparse
  | checking => exact hcheck
  | generation => rfl

theorem compile_eq_error_iff {source : String} {f : Failure} :
    compile source = .error f ↔ f.errors = f.phase.reports source ∧ f.errors ≠ [] ∧
      ∀ phase : Phase, phase.rank < f.phase.rank → phase.reports source = [] := by
  obtain ⟨phase, errors⟩ := f
  rw [compile_eq]
  constructor
  · intro h
    split_ifs at h with hscan hparse
    · obtain ⟨hne, hf⟩ := Phase.outcome_eq_error_iff.mp h
      cases hf
      refine ⟨rfl, hne, fun phase (hlt : phase.rank < 2) => ?_⟩
      cases phase with
      | scanning => exact hscan
      | parsing => exact hparse
      | checking => exact absurd hlt (by decide)
      | generation => rfl
    · cases h
      refine ⟨rfl, hparse, fun phase (hlt : phase.rank < 1) => ?_⟩
      cases phase with
      | scanning => exact hscan
      | parsing => exact absurd hlt (by decide)
      | checking => exact absurd hlt (by decide)
      | generation => rfl
    · cases h
      exact ⟨rfl, hscan, fun phase hlt => absurd hlt (Nat.not_lt_zero _)⟩
  · rintro ⟨herrors, hne, hearlier⟩
    dsimp only at herrors hne hearlier
    subst herrors
    cases phase with
    | scanning => exact if_neg hne
    | parsing =>
      have hscan : (tokenize source).errors = [] := hearlier .scanning (by decide)
      rw [if_pos hscan]
      exact if_neg hne
    | checking =>
      have hscan : (tokenize source).errors = [] := hearlier .scanning (by decide)
      have hparse : (parsed source).errors = [] := hearlier .parsing (by decide)
      rw [if_pos hscan, if_pos hparse]
      exact Phase.outcome_eq_error_iff.mpr ⟨hne, rfl⟩
    | generation => exact absurd rfl hne

/-- Whether or not a gate would stop it, a phase reports faults of its own categories only. -/
theorem Phase.reports_covers (source : String) (phase : Phase) :
    phase.Covers (phase.reports source) := by
  cases phase with
  | scanning => exact tokenize_covers source
  | parsing => exact parse_covers _
  | checking => exact Program.check_covers _
  | generation => exact Phase.covers_nil

/-- **Phases are gated and keep to their categories.**  There is a listing, that of the parsed
program, exactly if no phase has anything to report.  A failure names the first phase that has, and
carries all its reports in order; they are of the categories of that phase.  Generation never fails,
and no phase complains about the number of arguments. -/
theorem compile_gated (source : String) :
    (∀ listing, compile source = .ok listing ↔
      (∀ phase : Phase, phase.reports source = []) ∧
        listing = (parsed source).program.listing) ∧
    (∀ f : Failure, compile source = .error f ↔
      f.errors = f.phase.reports source ∧ f.errors ≠ [] ∧
        ∀ phase : Phase, phase.rank < f.phase.rank → phase.reports source = []) ∧
    (∀ phase : Phase, ∀ d ∈ phase.reports source, d.category ∈ phase.categories) ∧
    (∀ errors, compile source ≠ .error ⟨.generation, errors⟩) ∧
    ∀ phase : Phase, ∀ d ∈ phase.reports source, d.category ≠ .argumentMismatch := by
  refine ⟨fun listing => compile_eq_ok_iff, fun f => compile_eq_error_iff,
    fun phase => phase.reports_covers source, fun errors h => ?_, fun phase d hd hk => ?_⟩
  · obtain ⟨herrors, hne, -⟩ := compile_eq_error_iff.mp h
    exact hne herrors
  · have hmem := phase.reports_covers source d hd
    rw [hk] at hmem
    cases phase <;> simp [Phase.categories] at hmem

end StackListing
