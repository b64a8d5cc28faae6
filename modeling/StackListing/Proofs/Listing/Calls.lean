import StackListing.Proofs.Listing.Definitions
import StackListing.Proofs.Listing.Places
import StackListing.Proofs.Typing.Checking

/-!
# Calls of a checked program lead somewhere

Code is made without a look at scopes: a call of a name is a call of the entry with that name, and a
call of anything else has no code at all.  The typing rules make up for it.  In a well typed program
only functions that are in scope are called, each by its name, and every function that is in scope
anywhere is declared somewhere in the program, so the listing has its entry.
-/

namespace StackListing

/-! ### Functions in scope -/

/-- **The functions in the scopes** are among the given names. -/
def Covered (names : List String) (Γ : List Scope) : Prop :=
  ∀ S ∈ Γ, ∀ d ∈ S.declarations, d.role = .function → d.name ∈ names

namespace Covered

variable {names : List String} {S P : Scope} {Γ Δ : List Scope} {d : Declaration}

theorem nil : Covered names [] := fun _ h => absurd h List.not_mem_nil

theorem cons (hS : ∀ d ∈ S.declarations, d.role = .function → d.name ∈ names)
    (hΔ : Covered names Δ) : Covered names (S :: Δ) := by
  intro S' hmem
  rcases List.mem_cons.mp hmem with rfl | hmem
  · exact hS
  · exact hΔ S' hmem

theorem head (h : Covered names (S :: Δ)) :
    ∀ d ∈ S.declarations, d.role = .function → d.name ∈ names := h S List.mem_cons_self

theorem tail (h : Covered names (S :: Δ)) : Covered names Δ :=
  fun S' hmem => h S' (List.mem_cons_of_mem S hmem)

theorem empty (h : Covered names Δ) : Covered names (.empty :: Δ) :=
  cons (fun _ hd => absurd hd List.not_mem_nil) h

theorem add (h : Covered names (S :: Δ)) (hfresh : S.Fresh d.name)
    (hd : d.role = .function → d.name ∈ names) : Covered names (S.add d hfresh :: Δ) := by
  refine cons (fun d' hmem => ?_) h.tail
  rcases List.mem_cons.mp hmem with rfl | hmem
  · exact hd
  · exact h.head d' hmem

theorem parameters {ps : List Parameter} (h : Covered names Δ)
    (hp : P.declarations = (ps.map Parameter.declaration).reverse) : Covered names (P :: Δ) := by
  refine cons (fun d hmem hrole => ?_) h
  rw [hp, List.mem_reverse] at hmem
  obtain ⟨q, -, rfl⟩ := List.mem_map.mp hmem
  cases hrole

/-- A name that means a function is one of the names. -/
theorem visible (h : Covered names Γ) (hd : Visible Γ d) (hrole : d.role = .function) :
    d.name ∈ names := by
  induction hd with
  | here hmem => exact h.head _ hmem hrole
  | outside _ _ ih => exact ih h.tail hrole

end Covered

/-! ### Linked expressions -/

/-- If the expression is a call, then of one of the given names. -/
def Expr.Linked (names : List String) : Expr → Prop
  | .call callee _ _ => ∃ name ∈ names, callee.name? = some name
  | .literal _ _ | .var _ _ | .unary _ _ _ | .binary _ _ _ _ | .assign _ _ _ => True

section Linked

variable {names : List String} {Γ : List Scope}

mutual

/-- The calls in an expression that has a type are those of functions in scope. -/
theorem HasType.linked {e : Expr} {τ : ValueType} (hΓ : Covered names Γ) :
    HasType Γ e τ → ∀ x ∈ e.parts, x.Linked names
  | .literal _ _ => by simp [Expr.parts, Expr.Linked]
  | .var _ _ => by simp [Expr.parts, Expr.Linked]
  | .unary he _ _ => List.forall_mem_cons.mpr ⟨trivial, HasType.linked hΓ he⟩
  | .binary hl hr _ _ => List.forall_mem_cons.mpr
    ⟨trivial, List.forall_mem_append.mpr ⟨HasType.linked hΓ hl, HasType.linked hΓ hr⟩⟩
  | .call hd hrole place ha _ => by
    refine List.forall_mem_cons.mpr ⟨⟨_, hΓ.visible hd hrole, rfl⟩, ?_⟩
    refine List.forall_mem_append.mpr ⟨?_, AllTyped.linked hΓ ha⟩
    simp [Expr.parts, Expr.Linked]
  | .assign _ he _ _ => List.forall_mem_cons.mpr ⟨trivial, HasType.linked hΓ he⟩

theorem AllTyped.linked {es : List Expr} (hΓ : Covered names Γ) :
    AllTyped Γ es → ∀ x ∈ Expr.partsAll es, x.Linked names
  | .nil => fun _ h => absurd h List.not_mem_nil
  | .cons he hes => List.forall_mem_append.mpr ⟨HasType.linked hΓ he, AllTyped.linked hΓ hes⟩

end

theorem linked_partsOption {e : Option Expr} (hΓ : Covered names Γ)
    (h : ∀ e' ∈ e, ∃ τ, HasType Γ e' τ) : ∀ x ∈ Expr.partsOption e, x.Linked names := by
  cases e with
  | none => exact fun _ hmem => absurd hmem List.not_mem_nil
  | some e =>
    obtain ⟨τ, he⟩ := h e rfl
    exact he.linked hΓ

end Linked

/-! ### Linked statements -/

namespace Stmt

variable {names : List String}

mutual

/-- **A well typed statement calls only functions in scope** and those that it declares itself, and
it leaves only such functions in scope. -/
theorem WellTyped.linked {Δ : List Scope} {ρ : Option ValueType} {S S' : Scope} {s : Stmt}
    (hΓ : Covered names (S :: Δ)) : s.WellTyped Δ ρ S S' → s.functionNames ⊆ names →
      Covered names (S' :: Δ) ∧ ∀ x ∈ s.parts, x.Linked names
  | .expr he, _ => ⟨hΓ, he.linked hΓ⟩
  | .print he _, _ => ⟨hΓ, he.linked hΓ⟩
  | .giveBack he _ _, _ => ⟨hΓ, he.linked hΓ⟩
  | .variableDecl hname hi _, _ => by
    refine ⟨hΓ.add hname nofun, linked_partsOption hΓ fun e he => ?_⟩
    obtain ⟨τ, ht, -⟩ := hi e he
    exact ⟨τ, ht⟩
  | .block hb _, hnames => ⟨hΓ, (AllWellTyped.linked hΓ.empty hb hnames).2⟩
  | .branch hc hy hn _, hnames => by
    obtain ⟨hyes, hno⟩ := List.append_subset.mp hnames
    obtain ⟨h₁, hy'⟩ := WellTyped.linked hΓ hy hyes
    obtain ⟨h₂, hn'⟩ := OptionWellTyped.linked h₁ hn hno
    exact ⟨h₂, List.forall_mem_append.mpr
      ⟨hc.linked hΓ, List.forall_mem_append.mpr ⟨hy', hn'⟩⟩⟩
  | .whileLoop hc hb _, hnames => by
    obtain ⟨hS', hb'⟩ := WellTyped.linked hΓ hb hnames
    exact ⟨hS', List.forall_mem_append.mpr ⟨hc.linked hΓ, hb'⟩⟩
  | .forLoop hh hc hi hb _, hnames => by
    obtain ⟨hinitial, hbody⟩ := List.append_subset.mp hnames
    obtain ⟨hH, hh'⟩ := OptionWellTyped.linked hΓ.empty hh hinitial
    obtain ⟨-, hb'⟩ := WellTyped.linked hH hb hbody
    have hc' := linked_partsOption hH fun e he => ⟨_, hc e he⟩
    exact ⟨hΓ, List.forall_mem_append.mpr ⟨hh', List.forall_mem_append.mpr
      ⟨hc', List.forall_mem_append.mpr ⟨linked_partsOption hH hi, hb'⟩⟩⟩⟩
  | .functionDecl hname hp hb _ _, hnames => by
    obtain ⟨hmem, hbody⟩ := List.cons_subset.mp hnames
    -- The name is in scope in the body, which is how a function calls itself.
    have hadd := fun result => hΓ.add (d := ⟨_, result, .function⟩) hname fun _ => hmem
    exact ⟨hadd _, (AllWellTyped.linked ((hadd _).parameters hp).empty hb hbody).2⟩

theorem AllWellTyped.linked {Δ : List Scope} {ρ : Option ValueType} {S S' : Scope}
    {ss : List Stmt} (hΓ : Covered names (S :: Δ)) : AllWellTyped Δ ρ S ss S' →
      functionNamesAll ss ⊆ names → Covered names (S' :: Δ) ∧ ∀ x ∈ partsAll ss, x.Linked names
  | .nil, _ => ⟨hΓ, fun _ h => absurd h List.not_mem_nil⟩
  | .cons hs hr, hnames => by
    obtain ⟨hfirst, hrest⟩ := List.append_subset.mp hnames
    obtain ⟨h₁, hs'⟩ := WellTyped.linked hΓ hs hfirst
    obtain ⟨h₂, hr'⟩ := AllWellTyped.linked h₁ hr hrest
    exact ⟨h₂, List.forall_mem_append.mpr ⟨hs', hr'⟩⟩

theorem OptionWellTyped.linked {Δ : List Scope} {ρ : Option ValueType} {S S' : Scope}
    {s : Option Stmt} (hΓ : Covered names (S :: Δ)) : OptionWellTyped Δ ρ S s S' →
      functionNamesOption s ⊆ names →
        Covered names (S' :: Δ) ∧ ∀ x ∈ partsOption s, x.Linked names
  | .none, _ => ⟨hΓ, fun _ h => absurd h List.not_mem_nil⟩
  | .some hs, hnames => WellTyped.linked hΓ hs hnames

end

end Stmt

/-! ### Programs -/

namespace Program

/-- Every call in a program without complaints is one of a function that the program declares. -/
theorem linked_of_check {p : Program} (h : p.check = []) :
    ∀ x ∈ p.parts, x.Linked p.functionNames := by
  have hempty : Context.empty = .ofScopes none .empty [] := rfl
  rw [check, hempty] at h
  obtain ⟨S, hs, -⟩ := Stmt.checkAll_sound p.statements h
  exact (hs.linked Covered.nil.empty (List.Subset.refl _)).2

/-- **The calls of a checked program lead somewhere.**  Every call in a program without complaints
is one of a name, so that none is left out of the listing.  Every call in the listing is one of a
function whose entry is in the listing too, unless it is the call of a print statement, behind the
value that it prints, or the call of `main` behind the start. -/
theorem calls_resolved {p : Program} (h : p.check = []) :
    (∀ callee arguments position, .call callee arguments position ∈ p.parts →
      ∃ name, callee.name? = some name ∧ .entry name ∈ p.code 0) ∧
    ∀ before after name remark, p.code 0 = before ++ .code (.call name) remark :: after →
      .entry name ∈ p.code 0 ∨
      (∃ front n e position rear, p.Emits front n (.print e position) rear ∧
        before = front ++ printFront n e ∧ name = "print_int") ∨
      before = header ++ Stmt.codeAll 0 p.statements ++ [.blank, .raw "_start:"] ∧
        name = "main" := by
  have hcalls : ∀ callee arguments position, .call callee arguments position ∈ p.parts →
      ∃ name, callee.name? = some name ∧ .entry name ∈ p.code 0 := by
    intro callee arguments position hmem
    obtain ⟨name, hname, hcallee⟩ := linked_of_check h _ hmem
    exact ⟨name, hcallee, p.entry_mem_code_iff.mpr hname⟩
  refine ⟨hcalls, fun before after name remark hcode => ?_⟩
  rcases call_cases ⟨after, hcode⟩ with ⟨callee, arguments, position, hmem, hname⟩ | hfixed
  · obtain ⟨name', hname', hentry⟩ := hcalls callee arguments position hmem
    rw [hname] at hname'
    obtain rfl := Option.some.inj hname'
    exact .inl hentry
  · exact .inr hfixed

theorem calls_resolved_nested : (parsed nestedSource).program.check = [] ∧
    .plain (.call "twice") ∈ (parsed nestedSource).program.code 0 ∧
    .entry "twice" ∈ (parsed nestedSource).program.code 0 := by
  have hcheck : (parsed nestedSource).program.check = [] := by decide +kernel
  have hmem : .plain (.call "twice") ∈ (parsed nestedSource).program.code 0 := by decide +kernel
  obtain ⟨before, after, hcode⟩ := List.append_of_mem hmem
  refine ⟨hcheck, hmem, ?_⟩
  rcases (calls_resolved hcheck).2 before after "twice" none hcode with
    hentry | ⟨-, -, -, -, -, -, -, hname⟩ | ⟨-, hname⟩
  · exact hentry
  · exact absurd hname (by decide)
  · exact absurd hname (by decide)

end Program

end StackListing
