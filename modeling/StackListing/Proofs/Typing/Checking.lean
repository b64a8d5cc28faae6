import Mathlib.Data.List.Nodup
import StackListing.Proofs.Symbols.Arena
import StackListing.Proofs.Typing.Rules
import StackListing.Stmt.Check

/-!
# Checking decides the typing rules

A symbol table holds the declarations of all open scopes, the innermost scope last;
`SymbolTable.ofScopes` is the table of given scopes.  Inference and checking, begun with the table
of some scopes, report nothing exactly where the rules hold (`infer_sound` and `HasType.infer`,
`check_sound` and `WellTyped.check`), and they end with the table of the scopes that the rules
leave.  It follows that a program is checked without complaint if and only if it is well typed.
-/

namespace StackListing

/-! ### The table of nested scopes -/

namespace SymbolTable

/-- The scope at place `i` of a table: its symbols carry its level. -/
def frameOf (S : Scope) (i : Nat) : Frame :=
  ⟨S.declarations.map fun d => (d.name, ⟨d.name, d.type, d.role, i⟩), outer i, i⟩

/-- Nested scopes as a table holds them, the innermost last. -/
def framesOf : List Scope → List Frame
  | [] => []
  | S :: Δ => framesOf Δ ++ [frameOf S Δ.length]

/-- **The table of nested scopes,** of which the first is the current one. -/
def ofScopes (Γ : List Scope) : SymbolTable := ⟨framesOf Γ, Γ.length - 1⟩

theorem length_framesOf : ∀ Γ : List Scope, (framesOf Γ).length = Γ.length
  | [] => rfl
  | S :: Δ => by simp [framesOf, length_framesOf Δ]

variable {S B : Scope} {Δ Γ : List Scope} {d : Declaration} {name : String}

theorem ofScopes_cons :
    ofScopes (S :: Δ) = ⟨framesOf Δ ++ [frameOf S Δ.length], (framesOf Δ).length⟩ := by
  rw [length_framesOf]
  rfl

theorem enter_ofScopes : (ofScopes (S :: Δ)).enter = ofScopes (.empty :: S :: Δ) := by
  rw [ofScopes_cons, enter_concat, ofScopes_cons, length_framesOf]
  rfl

theorem leave_ofScopes : (ofScopes (B :: S :: Δ)).leave = ofScopes (S :: Δ) := by
  have hparent : (frameOf B (Δ.length + 1)).parent = some Δ.length := rfl
  rw [ofScopes_cons]
  exact leave_concat hparent

theorem find?_frameOf (S : Scope) (i : Nat) (name : String) : (frameOf S i).find? name =
    (S.declarations.find? fun d => decide (d.name = name)).map fun d =>
      Symbol.mk d.name d.type d.role i := by
  unfold Frame.find? frameOf
  dsimp only
  induction S.declarations with
  | nil => rfl
  | cons d ds ih =>
    rw [List.map_cons, List.lookup_cons, List.find?_cons]
    by_cases h : d.name = name
    · simp [h]
    · have h' : (name == d.name) = false := beq_false_of_ne (Ne.symm h)
      simp only [h', h, decide_false, ih]

/-- The current scope has a name exactly if the name is not fresh. -/
theorem definedHere_ofScopes :
    (ofScopes (S :: Δ)).definedHere name = false ↔ S.Fresh name := by
  rw [ofScopes_cons, definedHere, frame_concat, find?_frameOf, Option.isSome_map,
    Option.isSome_eq_false_iff, Option.isNone_iff_eq_none, List.find?_eq_none]
  simp only [Scope.Fresh, decide_eq_true_eq, ne_eq]

theorem declare_ofScopes (h : S.Fresh d.name) (position : Position) :
    (ofScopes (S :: Δ)).declare d.name d.type d.role position =
      .ok (ofScopes (S.add d h :: Δ)) := by
  unfold declare
  rw [definedHere_ofScopes.mpr h, ofScopes_cons, insert_concat, ofScopes_cons]
  rfl

/-- The scopes of a table stand at their places. -/
theorem framesOf_stands {i : Nat} {f : Frame} : ∀ {Γ : List Scope},
    (framesOf Γ)[i]? = some f → f.StandsAt i
  | S :: Δ, hf => by
    rw [framesOf, List.getElem?_append] at hf
    split_ifs at hf with hi
    · exact framesOf_stands hf
    · obtain ⟨hi', rfl⟩ := List.getElem?_eq_some_iff.mp hf
      rw [List.length_singleton, length_framesOf] at hi'
      rw [length_framesOf] at hi
      obtain rfl : i = Δ.length := by omega
      simp only [length_framesOf, Nat.sub_self, List.getElem_cons_zero]
      refine ⟨rfl, rfl, fun e he => ?_⟩
      obtain ⟨d, -, rfl⟩ := List.mem_map.mp he
      exact ⟨rfl, rfl⟩

theorem arena_ofScopes : (ofScopes (S :: Δ)).Arena :=
  ⟨(length_framesOf (S :: Δ)).symm, fun _ _ => framesOf_stands⟩

theorem lookup_ofScopes : ∀ Γ : List Scope,
    (ofScopes Γ).lookup? name = (framesOf Γ).reverse.findSome? (·.find? name)
  | [] => rfl
  | _ :: _ => arena_ofScopes.lookup?_eq name

/-- A name is looked for in the current scope first. -/
theorem lookup_cons : (ofScopes (S :: Δ)).lookup? name =
    ((S.declarations.find? fun d => decide (d.name = name)).map fun d =>
      Symbol.mk d.name d.type d.role Δ.length).or ((ofScopes Δ).lookup? name) := by
  rw [lookup_ofScopes, lookup_ofScopes, framesOf, List.reverse_append, List.reverse_singleton,
    List.singleton_append, List.findSome?_cons, find?_frameOf]
  cases S.declarations.find? fun d => decide (d.name = name) <;> rfl

/-- What a table finds for a name is the visible declaration. -/
theorem visible_of_lookup {s : Symbol} :
    ∀ {Γ : List Scope}, (ofScopes Γ).lookup? name = some s → Visible Γ ⟨name, s.type, s.role⟩
  | [], h => by cases h
  | S :: Δ, h => by
    rw [lookup_cons, Option.or_eq_some_iff, Option.map_eq_some_iff, Option.map_eq_none_iff] at h
    rcases h with ⟨d, hd, rfl⟩ | ⟨hnone, h⟩
    · obtain rfl : d.name = name := by simpa using List.find?_some hd
      exact .here (List.mem_of_find?_eq_some hd)
    · refine .outside (fun d hd => ?_) (visible_of_lookup h)
      simpa using List.find?_eq_none.mp hnone d hd

/-- The visible declaration of a name is what a table finds. -/
theorem lookup_of_visible (h : Visible Γ d) :
    ∃ l, (ofScopes Γ).lookup? d.name = some ⟨d.name, d.type, d.role, l⟩ := by
  induction h with
  | @here S Δ d hd =>
    have hsome : (S.declarations.find? fun d' => decide (d'.name = d.name)).isSome :=
      List.find?_isSome.mpr ⟨d, hd, decide_eq_true rfl⟩
    obtain ⟨d', hd'⟩ := Option.isSome_iff_exists.mp hsome
    have hname : d'.name = d.name := by simpa using List.find?_some hd'
    obtain rfl := List.inj_on_of_nodup_map S.nodup (List.mem_of_find?_eq_some hd') hd hname
    exact ⟨Δ.length, by rw [lookup_cons, hd']; rfl⟩
  | @outside S Δ d hfresh hd ih =>
    obtain ⟨l, hl⟩ := ih
    have hnone : (S.declarations.find? fun d' => decide (d'.name = d.name)) = none :=
      List.find?_eq_none.mpr fun d' hd' => by simpa using hfresh d' hd'
    exact ⟨l, by rw [lookup_cons, hnone, hl]; rfl⟩

end SymbolTable

/-! ### Operators -/

theorem isNumeric_iff {τ : ValueType} : τ.isNumeric = true ↔ Numeric τ := by
  constructor
  · cases τ <;> simp [ValueType.isNumeric] <;> constructor
  · rintro (_ | _) <;> rfl

theorem accepts_iff_fits {σ τ : ValueType} : σ.accepts τ = true ↔ Fits σ τ := by
  rw [ValueType.accepts_iff]
  constructor
  · rintro (rfl | ⟨rfl, rfl⟩)
    · exact .same σ
    · exact .widened
  · rintro (_ | _)
    · exact .inl rfl
    · exact .inr ⟨rfl, rfl⟩

theorem BinaryOp.resultType?_eq_some_iff {op : BinaryOp} {σ τ ρ : ValueType} :
    op.resultType? σ τ = some ρ ↔ op.Takes σ τ ρ := by
  constructor
  · intro h
    cases op <;> simp only [resultType?, Option.ite_none_right_eq_some, Bool.and_eq_true,
      decide_eq_true_eq, Option.some.injEq, isNumeric_iff, accepts_iff_fits] at h
    case add | subtract | multiply | divide | modulo =>
      obtain ⟨⟨hσ, hτ⟩, rfl⟩ := h
      exact .arithmetic (by decide) hσ hτ
    case less | lessEqual | greater | greaterEqual =>
      obtain ⟨⟨hσ, hτ⟩, rfl⟩ := h
      exact .relational (by decide) hσ hτ
    case equal | notEqual =>
      obtain ⟨h, rfl⟩ := h
      exact .equality (by decide) h
    case and | or =>
      obtain ⟨⟨rfl, rfl⟩, rfl⟩ := h
      exact .logical (by decide)
  · intro h
    cases h with
    | arithmetic hop hσ hτ =>
      rw [← isNumeric_iff] at hσ hτ
      cases op <;> simp at hop <;> simp [resultType?, hσ, hτ]
    | relational hop hσ hτ =>
      rw [← isNumeric_iff] at hσ hτ
      cases op <;> simp at hop <;> simp [resultType?, hσ, hτ]
    | equality hop h =>
      rw [← accepts_iff_fits] at h
      cases op <;> simp at hop <;> simp [resultType?, h]
    | logical hop => cases op <;> simp at hop <;> rfl

theorem UnaryOp.resultType?_eq_some_iff {op : UnaryOp} {σ ρ : ValueType} :
    op.resultType? σ = some ρ ↔ op.Takes σ ρ := by
  constructor
  · intro h
    cases op <;> simp only [resultType?, Option.ite_none_right_eq_some, Option.some.injEq,
      isNumeric_iff] at h
    case negate =>
      obtain ⟨h, rfl⟩ := h
      exact .negate h
    case not =>
      obtain ⟨rfl, rfl⟩ := h
      exact .not
  · rintro (⟨h⟩ | _)
    · simp [resultType?, isNumeric_iff.mpr h]
    · rfl

theorem mismatch_eq_nil_iff {cause : String → String → Cause} {expected τ : ValueType}
    {position : Position} :
    Inference.mismatch cause expected position (some τ) = [] ↔ Fits expected τ := by
  rw [← accepts_iff_fits]
  simp [Inference.mismatch]

/-! ### Expressions -/

variable {Γ : List Scope}

namespace Expr

open SymbolTable

theorem name?_eq_some {e : Expr} {name : String} (h : e.name? = some name) :
    ∃ position, e = .var name position := by
  cases e <;> simp [name?] at h
  subst h
  exact ⟨_, rfl⟩

mutual

/-- Where inference reports nothing it finds a type, and the rules give the same. -/
theorem infer_sound : ∀ e : Expr, (e.infer (ofScopes Γ)).errors = [] →
    ∃ τ, (e.infer (ofScopes Γ)).type? = some τ ∧ HasType Γ e τ
  | literal value position, _ => ⟨value.type, rfl, .literal value position⟩
  | var name position, h => by
    unfold infer at h ⊢
    cases hs : (ofScopes Γ).lookup? name with
    | none => simp [hs, Inference.failure] at h
    | some s => exact ⟨s.type, rfl, .var (visible_of_lookup hs) position⟩
  | unary op operand position, h => by
    unfold infer at h ⊢
    dsimp only at h ⊢
    cases hσ : (operand.infer (ofScopes Γ)).type? with
    | none =>
      simp only [hσ] at h
      obtain ⟨σ, hσ', -⟩ := infer_sound operand h
      exact absurd (hσ.symm.trans hσ') nofun
    | some σ =>
      cases hρ : op.resultType? σ with
      | none => simp [hσ, hρ] at h
      | some ρ =>
        simp only [hσ, hρ] at h ⊢
        obtain ⟨σ', hσ', he⟩ := infer_sound operand h
        obtain rfl := Option.some.inj (hσ.symm.trans hσ')
        exact ⟨ρ, rfl, .unary he (UnaryOp.resultType?_eq_some_iff.mp hρ) position⟩
  | binary op left right position, h => by
    have hparts : (left.infer (ofScopes Γ)).errors = [] ∧
        (right.infer (ofScopes Γ)).errors = [] := by
      rw [← List.append_eq_nil_iff]
      unfold infer at h
      dsimp only at h
      split at h
      · split at h
        · exact h
        · exact (List.append_eq_nil_iff.mp h).1
      · exact h
    obtain ⟨σ, hσ, hl⟩ := infer_sound left hparts.1
    obtain ⟨τ, hτ, hr⟩ := infer_sound right hparts.2
    unfold infer at h ⊢
    dsimp only at h ⊢
    cases hρ : op.resultType? σ τ with
    | none => simp [hσ, hτ, hρ] at h
    | some ρ =>
      simp only [hσ, hτ, hρ]
      exact ⟨ρ, rfl, .binary hl hr (BinaryOp.resultType?_eq_some_iff.mp hρ) position⟩
  | call callee arguments position, h => by
    unfold infer at h ⊢
    cases hname : callee.name? with
    | none => simp [hname, Inference.failure] at h
    | some name =>
      cases hs : (ofScopes Γ).lookup? name with
      | none => simp [hname, hs, Inference.failure] at h
      | some s =>
        by_cases hrole : s.role = .function
        · simp only [hname, hs, if_pos hrole] at h ⊢
          obtain ⟨place, rfl⟩ := name?_eq_some hname
          exact ⟨s.type, rfl, .call (visible_of_lookup hs) hrole place
            (inferAll_sound arguments h) position⟩
        · simp [hname, hs, hrole, Inference.failure] at h
  | assign name value position, h => by
    unfold infer at h ⊢
    cases hs : (ofScopes Γ).lookup? name with
    | none => simp [hs, Inference.failure] at h
    | some s =>
      simp only [hs] at h ⊢
      obtain ⟨h1, h2⟩ := List.append_eq_nil_iff.mp h
      obtain ⟨τ, hτ, he⟩ := infer_sound value h1
      rw [hτ, mismatch_eq_nil_iff] at h2
      exact ⟨s.type, rfl, .assign (visible_of_lookup hs) he h2 position⟩

theorem inferAll_sound : ∀ es : List Expr, inferAll (ofScopes Γ) es = [] → AllTyped Γ es
  | [], _ => .nil
  | e :: es, h => by
    obtain ⟨h1, h2⟩ := List.append_eq_nil_iff.mp h
    obtain ⟨τ, -, he⟩ := infer_sound e h1
    exact .cons he (inferAll_sound es h2)

end

end Expr

mutual

/-- Where the rules give a type, inference finds it and reports nothing. -/
theorem HasType.infer {e : Expr} {τ : ValueType} :
    HasType Γ e τ → e.infer (.ofScopes Γ) = ⟨some τ, []⟩
  | .literal value position => rfl
  | .var hd position => by
    obtain ⟨l, hl⟩ := SymbolTable.lookup_of_visible hd
    simp only [Expr.infer, hl]
  | .unary he hop position => by
    simp only [Expr.infer, HasType.infer he, UnaryOp.resultType?_eq_some_iff.mpr hop]
  | .binary hl hr hop position => by
    simp only [Expr.infer, HasType.infer hl, HasType.infer hr,
      BinaryOp.resultType?_eq_some_iff.mpr hop, List.append_nil]
  | .call hd hrole place ha position => by
    obtain ⟨l, hl⟩ := SymbolTable.lookup_of_visible hd
    simp only [Expr.infer, Expr.name?, hl, hrole, if_true, AllTyped.inferAll ha]
  | .assign hd he hτ position => by
    obtain ⟨l, hl⟩ := SymbolTable.lookup_of_visible hd
    simp only [Expr.infer, hl, HasType.infer he, mismatch_eq_nil_iff.mpr hτ, List.append_nil]

theorem AllTyped.inferAll {es : List Expr} : AllTyped Γ es → Expr.inferAll (.ofScopes Γ) es = []
  | .nil => rfl
  | .cons he hes => by
    rw [Expr.inferAll, HasType.infer he, AllTyped.inferAll hes, List.append_nil]

end

/-- **Inference reports nothing exactly if the expression has a type.** -/
theorem infer_errors_eq_nil_iff {e : Expr} :
    (e.infer (.ofScopes Γ)).errors = [] ↔ ∃ τ, HasType Γ e τ := by
  constructor
  · intro h
    obtain ⟨τ, -, he⟩ := e.infer_sound h
    exact ⟨τ, he⟩
  · rintro ⟨τ, he⟩
    rw [he.infer]

/-! ### Contexts -/

namespace Context

/-- The context in the scope `S` inside `Δ`, in a function that gives back `ρ` or in none. -/
def ofScopes (ρ : Option ValueType) (S : Scope) (Δ : List Scope) : Context :=
  ⟨.ofScopes (S :: Δ), ρ.isSome, ρ⟩

variable {ρ : Option ValueType} {S B : Scope} {Δ : List Scope}

theorem table_ofScopes : (ofScopes ρ S Δ).table = .ofScopes (S :: Δ) := rfl

theorem enter_ofScopes : (ofScopes ρ S Δ).enter = ofScopes ρ .empty (S :: Δ) := by
  rw [enter, ofScopes, SymbolTable.enter_ofScopes]
  rfl

theorem leave_ofScopes : (ofScopes ρ B (S :: Δ)).leave = ofScopes ρ S Δ := by
  rw [leave, ofScopes, SymbolTable.leave_ofScopes]
  rfl

theorem enterFunction_ofScopes {result : ValueType} :
    (ofScopes ρ S Δ).enterFunction result = ofScopes (some result) .empty (S :: Δ) := by
  rw [enterFunction, enter_ofScopes]
  rfl

theorem declare_of_fresh {name : String} (h : S.Fresh name) (type : ValueType) (role : Role)
    (position : Position) : (ofScopes ρ S Δ).declare name type role position =
      ⟨ofScopes ρ (S.add ⟨name, type, role⟩ h) Δ, []⟩ := by
  have := SymbolTable.declare_ofScopes (S := S) (Δ := Δ) (d := ⟨name, type, role⟩) h position
  simp only [declare, ofScopes, this]

theorem fresh_of_declare {name : String} {type : ValueType} {role : Role} {position : Position}
    (h : ((ofScopes ρ S Δ).declare name type role position).errors = []) : S.Fresh name := by
  rw [← SymbolTable.definedHere_ofScopes (Δ := Δ)]
  by_contra hdef
  rw [Bool.not_eq_false] at hdef
  simp [declare, ofScopes, SymbolTable.declare, hdef] at h

/-- Parameters are declared without complaint exactly if they make a scope. -/
theorem declareAll_sound : ∀ {S : Scope} (ps : List Parameter),
    ((ofScopes ρ S Δ).declareAll ps).errors = [] → ∃ P : Scope,
      P.declarations = (ps.map Parameter.declaration).reverse ++ S.declarations ∧
        ((ofScopes ρ S Δ).declareAll ps).context = ofScopes ρ P Δ
  | S, [], _ => ⟨S, rfl, rfl⟩
  | S, p :: ps, h => by
    obtain ⟨h1, h2⟩ := List.append_eq_nil_iff.mp h
    have hfresh := fresh_of_declare h1
    rw [declare_of_fresh hfresh] at h2
    obtain ⟨P, hP, hc⟩ := declareAll_sound ps h2
    refine ⟨P, ?_, ?_⟩
    · rw [hP, List.map_cons, List.reverse_cons, List.append_assoc]
      rfl
    · rw [declareAll, declare_of_fresh hfresh]
      exact hc

theorem declareAll_complete {P : Scope} : ∀ {S : Scope} (ps : List Parameter),
    P.declarations = (ps.map Parameter.declaration).reverse ++ S.declarations →
      (ofScopes ρ S Δ).declareAll ps = ⟨ofScopes ρ P Δ, []⟩
  | S, [], h => by
    obtain rfl : P = S := Scope.ext h
    rfl
  | S, p :: ps, h => by
    rw [List.map_cons, List.reverse_cons, List.append_assoc] at h
    have hnodup := P.nodup
    rw [h, List.map_append, List.nodup_append, List.map_append, List.map_cons, List.map_nil,
      List.singleton_append, List.nodup_cons] at hnodup
    have hfresh : S.Fresh p.name := fun d hd hname =>
      hnodup.2.1.1 (List.mem_map.mpr ⟨d, hd, hname⟩)
    rw [declareAll, declare_of_fresh hfresh]
    dsimp only
    rw [declareAll_complete ps h]
    rfl

theorem checkCondition_eq_nil_iff {construct : String} {c : Expr} :
    (ofScopes ρ S Δ).checkCondition construct c = [] ↔ HasType (S :: Δ) c .bool := by
  constructor
  · intro h
    obtain ⟨h1, h2⟩ := List.append_eq_nil_iff.mp h
    obtain ⟨τ, hτ, hc⟩ := Expr.infer_sound c h1
    simp only [ofScopes, hτ] at h2
    by_cases hbool : τ = .bool
    · exact hbool ▸ hc
    · simp [hbool] at h2
  · intro h
    simp only [checkCondition, ofScopes, h.infer, if_true, List.append_nil]

theorem checkInitial_eq_nil_iff {type : ValueType} {position : Position} {initial : Option Expr} :
    (ofScopes ρ S Δ).checkInitial type position initial = [] ↔
      ∀ e ∈ initial, ∃ τ, HasType (S :: Δ) e τ ∧ Fits type τ := by
  cases initial with
  | none => exact ⟨fun _ => nofun, fun _ => rfl⟩
  | some e =>
    constructor
    · rintro h _ ⟨⟩
      obtain ⟨h1, h2⟩ := List.append_eq_nil_iff.mp h
      obtain ⟨τ, hτ, he⟩ := Expr.infer_sound e h1
      simp only [ofScopes, hτ, mismatch_eq_nil_iff] at h2
      exact ⟨τ, he, h2⟩
    · intro h
      obtain ⟨τ, he, hτ⟩ := h e rfl
      simp only [checkInitial, ofScopes, he.infer, mismatch_eq_nil_iff.mpr hτ, List.append_nil]

theorem checkHeader_eq_nil_iff {c i : Option Expr} : (ofScopes ρ S Δ).checkHeader c i = [] ↔
    (∀ e ∈ c, HasType (S :: Δ) e .bool) ∧ ∀ e ∈ i, ∃ τ, HasType (S :: Δ) e τ := by
  unfold checkHeader
  rw [List.append_eq_nil_iff]
  refine and_congr ?_ ?_
  · cases c with
    | none => exact ⟨fun _ => nofun, fun _ => rfl⟩
    | some e =>
      refine checkCondition_eq_nil_iff.trans ⟨?_, fun h => h e rfl⟩
      rintro h _ ⟨⟩
      exact h
  · cases i with
    | none => exact ⟨fun _ => nofun, fun _ => rfl⟩
    | some e =>
      refine infer_errors_eq_nil_iff.trans ⟨?_, fun h => h e rfl⟩
      rintro h _ ⟨⟩
      exact h

theorem checkGiveBack_eq_nil_iff {position : Position} {value : Option Expr} :
    (ofScopes ρ S Δ).checkGiveBack position value = [] ↔
      ∃ e type τ, value = some e ∧ ρ = some type ∧ HasType (S :: Δ) e τ ∧ Fits type τ := by
  constructor
  · intro h
    cases ρ with
    | none => simp [checkGiveBack, ofScopes] at h
    | some type =>
      cases value with
      | none => simp [checkGiveBack, ofScopes] at h
      | some e =>
        obtain ⟨h1, h2⟩ := List.append_eq_nil_iff.mp h
        obtain ⟨τ, hτ, he⟩ := Expr.infer_sound e h1
        simp only [ofScopes, hτ, mismatch_eq_nil_iff] at h2
        exact ⟨e, type, τ, rfl, rfl, he, h2⟩
  · rintro ⟨e, type, τ, rfl, rfl, he, hτ⟩
    simp [checkGiveBack, ofScopes, he.infer, mismatch_eq_nil_iff.mpr hτ]

end Context

/-! ### Statements -/

namespace Stmt

open Context

variable {Δ : List Scope} {ρ : Option ValueType} {S : Scope} {name : String}

theorem definedHere_of_not_fresh (h : ¬ S.Fresh name) :
    (ofScopes ρ S Δ).table.definedHere name = true :=
  Bool.not_eq_false _ ▸ mt SymbolTable.definedHere_ofScopes.mp h

theorem check_variableDecl (hname : S.Fresh name) {type : ValueType} {initial : Option Expr}
    {position : Position} : check (ofScopes ρ S Δ) (variableDecl type name initial position) =
      ⟨ofScopes ρ (S.add ⟨name, type, .var⟩ hname) Δ,
        (ofScopes ρ S Δ).checkInitial type position initial⟩ := by
  have hdef : (ofScopes ρ S Δ).table.definedHere name = false :=
    SymbolTable.definedHere_ofScopes.mpr hname
  simp only [check, hdef, declare_of_fresh hname, List.append_nil]
  rfl

/-- What checking a function of a new name comes to. -/
theorem check_functionDecl (hname : S.Fresh name) {result : ValueType}
    {parameters : List Parameter} {body : List Stmt} {bodyPosition position : Position} :
    check (ofScopes ρ S Δ) (functionDecl result name parameters body bodyPosition position) =
      let header := (ofScopes (some result) .empty
        (S.add ⟨name, result, .function⟩ hname :: Δ)).declareAll parameters
      let inner := checkAll header.context.enter body
      ⟨{ inner.context.leave.leave with inFunction := ρ.isSome, result? := ρ },
        header.errors ++ inner.errors⟩ := by
  have hdef : (ofScopes ρ S Δ).table.definedHere name = false :=
    SymbolTable.definedHere_ofScopes.mpr hname
  simp only [check, hdef, declare_of_fresh hname, enterFunction_ofScopes]
  rfl

mutual

/-- Where checking reports nothing, the rules hold, and it ends in the scope that they leave. -/
theorem check_sound {Δ : List Scope} {ρ : Option ValueType} : ∀ {S : Scope} (s : Stmt),
    (s.check (ofScopes ρ S Δ)).errors = [] → ∃ S', s.WellTyped Δ ρ S S' ∧
      (s.check (ofScopes ρ S Δ)).context = ofScopes ρ S' Δ
  | S, expr e, h => by
    obtain ⟨τ, he⟩ := infer_errors_eq_nil_iff.mp h
    exact ⟨S, .expr he, rfl⟩
  | S, print e position, h => by
    obtain ⟨τ, he⟩ := infer_errors_eq_nil_iff.mp h
    exact ⟨S, .print he position, rfl⟩
  | S, giveBack value position, h => by
    obtain ⟨e, type, τ, rfl, rfl, he, hτ⟩ := checkGiveBack_eq_nil_iff.mp h
    exact ⟨S, .giveBack he hτ position, rfl⟩
  | S, variableDecl type name initial position, h => by
    have hname : S.Fresh name := by
      by_contra hname
      simp [check, definedHere_of_not_fresh hname] at h
    rw [check_variableDecl hname] at h ⊢
    exact ⟨_, .variableDecl hname (checkInitial_eq_nil_iff.mp h) position, rfl⟩
  | S, block body position, h => by
    rw [check, enter_ofScopes] at h
    obtain ⟨B, hb, hc⟩ := checkAll_sound body h
    refine ⟨S, .block hb position, ?_⟩
    rw [check, enter_ofScopes, hc]
    exact leave_ofScopes
  | S, branch c yes no position, h => by
    obtain ⟨h1, h3⟩ := List.append_eq_nil_iff.mp h
    obtain ⟨h1, h2⟩ := List.append_eq_nil_iff.mp h1
    obtain ⟨S₁, hy, hc⟩ := check_sound yes h2
    rw [hc] at h3
    obtain ⟨S₂, hn, hc'⟩ := checkOption_sound no h3
    refine ⟨S₂, .branch (checkCondition_eq_nil_iff.mp h1) hy hn position, ?_⟩
    rw [check, hc]
    exact hc'
  | S, whileLoop c body position, h => by
    obtain ⟨h1, h2⟩ := List.append_eq_nil_iff.mp h
    obtain ⟨S', hb, hc⟩ := check_sound body h2
    exact ⟨S', .whileLoop (checkCondition_eq_nil_iff.mp h1) hb position, hc⟩
  | S, forLoop initial c i body position, h => by
    rw [check, enter_ofScopes] at h
    obtain ⟨h1, h3⟩ := List.append_eq_nil_iff.mp h
    obtain ⟨h1, h2⟩ := List.append_eq_nil_iff.mp h1
    obtain ⟨H, hh, hc⟩ := checkOption_sound initial h1
    rw [hc] at h2 h3
    obtain ⟨hcond, hi⟩ := checkHeader_eq_nil_iff.mp h2
    obtain ⟨B, hb, hc'⟩ := check_sound body h3
    refine ⟨S, .forLoop hh hcond hi hb position, ?_⟩
    rw [check, enter_ofScopes, hc]
    dsimp only
    rw [hc']
    exact leave_ofScopes
  | S, functionDecl result name parameters body bodyPosition position, h => by
    have hname : S.Fresh name := by
      by_contra hname
      simp [check, definedHere_of_not_fresh hname] at h
    rw [check_functionDecl hname] at h ⊢
    obtain ⟨h1, h2⟩ := List.append_eq_nil_iff.mp h
    obtain ⟨P, hP, hc⟩ := declareAll_sound parameters h1
    rw [hc, enter_ofScopes] at h2
    obtain ⟨B, hb, hc'⟩ := checkAll_sound body h2
    refine ⟨_, .functionDecl hname (by rw [hP]; exact List.append_nil _) hb bodyPosition position,
      ?_⟩
    dsimp only
    rw [hc, enter_ofScopes, hc', leave_ofScopes, leave_ofScopes]
    rfl

theorem checkAll_sound {Δ : List Scope} {ρ : Option ValueType} : ∀ {S : Scope} (ss : List Stmt),
    (checkAll (ofScopes ρ S Δ) ss).errors = [] → ∃ S', AllWellTyped Δ ρ S ss S' ∧
      (checkAll (ofScopes ρ S Δ) ss).context = ofScopes ρ S' Δ
  | S, [], _ => ⟨S, .nil, rfl⟩
  | S, s :: rest, h => by
    obtain ⟨h1, h2⟩ := List.append_eq_nil_iff.mp h
    obtain ⟨S₁, hs, hc⟩ := check_sound s h1
    rw [hc] at h2
    obtain ⟨S₂, hr, hc'⟩ := checkAll_sound rest h2
    exact ⟨S₂, .cons hs hr, by rw [checkAll, hc]; exact hc'⟩

theorem checkOption_sound {Δ : List Scope} {ρ : Option ValueType} : ∀ {S : Scope}
    (s : Option Stmt), (checkOption (ofScopes ρ S Δ) s).errors = [] →
      ∃ S', OptionWellTyped Δ ρ S s S' ∧ (checkOption (ofScopes ρ S Δ) s).context = ofScopes ρ S' Δ
  | S, none, _ => ⟨S, .none, rfl⟩
  | S, some s, h => by
    obtain ⟨S', hs, hc⟩ := check_sound s h
    exact ⟨S', .some hs, hc⟩

end

mutual

/-- Where the rules hold, checking reports nothing and ends in the scope that they leave. -/
theorem WellTyped.check {Δ : List Scope} {ρ : Option ValueType} {S S' : Scope} {s : Stmt} :
    s.WellTyped Δ ρ S S' → s.check (ofScopes ρ S Δ) = ⟨ofScopes ρ S' Δ, []⟩
  | .expr he => by
    rw [Stmt.check, table_ofScopes, he.infer]
  | .print he position => by
    rw [Stmt.check, table_ofScopes, he.infer]
  | .giveBack he hτ position => by
    rw [Stmt.check, checkGiveBack_eq_nil_iff.mpr ⟨_, _, _, rfl, rfl, he, hτ⟩]
  | .variableDecl hname hi position => by
    rw [check_variableDecl hname, checkInitial_eq_nil_iff.mpr hi]
  | .block hb position => by
    rw [Stmt.check, enter_ofScopes, AllWellTyped.check hb, leave_ofScopes]
  | .branch hc hy hn position => by
    rw [Stmt.check, WellTyped.check hy, OptionWellTyped.check hn, checkCondition_eq_nil_iff.mpr hc]
    rfl
  | .whileLoop hc hb position => by
    rw [Stmt.check, WellTyped.check hb, checkCondition_eq_nil_iff.mpr hc]
    rfl
  | .forLoop hh hc hi hb position => by
    rw [Stmt.check, enter_ofScopes, OptionWellTyped.check hh]
    dsimp only
    rw [WellTyped.check hb, checkHeader_eq_nil_iff.mpr ⟨hc, hi⟩, leave_ofScopes]
    rfl
  | .functionDecl hname hp hb bodyPosition position => by
    rw [check_functionDecl hname,
      declareAll_complete (S := .empty) _ (hp.trans (List.append_nil _).symm)]
    dsimp only
    rw [enter_ofScopes, AllWellTyped.check hb, leave_ofScopes, leave_ofScopes]
    rfl

theorem AllWellTyped.check {Δ : List Scope} {ρ : Option ValueType} {S S' : Scope}
    {ss : List Stmt} : AllWellTyped Δ ρ S ss S' →
      checkAll (ofScopes ρ S Δ) ss = ⟨ofScopes ρ S' Δ, []⟩
  | .nil => rfl
  | .cons hs hr => by
    rw [checkAll, WellTyped.check hs, AllWellTyped.check hr]
    rfl

theorem OptionWellTyped.check {Δ : List Scope} {ρ : Option ValueType} {S S' : Scope}
    {s : Option Stmt} : OptionWellTyped Δ ρ S s S' →
      checkOption (ofScopes ρ S Δ) s = ⟨ofScopes ρ S' Δ, []⟩
  | .none => rfl
  | .some hs => WellTyped.check hs

end

end Stmt

end StackListing
