import StackListing.Proofs.Parsing.Compositional
import StackListing.Proofs.Recovery.Progress

/-!
# Every complaint is paid by a token

The parser reports no more complaints than there are tokens.  Each complaint is charged to a token
that was read: the complaint about the target of an assignment to the `=`, and the complaint about a
statement that failed to a token that was skipped or read before.

A step is `Paying` if it reads at least as many tokens as it reports complaints.  This is not enough
for a statement, which may fail and then causes one complaint more, possibly where no token is left
to skip.  So the step for statements is `Sparing`: if it reports anything at all, it reads more
tokens than that.
-/

namespace StackListing

namespace ParseState

variable {s t u : ParseState}

/-- The complaints reported, and those that the tokens left can still pay for. -/
def budget (s : ParseState) : Nat := s.errors.length + s.stream.remaining

/-- **From `s` to `t` every complaint is paid:** at least as many tokens were read as complaints
were reported. -/
structure Pays (s t : ParseState) : Prop where
  leads : s.Leads t
  le : t.budget ≤ s.budget

/-- **From `s` to `t` there is a token to spare,** unless nothing was reported. -/
structure Spares (s t : ParseState) : Prop where
  leads : s.Leads t
  spare : t.errors = s.errors ∨ t.budget < s.budget

theorem Leads.spares (h : s.Leads t) (he : t.errors = s.errors) : s.Spares t := ⟨h, .inl he⟩

theorem Spares.refl (s : ParseState) : s.Spares s := (Leads.refl s).spares rfl

theorem Spares.pays (h : s.Spares t) : s.Pays t := by
  refine ⟨h.leads, ?_⟩
  have hrem := h.leads.remaining_le
  rcases h.spare with he | hlt
  · unfold budget
    rw [he]
    omega
  · exact hlt.le

theorem Pays.trans (h : s.Pays t) (h' : t.Pays u) : s.Pays u :=
  ⟨h.leads.trans h'.leads, h'.le.trans h.le⟩

theorem Spares.trans (h : s.Spares t) (h' : t.Spares u) : s.Spares u := by
  refine ⟨h.leads.trans h'.leads, ?_⟩
  rcases h'.spare with he' | hlt'
  · rcases h.spare with he | hlt
    · exact .inl (he'.trans he)
    · exact .inr (h'.pays.le.trans_lt hlt)
  · exact .inr (hlt'.trans_le h.pays.le)

/-- A token that was read pays for the complaint that comes next. -/
theorem Spares.budget_lt (h : s.Spares t) (hlt : t.stream.remaining < s.stream.remaining) :
    t.budget < s.budget := by
  rcases h.spare with he | hb
  · unfold budget
    rw [he]
    omega
  · exact hb

theorem Spares.trans_pays (h : s.Spares t) (hlt : t.stream.remaining < s.stream.remaining)
    (h' : t.Pays u) : s.Spares u :=
  ⟨h.leads.trans h'.leads, .inr (h'.le.trans_lt (h.budget_lt hlt))⟩

/-- At the end nothing can be paid for, so nothing is reported. -/
theorem Pays.spares_of_end (h : s.Pays t) (hs : s.stream.remaining = 0) : s.Spares t := by
  obtain ⟨ds, hds⟩ := h.leads.errors
  have hle := h.le
  unfold budget at hle
  rw [hs, hds, List.length_append] at hle
  have hnil : ds = [] := List.length_eq_zero_iff.mp (by omega)
  exact h.leads.spares (by rw [hds, hnil, List.append_nil])

end ParseState

namespace Parse

open ParseState

variable {α β : Type} {s t : ParseState}

/-- **A paying step** reads at least as many tokens as it reports complaints. -/
def Paying (p : Parse α) : Prop :=
  ∀ s : ParseState, s.stream.stop.kind = .endOfInput → s.Pays (final (p s))

/-- **A sparing step** reads more tokens than it reports complaints, if it reports any. -/
def Sparing (p : Parse α) : Prop :=
  ∀ s : ParseState, s.stream.stop.kind = .endOfInput → s.Spares (final (p s))

theorem Sparing.paying {p : Parse α} (h : Sparing p) : Paying p := fun s hs => (h s hs).pays

theorem Sparing.of_ok {p : Parse α} (hp : Sparing p) (hs : s.stream.stop.kind = .endOfInput)
    {a : α} (h : p s = .ok a t) : s.Spares t := by
  have := hp s hs
  rwa [h] at this

theorem Paying.of_ok {p : Parse α} (hp : Paying p) (hs : s.stream.stop.kind = .endOfInput)
    {a : α} (h : p s = .ok a t) : s.Pays t := by
  have := hp s hs
  rwa [h] at this

/-! ### Sequences -/

theorem final_bind (p : Parse α) (f : α → Parse β) (s : ParseState) :
    (∃ a t, p s = .ok a t ∧ final ((p >>= f) s) = final (f a t)) ∨
      final ((p >>= f) s) = final (p s) := by
  rw [bind_apply]
  cases h : p s with
  | ok a t => exact .inl ⟨a, t, rfl, rfl⟩
  | error d t => exact .inr rfl

theorem Sparing.bind {p : Parse α} {f : α → Parse β} (hp : Sparing p) (hf : ∀ a, Sparing (f a)) :
    Sparing (p >>= f) := by
  intro s hs
  obtain ⟨a, t, h, hfinal⟩ | hfinal := final_bind p f s
  · have hfirst := hp.of_ok hs h
    rw [hfinal]
    exact hfirst.trans (hf a t (hfirst.leads.closed hs))
  · rw [hfinal]
    exact hp s hs

theorem Paying.bind {p : Parse α} {f : α → Parse β} (hp : Paying p) (hf : ∀ a, Paying (f a)) :
    Paying (p >>= f) := by
  intro s hs
  obtain ⟨a, t, h, hfinal⟩ | hfinal := final_bind p f s
  · have hfirst := hp.of_ok hs h
    rw [hfinal]
    exact hfirst.trans (hf a t (hfirst.leads.closed hs))
  · rw [hfinal]
    exact hp s hs

/-- Behind a step that reads a token, paying is enough. -/
theorem Sparing.bind_paying {p : Parse α} {f : α → Parse β} [Consuming p] (hp : Sparing p)
    (hf : ∀ a, Paying (f a)) : Sparing (p >>= f) := by
  intro s hs
  obtain ⟨a, t, h, hfinal⟩ | hfinal := final_bind p f s
  · have hfirst := hp.of_ok hs h
    rw [hfinal]
    exact hfirst.trans_pays (Consuming.reads hs h) (hf a t (hfirst.leads.closed hs))
  · rw [hfinal]
    exact hp s hs

/-- Behind the current token, paying is enough: if there is none, nothing can be reported. -/
theorem Sparing.advance_bind {f : Token → Parse β} (hf : ∀ x, Paying (f x)) :
    Sparing (advance >>= f) := by
  intro s hs
  have hadvance := (Leads.advance s).spares rfl
  have hrest := hf s.stream.current ⟨s.stream.advance, s.errors⟩ (hadvance.leads.closed hs)
  cases ha : s.stream.ahead with
  | nil => exact (hadvance.pays.trans hrest).spares_of_end (congrArg List.length ha)
  | cons x xs =>
    refine hadvance.trans_pays ?_ hrest
    show s.stream.advance.ahead.length < s.stream.ahead.length
    rw [TokenStream.advance, ha]
    exact Nat.lt_succ_self _

/-- What was read pays for one complaint. -/
theorem Sparing.bind_report {p : Parse α} [Consuming p] (hp : Sparing p) (d : Diagnostic) (b : β) :
    Paying (p >>= fun _ => report d >>= fun _ => pure b) := by
  intro s hs
  obtain ⟨a, t, h, hfinal⟩ | hfinal := final_bind p (fun _ => report d >>= fun _ => pure b) s
  · have hfirst := hp.of_ok hs h
    have hlt := hfirst.budget_lt (Consuming.reads hs h)
    rw [hfinal]
    refine ⟨hfirst.leads.trans (.report t d), ?_⟩
    show (t.errors ++ [d]).length + t.stream.remaining ≤ s.budget
    unfold budget at hlt ⊢
    rw [List.length_append, List.length_singleton]
    omega
  · rw [hfinal]
    exact (hp s hs).pays

instance sequential_sparing : Sequential @Sparing where
  pure _ s _ := .refl s
  throw _ s _ := .refl s
  bind := Sparing.bind
  atEnd s _ := .refl s
  current s _ := .refl s
  peek _ s _ := .refl s
  remaining s _ := .refl s
  advance s _ := (Leads.advance s).spares rfl

instance sequential_paying : Sequential @Paying where
  pure a := (Sequential.pure (P := @Sparing) a).paying
  throw hd := (Sequential.throw (P := @Sparing) hd).paying
  bind := Paying.bind
  atEnd := (Sequential.atEnd (P := @Sparing)).paying
  current := (Sequential.current (P := @Sparing)).paying
  peek n := (Sequential.peek (P := @Sparing) n).paying
  remaining := (Sequential.remaining (P := @Sparing)).paying
  advance := (Sequential.advance (P := @Sparing)).paying

/-! ### Recovery -/

/-- **An attempt at a statement pays for its failure,** before the end. -/
theorem recover_pays {step : Parse Stmt} (hstep : Sparing step)
    (hs : s.stream.stop.kind = .endOfInput) (hne : s.stream.ahead ≠ []) :
    s.Pays (final (recover step s)) := by
  have hspares := hstep s hs
  rw [recover_apply]
  cases h : step s with
  | ok x t =>
    rw [h] at hspares
    exact hspares.pays
  | error d t =>
    rw [h] at hspares
    change s.Spares t at hspares
    refine ⟨hspares.leads.trans ((Leads.synchronize t).trans (.report _ d)), ?_⟩
    show (t.errors ++ [d]).length + t.stream.synchronize.remaining ≤ s.budget
    rw [List.length_append, List.length_singleton]
    rcases hspares.spare with he | hb
    · have hlt := remaining_synchronize_lt hspares.leads hne
      unfold budget
      rw [he]
      omega
    · have hskip : t.stream.synchronize.remaining ≤ t.stream.remaining :=
        (Leads.synchronize t).remaining_le
      unfold budget at hb ⊢
      omega

theorem paying_statements (stops : Kind → Bool) {step : Parse Stmt} (hstep : Sparing step)
    (n : Nat) : Paying (statements stops step n) := by
  induction n with
  | zero => exact Sequential.pure []
  | succ n ih =>
    intro s hs
    by_cases hends : Ends stops s
    · rw [statements_stopped hends]
      exact (Spares.refl s).pays
    · have hpays := recover_pays hstep hs fun h => hends (.inl h)
      rw [statements_round hends]
      obtain ⟨v, t, hv, hfinal⟩ | hfinal := final_bind (recover step)
        (fun v => (v.toList ++ ·) <$> statements stops step n) s
      · rw [hv] at hpays
        rw [hfinal]
        exact hpays.trans (ih.bind (fun xs => Sequential.pure _) t (hpays.leads.closed hs))
      · rw [hfinal]
        exact hpays

set_option synthInstance.maxSize 512 in
/-- **Statements have a token to spare.**  It is the value of an assignment if the target is
reported, and the first token of what contains other statements. -/
instance compositional_sparing : Compositional @Sparing where
  assignment {expr} left hreads h := by
    have := hreads .lowest
    refine Sparing.advance_bind fun t => ?_
    cases left with
    | var name position => exact (h .lowest).paying.bind fun v => Sequential.pure _
    | _ => exact (h .lowest).bind_report _ _
  block h := by
    have hbody : Has @Paying (blockBody _) := .blockBody fun n => ⟨paying_statements _ h n⟩
    exact Sparing.advance_bind fun t => hbody.holds.bind fun body => Sequential.pure _
  functionDecl {stmt} h := by
    have hbody : Has @Paying (blockBody stmt) := .blockBody fun n => ⟨paying_statements _ h n⟩
    have htype : Has @Sparing (type declarationType) := inferInstance
    exact htype.holds.bind_paying fun result => Has.holds (P := @Paying)

theorem paying_program (g : Grammar) : Paying (program g) := by
  have hstmt : Has @Sparing (stmt g) := inferInstance
  exact Paying.bind Sequential.remaining fun n =>
    (paying_statements _ hstmt.holds n).bind fun xs => Sequential.pure _

end Parse

end StackListing
