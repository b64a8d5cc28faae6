import StackListing.Proofs.Printing.Parts
import StackListing.Proofs.Printing.Yields

/-!
# Texts that tell what they are of

A printed text is told from what follows it if it ends where it must: a word ends at the first
character that no word has, and the texts of a list end at the closing parenthesis.  `TellsAmong`
says so of one text: wherever another text of the same sort stands in its place, with something
behind it that may follow an expression (`MayFollow`), both are the same and so is what follows.
-/

namespace StackListing

/-! ### Words -/

/-- A text without a character that ends words. -/
def Unbroken (w : List Char) : Prop := ∀ c ∈ w, c ∉ boundary

instance decidableUnbroken (w : List Char) : Decidable (Unbroken w) :=
  inferInstanceAs (Decidable (∀ c ∈ w, c ∉ boundary))

/-- The text up to the first character that ends words. -/
def lead (cs : List Char) : List Char := cs.takeWhile (· ∉ boundary)

theorem lead_append {w r : List Char} (hw : Unbroken w) (hr : Bounded r) : lead (w ++ r) = w :=
  takeWhile_bounded hr (by decide) fun c hc => decide_eq_true (hw c hc)

/-- A word is told from what follows. -/
theorem Unbroken.cancel {w w' r r' : List Char} (hw : Unbroken w) (hw' : Unbroken w')
    (hr : Bounded r) (hr' : Bounded r') (h : w ++ r = w' ++ r') : w = w' ∧ r = r' := by
  have hlead : w = w' := by rw [← lead_append hw hr, h, lead_append hw' hr']
  subst hlead
  exact ⟨rfl, List.append_cancel_left h⟩

theorem bounded_cons {c : Char} (hc : c ∈ boundary) (r : List Char) : Bounded (c :: r) :=
  .inr ⟨c, r, rfl, hc⟩

theorem unbroken_of_letters {w : List Char} (h : ∀ c ∈ w, Letter c ∨ Digit c) : Unbroken w := by
  intro c hc hmem
  have hnone : ∀ d ∈ boundary, ¬ (Letter d ∨ Digit d) := by decide
  exact hnone c hmem (h c hc)

theorem IsName.unbroken {name : String} (h : IsName name) : Unbroken name.toList := by
  obtain ⟨c, cs, htext, hc, hcs⟩ := h.1
  rw [htext]
  exact unbroken_of_letters (List.forall_mem_cons.mpr ⟨.inl hc, hcs⟩)

theorem IsName.begins {name : String} (h : IsName name) :
    ∃ c cs, name.toList = c :: cs ∧ Letter c := h.1.opens

theorem BinaryOp.unbroken_symbol (op : BinaryOp) : Unbroken op.symbol.toList := by
  cases op <;> decide

theorem BinaryOp.symbol_injective {op op' : BinaryOp} (h : op.symbol.toList = op'.symbol.toList) :
    op = op' := by
  revert h
  cases op <;> cases op' <;> decide

/-! ### Texts with commas between them -/

section Separated

variable {α β : Type} (f : α → List Char)

/-- Texts behind others, each behind a comma. -/
def further (xs : List α) : List Char := xs.flatMap fun x => ',' :: ' ' :: f x

/-- Texts with commas between them. -/
def separated : List α → List Char
  | [] => []
  | x :: xs => f x ++ further f xs

theorem further_cons (x : α) (xs : List α) (r : List Char) :
    further f (x :: xs) ++ r = ',' :: ' ' :: (f x ++ (further f xs ++ r)) := by
  simp [further]

theorem separated_map (g : β → α) (xs : List β) :
    separated f (xs.map g) = separated (f ∘ g) xs := by
  cases xs with
  | nil => rfl
  | cons x xs => simp [separated, further, List.flatMap_map]

theorem toList_intercalate : ∀ xs : List String,
    (", ".intercalate xs).toList = separated String.toList xs
  | [] => rfl
  | [x] => by simp [separated, further]
  | x :: y :: xs => by
    rw [String.intercalate_cons_cons, String.toList_append, String.toList_append,
      toList_intercalate (y :: xs)]
    simp [separated, further]

end Separated

/-! ### What may follow an expression -/

/-- **What may follow an expression:** nothing that continues a word, calls it or assigns to it. -/
structure MayFollow (r : List Char) : Prop where
  head : ∀ c ∈ r.head?, c ∈ [' ', ')', ',', ';']
  unassigned : ¬ [' ', '=', ' '] <+: r

theorem MayFollow.bounded {r : List Char} (h : MayFollow r) : Bounded r := by
  cases r with
  | nil => exact .inl rfl
  | cons c r =>
    have hsub : ∀ d ∈ [' ', ')', ',', ';'], d ∈ boundary := by decide
    exact bounded_cons (hsub c (h.head c rfl)) r

theorem mayFollow_cons {c : Char} (hc : c ∈ [')', ',', ';']) (r : List Char) :
    MayFollow (c :: r) where
  head := by
    rintro d ⟨⟩
    exact List.mem_cons_of_mem ' ' hc
  unassigned := by
    rintro ⟨t, ht⟩
    cases ht
    exact absurd hc (by decide)

/-- The sign of an operator between blanks is no sign of an assignment. -/
theorem BinaryOp.mayFollow_symbol (op : BinaryOp) (r : List Char) :
    MayFollow (' ' :: (op.symbol.toList ++ ' ' :: r)) where
  head := by
    rintro d ⟨⟩
    decide
  unassigned := by
    rintro ⟨t, ht⟩
    cases op <;> cases ht

theorem MayFollow.not_paren {r : List Char} (h : MayFollow ('(' :: r)) : False :=
  absurd (h.head '(' rfl) (by decide)

/-! ### Texts that tell what they are of -/

/-- **The text of `x` tells it** among those that satisfy `P`, whatever follows that may follow an
expression. -/
def TellsAmong {α : Type} (f : α → List Char) (P : α → Prop) (x : α) : Prop :=
  ∀ {x' : α} {r r' : List Char}, P x' → MayFollow r → MayFollow r' → f x ++ r = f x' ++ r' →
    x = x' ∧ r = r'

section Separated

variable {α : Type} {f : α → List Char} {P : α → Prop} {xs xs' : List α} {r r' : List Char}

theorem mayFollow_further (f : α → List Char) (xs : List α) (r : List Char) :
    MayFollow (further f xs ++ ')' :: r) := by
  cases xs with
  | nil => exact mayFollow_cons (by decide) r
  | cons x xs => exact mayFollow_cons (by decide) _

theorem further_tell (h : ∀ x ∈ xs, TellsAmong f P x) (h' : ∀ x ∈ xs', P x)
    (heq : further f xs ++ ')' :: r = further f xs' ++ ')' :: r') : xs = xs' ∧ r = r' := by
  induction xs generalizing xs' with
  | nil =>
    cases xs' with
    | nil => exact ⟨rfl, List.tail_eq_of_cons_eq heq⟩
    | cons x' xs' => cases heq
  | cons x xs ih =>
    cases xs' with
    | nil => cases heq
    | cons x' xs' =>
      rw [further_cons, further_cons] at heq
      obtain ⟨hx, hxs⟩ := List.forall_mem_cons.mp h
      obtain ⟨hx', hxs'⟩ := List.forall_mem_cons.mp h'
      obtain ⟨rfl, hrest⟩ := hx hx' (mayFollow_further f xs r) (mayFollow_further f xs' r')
        (List.tail_eq_of_cons_eq (List.tail_eq_of_cons_eq heq))
      obtain ⟨rfl, rfl⟩ := ih hxs hxs' hrest
      exact ⟨rfl, rfl⟩

/-- Texts with commas between them tell what they are of, up to a closing parenthesis. -/
theorem separated_tell (hb : ∀ x ∈ xs, ∃ c cs, f x = c :: cs ∧ c ≠ ')')
    (hb' : ∀ x ∈ xs', ∃ c cs, f x = c :: cs ∧ c ≠ ')') (h : ∀ x ∈ xs, TellsAmong f P x)
    (h' : ∀ x ∈ xs', P x) (heq : separated f xs ++ ')' :: r = separated f xs' ++ ')' :: r') :
    xs = xs' ∧ r = r' := by
  have hne {x : α} (hx : ∃ c cs, f x = c :: cs ∧ c ≠ ')') (cs cs' : List Char) :
      ')' :: cs ≠ f x ++ cs' := by
    obtain ⟨c, ds, htext, hc⟩ := hx
    rw [htext]
    intro heq
    cases heq
    exact hc rfl
  cases xs with
  | nil =>
    cases xs' with
    | nil => exact ⟨rfl, List.tail_eq_of_cons_eq heq⟩
    | cons x' xs' =>
      rw [separated, separated, List.append_assoc] at heq
      exact absurd heq (hne (hb' x' List.mem_cons_self) _ _)
  | cons x xs =>
    obtain ⟨hx, hxs⟩ := List.forall_mem_cons.mp h
    cases xs' with
    | nil =>
      rw [separated, separated, List.append_assoc] at heq
      exact absurd heq.symm (hne (hb x List.mem_cons_self) _ _)
    | cons x' xs' =>
      obtain ⟨hx', hxs'⟩ := List.forall_mem_cons.mp h'
      rw [separated, separated, List.append_assoc, List.append_assoc] at heq
      obtain ⟨rfl, hrest⟩ := hx hx' (mayFollow_further f xs r) (mayFollow_further f xs' r') heq
      obtain ⟨rfl, rfl⟩ := further_tell hxs hxs' hrest
      exact ⟨rfl, rfl⟩

end Separated

end StackListing
