import StackListing.Proofs.Listing.Jumps
import StackListing.Proofs.Printing.Parts

/-!
# Where calls and entries come from

Two kinds of lines tie functions together: the entry of a function and a call.  Here every such line
is traced back to what it was written for.  One step goes from the code of a statement to the code
of a part of it (`Stmt.traced_code`), and the steps together lead to the statement that wrote the
line (`Stmt.exists_writes`).  So each entry in the code of a statement is that of a function declared
somewhere inside (`Stmt.entry_within`), and each call is one of a print statement or one in an
expression (`Stmt.call_cases`).  Lines are told apart by what stands before them, so equal lines at
different places are not mixed up.
-/

namespace StackListing

/-! ### Lines behind lines -/

/-- **The line stands in the lines, behind `before`.** -/
def Occurs (lines before : Listing) (line : Line) : Prop := ∃ after, lines = before ++ line :: after

section Occurs

variable {lines xs ys before : Listing} {line x : Line}

theorem Occurs.mem (h : Occurs lines before line) : line ∈ lines := by
  obtain ⟨after, rfl⟩ := h
  exact List.mem_append_right _ List.mem_cons_self

/-- A line stands behind those that come before it. -/
theorem occurs_of_getElem? {i : Nat} (h : lines[i]? = some line) :
    Occurs lines (lines.take i) line ∧ (lines.take i).length = i := by
  obtain ⟨hi, rfl⟩ := List.getElem?_eq_some_iff.mp h
  refine ⟨⟨lines.drop (i + 1), ?_⟩, List.length_take_of_le hi.le⟩
  rw [← List.drop_eq_getElem_cons hi, List.take_append_drop]

theorem occurs_nil : ¬ Occurs [] before line := by
  rintro ⟨after, h⟩
  exact absurd h.symm (by simp)

theorem occurs_cons : Occurs (x :: xs) before line ↔
    before = [] ∧ line = x ∨ ∃ rest, before = x :: rest ∧ Occurs xs rest line := by
  constructor
  · rintro ⟨after, h⟩
    cases before with
    | nil =>
      obtain ⟨rfl, -⟩ := List.cons_eq_cons.mp h
      exact .inl ⟨rfl, rfl⟩
    | cons y rest =>
      obtain ⟨rfl, hrest⟩ := List.cons_eq_cons.mp h
      exact .inr ⟨rest, rfl, after, hrest⟩
  · rintro (⟨rfl, rfl⟩ | ⟨rest, rfl, after, rfl⟩)
    · exact ⟨xs, rfl⟩
    · exact ⟨after, rfl⟩

theorem occurs_append : Occurs (xs ++ ys) before line ↔
    Occurs xs before line ∨ ∃ rest, before = xs ++ rest ∧ Occurs ys rest line := by
  induction xs generalizing before with
  | nil => simp [occurs_nil]
  | cons x xs ih =>
    rw [List.cons_append, occurs_cons, occurs_cons]
    simp only [ih]
    constructor
    · rintro (h | ⟨rest, rfl, h | ⟨rest', rfl, h⟩⟩)
      · exact .inl (.inl h)
      · exact .inl (.inr ⟨rest, rfl, h⟩)
      · exact .inr ⟨rest', rfl, h⟩
    · rintro ((h | ⟨rest, rfl, h⟩) | ⟨rest', rfl, h⟩)
      · exact .inl h
      · exact .inr ⟨rest, rfl, .inl h⟩
      · exact .inr ⟨xs ++ rest', rfl, .inr ⟨rest', rfl, h⟩⟩

end Occurs

/-! ### Calls and entries -/

/-- Whether a line is a call or the entry of a function. -/
def Line.links : Line → Bool
  | .code (.call _) _ | .entry _ => true
  | _ => false

/-- None of the lines is a call or the entry of a function. -/
def Linkless (lines : Listing) : Prop := ∀ line ∈ lines, line.links = false

instance decidableLinkless (lines : Listing) : Decidable (Linkless lines) :=
  inferInstanceAs (Decidable (∀ line ∈ lines, line.links = false))

theorem Linkless.not_occurs {lines before : Listing} {line : Line} (h : Linkless lines)
    (hl : line.links = true) : ¬ Occurs lines before line := by
  intro ho
  rw [h line ho.mem] at hl
  cases hl

/-- Among lines of which only one is a call or an entry, that one stands in its place. -/
theorem Occurs.eq_of_linkless (xs : Listing) {ys before : Listing} {line x : Line}
    (ho : Occurs (xs ++ x :: ys) before line) (hl : line.links = true) (hx : Linkless xs)
    (hy : Linkless ys) : before = xs ∧ line = x := by
  rcases occurs_append.mp ho with hleft | ⟨rest, rfl, hright⟩
  · exact absurd hleft (hx.not_occurs hl)
  · rcases occurs_cons.mp hright with ⟨rfl, rfl⟩ | ⟨rest', -, hbehind⟩
    · exact ⟨List.append_nil xs, rfl⟩
    · exact absurd hbehind (hy.not_occurs hl)

theorem linkless_nil : Linkless [] := fun _ h => absurd h List.not_mem_nil

theorem Literal.linkless_code (v : Literal) (n : Nat) : Linkless (v.code n) := by
  cases v <;> simp [Linkless, code, Line.links, Line.noted, Line.plain]

theorem UnaryOp.linkless_code (op : UnaryOp) : Linkless op.code := by
  cases op <;> decide

theorem BinaryOp.linkless_code (op : BinaryOp) : Linkless op.code := by
  cases op <;> decide

/-- Among the expressions is a call of the name. -/
def CallsIn (es : List Expr) (name : String) : Prop :=
  ∃ callee arguments position, .call callee arguments position ∈ es ∧ callee.name? = some name

theorem CallsIn.mono {xs ys : List Expr} {name : String} (hsub : xs ⊆ ys) (h : CallsIn xs name) :
    CallsIn ys name := by
  obtain ⟨callee, arguments, position, hmem, hname⟩ := h
  exact ⟨callee, arguments, position, hsub hmem, hname⟩

section Calls

variable {name : String} {remark : Option String}

theorem Linkless.call_not_mem {lines : Listing} (h : Linkless lines) :
    .code (.call name) remark ∉ lines := fun hmem => absurd (h _ hmem) (by simp [Line.links])

mutual

/-- A call in the code of an expression is that of a call inside the expression. -/
theorem Expr.callsIn_parts : ∀ (e : Expr) (n : Nat),
    .code (.call name) remark ∈ e.code n → CallsIn e.parts name
  | .literal v _, n, h => absurd h (v.linkless_code n).call_not_mem
  | .var _ _, _, h => by simp [Expr.code, Line.noted] at h
  | .unary op operand _, n, h => by
    rcases List.mem_append.mp h with h | h
    · exact (Expr.callsIn_parts operand n h).mono (by simp [Expr.parts])
    · exact absurd h op.linkless_code.call_not_mem
  | .binary op left right _, n, h => by
    simp only [Expr.code, List.mem_append] at h
    rcases h with (((h | h) | h) | h) | h
    · exact (Expr.callsIn_parts left _ h).mono (by simp [Expr.parts])
    · simp [Line.noted] at h
    · exact (Expr.callsIn_parts right _ h).mono (by simp [Expr.parts])
    · simp [Line.noted] at h
    · exact absurd h op.linkless_code.call_not_mem
  | .call callee arguments position, n, h => by
    rw [Expr.code] at h
    cases hname : callee.name? with
    | none => simp [hname] at h
    | some f =>
      simp only [hname, List.mem_append] at h
      rcases h with ((h | h) | h) | h
      · simp at h
      · exact (Expr.callsIn_partsAll arguments _ _ h).mono (by simp [Expr.parts])
      · obtain ⟨rfl, -⟩ : name = f ∧ remark = none := by simpa [Line.plain] using h
        exact ⟨callee, arguments, position, List.mem_cons_self, hname⟩
      · unfold Expr.cleanup at h
        split at h <;> simp [Line.noted] at h
  | .assign _ value _, n, h => by
    rcases List.mem_append.mp h with h | h
    · exact (Expr.callsIn_parts value n h).mono (by simp [Expr.parts])
    · simp [Line.noted] at h

theorem Expr.callsIn_partsAll : ∀ (es : List Expr) (n index : Nat),
    .code (.call name) remark ∈ Expr.codeAll n index es → CallsIn (Expr.partsAll es) name
  | [], _, _, h => absurd h List.not_mem_nil
  | e :: es, n, index, h => by
    simp only [Expr.codeAll, List.mem_append] at h
    rcases h with (h | h) | h
    · exact (Expr.callsIn_partsAll es _ _ h).mono (by simp [Expr.partsAll])
    · exact (Expr.callsIn_parts e _ h).mono (by simp [Expr.partsAll])
    · simp [Line.noted] at h

end

end Calls

/-! ### Parts of parts -/

/-- **A statement inside another,** or that statement itself, with what is put around its code. -/
inductive Stmt.Within (n : Nat) (s : Stmt) : Listing → Nat → Stmt → Listing → Prop
  | self : Within n s [] n s []
  | part {before after before' after' : Listing} {k j : Nat} {t u : Stmt}
      (h : Within n s before k t after) (hu : Stmt.Part k t before' j u after') :
      Within n s (before ++ before') j u (after' ++ after)

theorem Stmt.Part.within {n k j : Nat} {s t u : Stmt} {before after before' after' : Listing}
    (h : Stmt.Part n s before k t after) (ht : Stmt.Within k t before' j u after') :
    Stmt.Within n s (before ++ before') j u (after' ++ after) := by
  induction ht with
  | self => simpa using Stmt.Within.self.part h
  | part _ hu ih => simpa using ih.part hu

theorem Program.Emits.within {p : Program} {n k : Nat} {s t : Stmt}
    {before after before' after' : Listing} (h : p.Emits before n s after)
    (ht : Stmt.Within n s before' k t after') :
    p.Emits (before ++ before') k t (after' ++ after) := by
  induction ht with
  | self => simpa using h
  | part _ hu ih => simpa using ih.part hu

theorem Stmt.sizeOf_lt_append (front : List Stmt) (s : Stmt) (rear : List Stmt) :
    sizeOf s < sizeOf (front ++ s :: rear) :=
  List.sizeOf_lt_of_mem (List.mem_append_right _ List.mem_cons_self)

theorem Stmt.Part.sizeOf_lt {n k : Nat} {s t : Stmt} {before after : Listing}
    (h : Stmt.Part n s before k t after) : sizeOf t < sizeOf s := by
  cases h with
  | block front _ rear =>
    have hlt := Stmt.sizeOf_lt_append front t rear
    rw [Stmt.block.sizeOf_spec]
    omega
  | function _ _ _ front _ rear =>
    have hlt := Stmt.sizeOf_lt_append front t rear
    rw [Stmt.functionDecl.sizeOf_spec]
    omega
  | yes | no =>
    simp only [Stmt.branch.sizeOf_spec, Option.some.sizeOf_spec]
    omega
  | whileBody =>
    rw [Stmt.whileLoop.sizeOf_spec]
    omega
  | forInitial | forBody =>
    simp only [Stmt.forLoop.sizeOf_spec, Option.some.sizeOf_spec]
    omega

theorem Stmt.partsAll_append (xs ys : List Stmt) :
    Stmt.partsAll (xs ++ ys) = Stmt.partsAll xs ++ Stmt.partsAll ys := by
  induction xs with
  | nil => rfl
  | cons x xs ih => simp [Stmt.partsAll, ih]

theorem Stmt.Part.parts_subset {n k : Nat} {s t : Stmt} {before after : Listing}
    (h : Stmt.Part n s before k t after) : t.parts ⊆ s.parts := by
  intro e he
  cases h <;> simp [Stmt.parts, Stmt.partsAll, Stmt.partsAll_append, Stmt.partsOption, he]

/-! ### One step back -/

/-- What is written before the call of a print statement. -/
def printFront (n : Nat) (e : Expr) : Listing :=
  [.comment "Print statement"] ++ e.code n ++ [.noted (.push .eax) "push value to print"]

/-- **The calls and entries that a statement writes itself,** behind the given lines of its code:
those of its expressions, the call that prints, and the entry of a function. -/
inductive Stmt.Writes : Nat → Stmt → Listing → Line → Prop
  | expr {n k : Nat} {s : Stmt} {before : Listing} {line : Line} {e : Expr}
      (he : e.parts ⊆ s.parts) (hl : line ∈ e.code k) : Writes n s before line
  | print (n : Nat) (e : Expr) (position : Position) :
      Writes n (.print e position) (printFront n e)
        (.noted (.call "print_int") "call print function")
  | entry (n : Nat) (result : ValueType) (name : String) (parameters : List Parameter)
      (body : List Stmt) (bodyPosition position : Position) :
      Writes n (.functionDecl result name parameters body bodyPosition position) [.blank]
        (.entry name)

theorem Stmt.occurs_codeAll {before : Listing} {line : Line} : ∀ {body : List Stmt} {n : Nat},
    Occurs (Stmt.codeAll n body) before line → ∃ left s right rest, body = left ++ s :: right ∧
      before = Stmt.codeAll n left ++ rest ∧ Occurs (s.code (n + Stmt.labelsAll left)) rest line
  | [], _, h => absurd h occurs_nil
  | s :: body, n, h => by
    rcases occurs_append.mp h with hs | ⟨rest, rfl, hrest⟩
    · exact ⟨[], s, body, before, rfl, rfl, hs⟩
    · obtain ⟨left, t, right, rest', rfl, rfl, ht⟩ := Stmt.occurs_codeAll hrest
      refine ⟨s :: left, t, right, rest', rfl, (List.append_assoc ..).symm, ?_⟩
      rwa [Stmt.labelsAll, ← Nat.add_assoc]

/-- **Every call and entry in the lines,** which stand behind `front` in the code of a statement, is
written by the statement or stands in the code of a part of it. -/
def Stmt.Traced (n : Nat) (s : Stmt) (front lines : Listing) : Prop :=
  ∀ ⦃before : Listing⦄ ⦃line : Line⦄, line.links = true → Occurs lines before line →
    s.Writes n (front ++ before) line ∨ ∃ front' k t rear rest, Stmt.Part n s front' k t rear ∧
      front ++ before = front' ++ rest ∧ Occurs (t.code k) rest line

namespace Stmt.Traced

variable {n k : Nat} {s t : Stmt} {front rear xs ys : Listing} {e : Expr}

theorem linkless (h : Linkless xs) : s.Traced n front xs :=
  fun _ _ hl ho => absurd ho (h.not_occurs hl)

theorem append (hx : s.Traced n front xs) (hy : s.Traced n (front ++ xs) ys) :
    s.Traced n front (xs ++ ys) := by
  intro before line hl ho
  rcases occurs_append.mp ho with hleft | ⟨rest, rfl, hright⟩
  · exact hx hl hleft
  · rw [← List.append_assoc]
    exact hy hl hright

theorem expr (he : e.parts ⊆ s.parts) : s.Traced n front (e.code k) :=
  fun _ _ _ ho => .inl (.expr he ho.mem)

theorem part (h : Stmt.Part n s front k t rear) : s.Traced n front (t.code k) :=
  fun _ _ _ ho => .inr ⟨front, k, t, rear, _, h, rfl, ho⟩

/-- The code of statements, each of which is a part of the same statement. -/
theorem all {body : List Stmt} (h : ∀ left u right, body = left ++ u :: right →
    ∃ rear, Stmt.Part n s (front ++ Stmt.codeAll k left) (k + Stmt.labelsAll left) u rear) :
    s.Traced n front (Stmt.codeAll k body) := by
  intro before line hl ho
  obtain ⟨left, u, right, rest, hbody, rfl, ho'⟩ := Stmt.occurs_codeAll ho
  obtain ⟨rear, hpart⟩ := h left u right hbody
  exact .inr ⟨_, _, u, rear, rest, hpart, (List.append_assoc ..).symm, ho'⟩

end Stmt.Traced

theorem linkless_jumpIfZero (l : Label) : Linkless (jumpIfZero l) := by
  simp [Linkless, jumpIfZero, Line.links, Line.plain]

/-- The lines in which a jump back or ahead stands before the label of its statement. -/
theorem linkless_jump (l l' : Label) : Linkless [.plain (.jmp l), .label l'] := by
  simp [Linkless, Line.links, Line.plain]

theorem linkless_label (l : Label) : Linkless [.label l] := by simp [Linkless, Line.links]

/-- Every call and entry in the code of a statement is written by the statement or stands in the
code of a part of it. -/
theorem Stmt.traced_code (n : Nat) (s : Stmt) : s.Traced n [] (s.code n) := by
  -- In each case the pieces of the code come in order.  Only expressions, parts, the call that
  -- prints and the entry of a function have something to trace.
  cases s with
  | expr e => exact .expr (List.Subset.refl _)
  | print e position =>
    refine .append (.append ?_ ?_) ?_
    · exact .linkless (by decide)
    · exact .expr (List.Subset.refl _)
    · intro before line hl ho
      obtain ⟨rfl, rfl⟩ := Occurs.eq_of_linkless [_] ho hl (by decide) (by decide)
      exact .inl (.print n e position)
  | giveBack value _ =>
    refine .append (.append ?_ ?_) ?_
    · exact .linkless (by decide)
    · cases value with
      | none => exact .linkless (by simp [giveBackCode, Linkless, Line.links, Line.noted])
      | some e => exact .expr (List.Subset.refl _)
    · exact .linkless (by decide)
  | variableDecl _ name initial _ =>
    refine .append ?_ ?_
    · exact .linkless (by simp [Linkless, Line.links])
    · cases initial with
      | none => exact .linkless linkless_nil
      | some e =>
        refine .append (.expr (List.Subset.refl _)) (.linkless ?_)
        simp [Linkless, Line.links, Line.noted]
  | block body position =>
    refine .append (.append ?_ (.all ?_)) ?_
    · exact .linkless (by decide)
    · rintro left u right rfl
      exact ⟨_, .block n left u right position⟩
    · exact .linkless (by decide)
  | branch c yes no position =>
    refine .append (.append (.append (.append (.append (.append ?_ ?_) ?_) ?_) ?_) ?_) ?_
    · exact .linkless (by decide)
    · exact .expr (by simp [parts])
    · exact .linkless (linkless_jumpIfZero _)
    · exact .part (.yes n c yes no position)
    · exact .linkless (linkless_jump _ _)
    · cases no with
      | none => exact .linkless linkless_nil
      | some no => exact .part (.no n c yes no position)
    · exact .linkless (linkless_label _)
  | whileLoop c body position =>
    refine .append (.append (.append (.append ?_ ?_) ?_) ?_) ?_
    · exact .linkless (by simp [Linkless, Line.links])
    · exact .expr (by simp [parts])
    · exact .linkless (linkless_jumpIfZero _)
    · exact .part (.whileBody n c body position)
    · exact .linkless (linkless_jump _ _)
  | forLoop initial c i body position =>
    refine .append (.append (.append (.append (.append (.append ?_ ?_) ?_) ?_) ?_) ?_) ?_
    · exact .linkless (by decide)
    · cases initial with
      | none => exact .linkless linkless_nil
      | some s => exact .part (.forInitial n s c i body position)
    · exact .linkless (linkless_label _)
    · cases c with
      | none => exact .linkless linkless_nil
      | some c =>
        refine .append (.expr ?_) (.linkless (linkless_jumpIfZero _))
        simp [parts, Expr.partsOption]
    · exact .part (.forBody n initial c i body position)
    · cases i with
      | none => exact .linkless linkless_nil
      | some i => exact .expr fun e he => by simp [parts, Expr.partsOption, he]
    · exact .linkless (linkless_jump _ _)
  | functionDecl result name parameters body bodyPosition position =>
    refine .append (.append (.append (.append (.append ?_ ?_) ?_) (.all ?_)) ?_) ?_
    · intro before line hl ho
      obtain ⟨rfl, rfl⟩ := Occurs.eq_of_linkless [_] ho hl (by decide) linkless_nil
      exact .inl (.entry n result name parameters body bodyPosition position)
    · exact .linkless (by decide)
    · exact .linkless (by decide)
    · rintro left u right rfl
      exact ⟨_, .function n result name parameters left u right bodyPosition position⟩
    · exact .linkless (by decide)
    · exact .linkless (by decide)

/-! ### All the way back -/

/-- **Every call and entry in the code of a statement** is written by the statement or by one inside
it. -/
theorem Stmt.exists_writes {n : Nat} {s : Stmt} {before : Listing} {line : Line}
    (hl : line.links = true) (ho : Occurs (s.code n) before line) :
    ∃ front k t rear rest, Stmt.Within n s front k t rear ∧ before = front ++ rest ∧
      t.Writes k rest line := by
  induction hsize : sizeOf s using Nat.strongRecOn generalizing n s before with
  | ind size ih =>
    subst hsize
    rcases Stmt.traced_code n s hl ho with hw | ⟨front, k, t, rear, rest, hp, hbefore, ho'⟩
    · exact ⟨[], n, s, [], before, .self, rfl, hw⟩
    · obtain ⟨front', j, u, rear', rest', hwithin, rfl, hw⟩ := ih _ hp.sizeOf_lt ho' rfl
      refine ⟨front ++ front', j, u, rear' ++ rear, rest', hp.within hwithin, ?_, hw⟩
      rw [List.append_assoc]
      exact hbefore

theorem Stmt.Within.parts_subset {n k : Nat} {s t : Stmt} {before after : Listing}
    (h : Stmt.Within n s before k t after) : t.parts ⊆ s.parts := by
  induction h with
  | self => exact List.Subset.refl _
  | part _ hu ih => exact List.Subset.trans hu.parts_subset ih

/-- **The entries in the code of a statement** are those of the functions declared in it. -/
theorem Stmt.entry_within {n : Nat} {s : Stmt} {before : Listing} {name : String}
    (ho : Occurs (s.code n) before (.entry name)) :
    ∃ front k result parameters body bodyPosition position rear,
      Stmt.Within n s front k
        (.functionDecl result name parameters body bodyPosition position) rear ∧
      before = front ++ [.blank] := by
  obtain ⟨front, k, t, rear, rest, hwithin, rfl, hw⟩ := Stmt.exists_writes rfl ho
  cases hw with
  | expr _ hl => exact absurd (Expr.straight_code _ _ _ hl) (by simp [Line.straight])
  | entry result _ parameters body bodyPosition position =>
    exact ⟨front, k, result, parameters, body, bodyPosition, position, rear, hwithin, rfl⟩

/-- **The calls in the code of a statement** are those in its expressions and those that print. -/
theorem Stmt.call_cases {n : Nat} {s : Stmt} {before : Listing} {name : String}
    {remark : Option String} (ho : Occurs (s.code n) before (.code (.call name) remark)) :
    CallsIn s.parts name ∨ ∃ front k e position rear,
      Stmt.Within n s front k (.print e position) rear ∧ before = front ++ printFront k e ∧
        name = "print_int" := by
  obtain ⟨front, k, t, rear, rest, hwithin, rfl, hw⟩ := Stmt.exists_writes rfl ho
  generalize hline : Line.code (.call name) remark = line at hw
  cases hw with
  | expr he hl =>
    rw [← hline] at hl
    have hcalls := Expr.callsIn_parts _ _ hl
    exact .inl (hcalls.mono (List.Subset.trans he hwithin.parts_subset))
  | print e position =>
    obtain ⟨rfl, -⟩ : name = "print_int" ∧ remark = some "call print function" := by
      simpa [Line.noted] using hline
    exact .inr ⟨front, k, e, position, rear, hwithin, rfl, rfl⟩
  | entry => cases hline

theorem Stmt.parts_subset_partsAll {s : Stmt} {body : List Stmt} (h : s ∈ body) :
    s.parts ⊆ Stmt.partsAll body := by
  obtain ⟨left, right, rfl⟩ := List.append_of_mem h
  intro e he
  simp [Stmt.partsAll_append, Stmt.partsAll, he]

/-- **The calls of a listing:** those in the expressions of the program, those that print, and that
of `main` behind the start of the listing. -/
theorem Program.call_cases {p : Program} {before : Listing} {name : String}
    {remark : Option String} (ho : Occurs (p.code 0) before (.code (.call name) remark)) :
    CallsIn p.parts name ∨
    (∃ front n e position rear, p.Emits front n (.print e position) rear ∧
      before = front ++ printFront n e ∧ name = "print_int") ∨
    before = Program.header ++ Stmt.codeAll 0 p.statements ++ [.blank, .raw "_start:"] ∧
      name = "main" := by
  have hheader : Linkless Program.header := by decide
  rcases occurs_append.mp ho with ho' | ⟨rest, rfl, ho'⟩
  · rcases occurs_append.mp ho' with ho'' | ⟨rest, rfl, ho''⟩
    · exact absurd ho'' (hheader.not_occurs rfl)
    · obtain ⟨left, s, right, rest', hp, rfl, hs⟩ := Stmt.occurs_codeAll ho''
      rcases Stmt.call_cases hs with hcalls | ⟨front, k, e, position, rear, hwithin, rfl, rfl⟩
      · refine .inl (hcalls.mono (Stmt.parts_subset_partsAll ?_))
        simp [hp]
      · have hemits := (Program.Emits.statement hp).within (by simpa using hwithin)
        exact .inr (.inl ⟨_, k, e, position, _, hemits, by simp, rfl⟩)
  · obtain ⟨rfl, hline⟩ := Occurs.eq_of_linkless [_, _] ho' rfl (by decide) (by decide)
    obtain ⟨rfl, -⟩ : name = "main" ∧ remark = none := by simpa [Line.plain] using hline
    exact .inr (.inr ⟨rfl, rfl⟩)

end StackListing
