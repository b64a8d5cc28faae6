import StackListing.Proofs.Execution.Emission
import StackListing.Proofs.Listing.Taken

/-!
# Jumps stay inside statements

`targets lines` lists the labels that are jumped to.  A piece of code is closed if it places every
label that it jumps to.  The code of a statement is closed, and so is what is left of a listing when
the code of a statement is cut out of it: no jump leads out of the code of a statement or into it.
The texts of labels keep them apart too, since a text tells the number behind its last underscore.
-/

namespace StackListing

/-! ### Targets -/

/-- The label that an instruction can jump to. -/
@[simp] def Instruction.target? : Instruction → Option Label
  | .jmp l | .je l => some l
  | .push _ | .pop _ | .mov _ _ | .movzx _ _ | .add _ _ | .sub _ _ | .imul _ _ | .cdq | .idiv _
  | .neg _ | .and _ _ | .or _ _ | .cmp _ _ | .set _ _ | .call _ | .ret | .interrupt _ => none

/-- The label that a line can jump to. -/
def Line.target? : Line → Option Label
  | .code i _ => i.target?
  | .label _ | .entry _ | .comment _ | .raw _ | .blank => none

/-- **The labels that are jumped to in a listing,** in order. -/
def targets (lines : Listing) : List Label := lines.filterMap Line.target?

section Targets

variable {lines xs ys : Listing} {i : Instruction} {l : Label}

@[simp] theorem targets_nil : targets [] = [] := rfl

@[simp] theorem targets_append : targets (xs ++ ys) = targets xs ++ targets ys :=
  List.filterMap_append

theorem targets_code {remark : Option String} :
    targets (.code i remark :: lines) = i.target?.toList ++ targets lines := by
  have hline : (Line.code i remark).target? = i.target? := rfl
  rw [targets, List.filterMap_cons, hline]
  cases i.target? <;> rfl

@[simp] theorem targets_plain :
    targets (.plain i :: lines) = i.target?.toList ++ targets lines := targets_code

@[simp] theorem targets_noted {remark : String} :
    targets (.noted i remark :: lines) = i.target?.toList ++ targets lines := targets_code

@[simp] theorem targets_label : targets (.label l :: lines) = targets lines := rfl

@[simp] theorem targets_comment {text : String} :
    targets (.comment text :: lines) = targets lines := rfl

@[simp] theorem targets_entry {name : String} :
    targets (.entry name :: lines) = targets lines := rfl

@[simp] theorem targets_raw {text : String} : targets (.raw text :: lines) = targets lines := rfl

@[simp] theorem targets_blank : targets (.blank :: lines) = targets lines := rfl

theorem mem_targets : l ∈ targets lines ↔ ∃ line ∈ lines, line.target? = some l :=
  List.mem_filterMap

end Targets

/-! ### Straight lines -/

/-- Whether a line is a comment or an instruction behind which the next line comes. -/
def Line.straight : Line → Bool
  | .code (.jmp _) _ | .code (.je _) _ | .code .ret _ | .code (.interrupt _) _ => false
  | .code _ _ | .comment _ => true
  | .label _ | .entry _ | .raw _ | .blank => false

/-- A piece of code that is run from its first line to its last. -/
def Straight (lines : Listing) : Prop := ∀ line ∈ lines, line.straight = true

namespace Straight

variable {lines xs ys : Listing} {line : Line}

theorem nil : Straight [] := fun _ h => absurd h List.not_mem_nil

theorem cons (h : line.straight = true) (hs : Straight lines) : Straight (line :: lines) := by
  intro line' hmem
  rcases List.mem_cons.mp hmem with rfl | hmem
  · exact h
  · exact hs line' hmem

theorem append (hx : Straight xs) (hy : Straight ys) : Straight (xs ++ ys) := by
  intro line hmem
  rcases List.mem_append.mp hmem with hmem | hmem
  · exact hx line hmem
  · exact hy line hmem

theorem targets_eq_nil (h : Straight lines) : targets lines = [] := by
  refine List.filterMap_eq_nil_iff.mpr fun line hmem => ?_
  have hline := h line hmem
  cases line with
  | code i =>
    cases i with
    | jmp | je => cases hline
    | _ => rfl
  | _ => rfl

end Straight

theorem Literal.straight_code (v : Literal) (n : Nat) : Straight (v.code n) := by
  cases v with
  | float => exact .cons rfl (.cons rfl .nil)
  | integer | boolean | string => exact .cons rfl .nil

theorem Condition.straight_compareCode (c : Condition) : Straight c.compareCode :=
  .cons rfl (.cons rfl (.cons rfl .nil))

theorem UnaryOp.straight_code (op : UnaryOp) : Straight op.code := by
  cases op with
  | negate => exact .cons rfl .nil
  | not => exact .cons rfl (.cons rfl (.cons rfl .nil))

theorem BinaryOp.straight_code (op : BinaryOp) : Straight op.code := by
  cases op with
  | add | subtract | multiply | and | or => exact .cons rfl .nil
  | divide => exact .cons rfl (.cons rfl .nil)
  | modulo => exact .cons rfl (.cons rfl (.cons rfl .nil))
  | _ => exact Condition.straight_compareCode _

theorem Expr.straight_cleanup (count : Nat) : Straight (Expr.cleanup count) := by
  rw [Expr.cleanup]
  split
  · exact .nil
  · exact .cons rfl .nil

mutual

theorem Expr.straight_code : ∀ (e : Expr) (n : Nat), Straight (e.code n)
  | .literal v _, n => v.straight_code n
  | .var _ _, _ => .cons rfl .nil
  | .unary op operand _, n => (Expr.straight_code operand n).append op.straight_code
  | .binary op left right _, n =>
    ((((Expr.straight_code left n).append (.cons rfl .nil)).append
      (Expr.straight_code right _)).append (.cons rfl (.cons rfl .nil))).append op.straight_code
  | .call callee arguments _, n => by
    rw [Expr.code]
    split
    · exact .nil
    · exact ((Straight.cons rfl (Expr.straight_codeAll arguments n 0)).append
        (.cons rfl .nil)).append (Expr.straight_cleanup _)
  | .assign _ value _, n => (Expr.straight_code value n).append (.cons rfl .nil)

theorem Expr.straight_codeAll : ∀ (es : List Expr) (n index : Nat),
    Straight (Expr.codeAll n index es)
  | [], _, _ => .nil
  | e :: es, n, index =>
    ((Expr.straight_codeAll es n (index + 1)).append (Expr.straight_code e _)).append
      (.cons rfl .nil)

end

@[simp] theorem Expr.targets_code (e : Expr) (n : Nat) : targets (e.code n) = [] :=
  (e.straight_code n).targets_eq_nil

@[simp] theorem Expr.targets_codeOption (n : Nat) (e : Option Expr) :
    targets (Expr.codeOption n e) = [] := by
  cases e with
  | none => rfl
  | some e => exact e.targets_code n

/-! ### Closed code -/

/-- **Every label that is jumped to in the lines is placed in them.** -/
def Closed (lines : Listing) : Prop := ∀ l ∈ targets lines, l ∈ placed lines

namespace Closed

variable {lines xs ys before after before' after' : Listing}

theorem of_straight (h : Straight lines) : Closed lines := by
  intro l hl
  rw [h.targets_eq_nil] at hl
  cases hl

theorem append (hx : Closed xs) (hy : Closed ys) : Closed (xs ++ ys) := by
  intro l hl
  rw [targets_append] at hl
  rw [placed_append]
  exact (List.mem_append.mp hl).elim (fun h => List.mem_append_left _ (hx l h))
    fun h => List.mem_append_right _ (hy l h)

/-- What surrounds an inner piece is closed if what surrounds the outer one is. -/
theorem nest (h : Closed (before ++ after)) (h' : Closed (before' ++ after')) :
    Closed (before ++ before' ++ (after' ++ after)) := by
  intro l hl
  have hx := h l
  have hy := h' l
  simp only [targets_append, placed_append, List.mem_append] at hx hy hl ⊢
  tauto

end Closed

namespace Stmt

mutual

/-- **The code of a statement is closed.** -/
theorem closed_code : ∀ (s : Stmt) (n : Nat), Closed (s.code n)
  | expr e, n => .of_straight (e.straight_code n)
  | print e _, n => by
    refine (Closed.of_straight (.cons rfl (e.straight_code n))).append (.of_straight ?_)
    exact .cons rfl (.cons rfl (.cons rfl .nil))
  | giveBack value _, n => by
    intro l hl
    cases value <;> simp [code, giveBackCode, epilogue] at hl
  | variableDecl _ _ initial _, n => by
    cases initial with
    | none => exact .of_straight (.cons rfl .nil)
    | some e =>
      exact .of_straight (.cons rfl ((e.straight_code n).append (.cons rfl .nil)))
  | block body _, n => by
    have hb := closed_codeAll body n
    intro l hl
    simp only [code, targets_append, targets_comment, targets_nil, List.append_nil] at hl
    simpa [code] using hb l hl
  | branch c yes no _, n => by
    -- The jumps of the branch itself go to its own two labels, the others are those of its parts.
    intro l hl
    have hy := closed_code yes (n + 2 + c.labels) l
    have hn := closed_codeOption no (n + 2 + c.labels + yes.labels) l
    simp [code, jumpIfZero] at hl ⊢
    tauto
  | whileLoop c body _, n => by
    intro l hl
    have hb := closed_code body (n + 2 + c.labels) l
    simp [code, jumpIfZero] at hl ⊢
    tauto
  | forLoop initial c i body _, n => by
    intro l hl
    have hi := closed_codeOption initial (n + 2) l
    have hb := closed_code body (n + 2 + labelsOption initial + Expr.labelsOption c) l
    cases c <;> simp [code, jumpIfZero, conditionCode] at hl ⊢ <;> tauto
  | functionDecl _ _ _ body _ _, n => by
    have hb := closed_codeAll body n
    intro l hl
    simp [code, prologue, epilogue] at hl ⊢
    exact hb l hl

theorem closed_codeAll : ∀ (body : List Stmt) (n : Nat), Closed (codeAll n body)
  | [], _ => .of_straight .nil
  | s :: rest, n => (closed_code s n).append (closed_codeAll rest (n + s.labels))

theorem closed_codeOption : ∀ (s : Option Stmt) (n : Nat), Closed (codeOption n s)
  | none, _ => .of_straight .nil
  | some s, n => closed_code s n

end

/-- What a statement puts around the code of a part of it is closed. -/
theorem Part.closed {n k : Nat} {s t : Stmt} {before after : Listing}
    (h : Part n s before k t after) : Closed (before ++ after) := by
  intro l hl
  cases h with
  | block front _ rear =>
    have hf := closed_codeAll front n l
    have hr := closed_codeAll rear (n + labelsAll front + t.labels) l
    simp at hl ⊢
    tauto
  | function _ _ _ front _ rear =>
    have hf := closed_codeAll front n l
    have hr := closed_codeAll rear (n + labelsAll front + t.labels) l
    simp [prologue, epilogue] at hl ⊢
    tauto
  | yes c _ other =>
    have hn := closed_codeOption other (n + 2 + c.labels + t.labels) l
    simp [jumpIfZero] at hl ⊢
    tauto
  | no c other =>
    have hy := closed_code other (n + 2 + c.labels) l
    simp [jumpIfZero] at hl ⊢
    tauto
  | whileBody =>
    simp [jumpIfZero] at hl ⊢
    tauto
  | forInitial _ c i body =>
    have hb := closed_code body (n + 2 + t.labels + Expr.labelsOption c) l
    cases c <;> simp [jumpIfZero, conditionCode] at hl ⊢ <;> tauto
  | forBody initial c i =>
    have hi := closed_codeOption initial (n + 2) l
    cases c <;> simp [jumpIfZero, conditionCode] at hl ⊢ <;> tauto

end Stmt

section Emits

variable {p : Program} {before after : Listing} {n : Nat} {s : Stmt}

/-- What is left of a listing without the code of a statement is closed. -/
theorem Program.Emits.closed (h : p.Emits before n s after) : Closed (before ++ after) := by
  induction h with
  | @statement front rear s _ =>
    intro l hl
    have hf := Stmt.closed_codeAll front 0 l
    have hr := Stmt.closed_codeAll rear (Stmt.labelsAll front + s.labels) l
    simp [Program.header, Program.footer] at hl ⊢
    tauto
  | part _ ht ih => exact ih.nest ht.closed

/-- No label that stands in the code of a statement stands outside it. -/
theorem Program.Emits.not_mem_placed (h : p.Emits before n s after) {l : Label}
    (hl : l ∈ placed (s.code n)) : l ∉ placed (before ++ after) := by
  have hn := p.nodup_placed_code 0
  rw [h.code_eq, placed_append, placed_append, List.nodup_append', List.nodup_append'] at hn
  obtain ⟨⟨-, -, hbefore⟩, -, hafter⟩ := hn
  rw [placed_append, List.mem_append]
  rintro (hmem | hmem)
  · exact hbefore hmem hl
  · exact hafter (List.mem_append_right _ hl) hmem

/-- No jump leads into the code of a statement. -/
theorem Program.Emits.not_mem_targets (h : p.Emits before n s after) {l : Label}
    (hl : l ∈ placed (s.code n)) : l ∉ targets (before ++ after) :=
  fun ht => h.not_mem_placed hl (h.closed l ht)

end Emits

/-! ### Texts of labels -/

theorem toList_toString (n : Nat) : (toString n).toList = Nat.toDigits 10 n := by
  rw [Nat.toString_eq_ofList_toDigits, String.toList_ofList]

theorem underscore_not_mem_toString (n : Nat) : '_' ∉ (toString n).toList := by
  intro h
  rw [toList_toString] at h
  exact absurd (Nat.isDigit_of_mem_toDigits (by decide) (by decide) h) (by decide)

theorem toList_toString_injective {m n : Nat} (h : (toString m).toList = (toString n).toList) :
    m = n := by
  rw [toList_toString, toList_toString] at h
  have hvalue := congrArg (Nat.ofDigitChars 10 · 0) h
  simpa only [Nat.ofDigitChars_ten_toDigits] using hvalue

/-- What stands around the last underscore of a text is determined by the text. -/
theorem split_underscore {xs ys ds es : List Char} (hd : '_' ∉ ds) (he : '_' ∉ es)
    (h : xs ++ '_' :: ds = ys ++ '_' :: es) : xs = ys ∧ ds = es := by
  rcases List.append_eq_append_iff.mp h with ⟨as, hys, htail⟩ | ⟨as, hxs, htail⟩
  · cases as with
    | nil =>
      obtain ⟨-, rfl⟩ := List.cons_eq_cons.mp htail
      exact ⟨by rw [hys, List.append_nil], rfl⟩
    | cons a as =>
      obtain ⟨-, rfl⟩ := List.cons_eq_cons.mp htail
      exact absurd (List.mem_append_right as List.mem_cons_self) hd
  · cases as with
    | nil =>
      obtain ⟨-, rfl⟩ := List.cons_eq_cons.mp htail
      exact ⟨by rw [hxs, List.append_nil], rfl⟩
    | cons a as =>
      obtain ⟨-, rfl⟩ := List.cons_eq_cons.mp htail
      exact absurd (List.mem_append_right as List.mem_cons_self) he

theorem Label.toList_text (l : Label) :
    l.text.toList = l.stem.toList ++ '_' :: (toString l.id).toList := by
  simp [Label.text]

/-- **Different labels have different texts.** -/
theorem Label.text_injective : Function.Injective Label.text := by
  intro l l' h
  have hlist := congrArg String.toList h
  rw [l.toList_text, l'.toList_text] at hlist
  obtain ⟨hstem, hid⟩ := split_underscore (underscore_not_mem_toString l.id)
    (underscore_not_mem_toString l'.id) hlist
  cases l
  cases l'
  rw [Label.mk.injEq]
  exact ⟨String.toList_injective hstem, toList_toString_injective hid⟩

/-! ### Programs -/

namespace Program

/-- **The labels that the listing of a program takes,** in order. -/
def taken (p : Program) : List Label := Stmt.takenAll 0 p.statements

theorem placed_code (p : Program) (n : Nat) :
    placed (p.code n) = placed (Stmt.codeAll n p.statements) := by
  simp [code, header, footer]

theorem map_id_taken (p : Program) :
    p.taken.map Label.id = List.range (Stmt.labelsAll p.statements) := by
  rw [List.range_eq_range']
  exact Stmt.map_id_takenAll p.statements 0

theorem mem_mentioned_code (p : Program) {l : Label} :
    l ∈ mentioned (p.code 0) ↔ l ∈ p.taken := by
  rw [taken, ← Stmt.mem_mentioned_codeAll]
  simp [code, header, footer]

theorem count_placed_code (p : Program) {l : Label} (hl : l ∈ p.taken) :
    (placed (p.code 0)).count l = if l.stem = "str" then 0 else 1 := by
  have hmem : l ∈ placed (p.code 0) ↔ l.stem ≠ "str" := by
    rw [placed_code, Stmt.mem_placed_codeAll, mem_forJumps]
    exact and_iff_right hl
  split
  · rename_i hstem
    exact List.count_eq_zero.mpr fun h => hmem.mp h hstem
  · rename_i hstem
    exact List.count_eq_one_of_mem (p.nodup_placed_code 0) (hmem.mpr hstem)

/-- **Jumps are well formed.**  The labels that a program takes are numbered from zero on, one label
to a number, and are the labels that occur in its listing.  Each of them is placed once, unless it
is the label of a text, which is placed nowhere.  Wherever the code of a statement was put into the
listing, its jumps go to labels placed in that code, and no jump before or behind it goes there.
Different labels of the listing have different texts. -/
theorem jumps_wellFormed (p : Program) :
    p.taken.map Label.id = List.range (Stmt.labelsAll p.statements) ∧
    (∀ l, l ∈ mentioned (p.code 0) ↔ l ∈ p.taken) ∧
    (∀ l ∈ p.taken, (placed (p.code 0)).count l = if l.stem = "str" then 0 else 1) ∧
    (∀ before n s after, p.Emits before n s after →
      (∀ l ∈ targets (s.code n), l ∈ placed (s.code n)) ∧
      ∀ l ∈ placed (s.code n), l ∉ targets before ∧ l ∉ targets after) ∧
    ∀ l ∈ p.taken, ∀ l' ∈ p.taken, l ≠ l' → l.text ≠ l'.text := by
  refine ⟨p.map_id_taken, fun l => p.mem_mentioned_code, fun l => p.count_placed_code, ?_, ?_⟩
  · intro before n s after h
    refine ⟨s.closed_code n, fun l hl => ?_⟩
    have hout := h.not_mem_targets hl
    rw [targets_append, List.mem_append, not_or] at hout
    exact hout
  · intro l _ l' _ hne htext
    exact hne (Label.text_injective htext)

/-- A loop that keeps a text in a variable. -/
def greetingLoop : Stmt :=
  .whileLoop (.literal (.boolean true) .unknown)
    (.variableDecl .string "s" (some (.literal (.string "hello") .unknown)) .unknown) .unknown

/-- A program with the loop behind an empty one, which takes the first labels. -/
def greeting : Program :=
  ⟨[.functionDecl .int "main" []
    [.whileLoop (.literal (.boolean false) .unknown) (.block [] .unknown) .unknown, greetingLoop]
    .unknown .unknown]⟩

theorem jumps_wellFormed_greeting : ∃ before after, greeting.Emits before 2 greetingLoop after ∧
    (⟨"str", 4⟩ ∈ greeting.taken ∧ (placed (greeting.code 0)).count ⟨"str", 4⟩ = 0) ∧
    (⟨"loop", 2⟩ ∈ greeting.taken ∧ (placed (greeting.code 0)).count ⟨"loop", 2⟩ = 1) ∧
    (⟨"loop", 2⟩ ∈ targets (greetingLoop.code 2) ∧ ⟨"loop", 2⟩ ∈ placed (greetingLoop.code 2)) ∧
    ⟨"loop", 2⟩ ∉ targets before ∧ ⟨"loop", 2⟩ ∉ targets after := by
  have hstatements : greeting.statements = [] ++ _ :: [] := rfl
  have hemits := Emits.part (.statement hstatements) (.function 0 _ _ _ [_] greetingLoop [] _ _)
  obtain ⟨-, -, hcount, hstatement, -⟩ := jumps_wellFormed greeting
  obtain ⟨hinside, houtside⟩ := hstatement _ _ _ _ hemits
  have htarget : ⟨"loop", 2⟩ ∈ targets (greetingLoop.code 2) := by decide
  have hplaced := hinside _ htarget
  have hstr : ⟨"str", 4⟩ ∈ greeting.taken := by decide
  have hloop : ⟨"loop", 2⟩ ∈ greeting.taken := by decide
  exact ⟨_, _, hemits, ⟨hstr, hcount _ hstr⟩, ⟨hloop, hcount _ hloop⟩, ⟨htarget, hplaced⟩,
    houtside _ hplaced⟩

end Program

end StackListing
