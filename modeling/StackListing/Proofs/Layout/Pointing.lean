import Mathlib.Data.List.DropRight
import StackListing.Excerpt
import StackListing.Proofs.Layout.Reading
import StackListing.Proofs.Lexing.MaximalMunch
import StackListing.Proofs.Phases.Gating

/-!
# Complaints point into the source

A place of a source is the line and the column behind some beginning of it.  Scanning puts tokens
and complaints at such places.  The parser charges its complaints and its trees to places of tokens,
and checking charges its complaints to places of trees: tokens at places of the source are alike to
themselves if two places correspond where the first is one of the source, and so are the trees and
complaints that come of them (`parse_alike`).  Hence every complaint of a failed compilation is at a
place of the source.

The line of the source that an excerpt shows for a place is the line around it (`lineAt?_place`).
There is none only at the end of a source whose last line is closed.
-/

namespace StackListing

/-- What stands behind the last newline of a text. -/
def openLine (before : List Char) : List Char := before.rtakeWhile (· ≠ '\n')

/-- A text up to its last newline. -/
def closedLines (before : List Char) : List Char := before.rdropWhile (· ≠ '\n')

/-- The line around the spot between `before` and `after`: what stands between the last newline
before the spot and the next newline behind it. -/
def lineAround (before after : List Char) : List Char :=
  openLine before ++ after.takeWhile (· ≠ '\n')

theorem closedLines_append_openLine (before : List Char) :
    closedLines before ++ openLine before = before := List.rdropWhile_append_rtakeWhile

theorem newline_notMem_openLine (before : List Char) : '\n' ∉ openLine before := by
  intro h
  simpa using List.mem_rtakeWhile_imp h

theorem closedLines_eq_nil_or (before : List Char) :
    closedLines before = [] ∨ ∃ b, closedLines before = b ++ ['\n'] := by
  by_cases hne : closedLines before = []
  · exact .inl hne
  · have hlast : (closedLines before).getLast hne = '\n' := by
      by_contra hc
      exact List.rdropWhile_last_not _ before hne (decide_eq_true hc)
    refine .inr ⟨(closedLines before).dropLast, ?_⟩
    conv_lhs => rw [← List.dropLast_concat_getLast hne, hlast]

theorem openLine_eq_nil_iff {before : List Char} (hne : before ≠ []) :
    openLine before = [] ↔ before.getLast? = some '\n' := by
  rw [openLine, List.rtakeWhile_eq_nil_iff, List.getLast?_eq_some_getLast hne]
  simp [hne]

/-- All newlines of a text are in its closed lines. -/
theorem count_closedLines (before : List Char) :
    (closedLines before).count '\n' = before.count '\n' := by
  conv_rhs => rw [← closedLines_append_openLine before, List.count_append,
    List.count_eq_zero_of_not_mem (newline_notMem_openLine before), Nat.add_zero]

/-! ### Lines -/

/-- The first line ends before the first newline. -/
theorem head?_lines (cs : List Char) :
    (lines cs).head? = if cs = [] then none else some (cs.takeWhile (· ≠ '\n')) := by
  induction cs with
  | nil => rfl
  | cons c cs ih =>
    unfold lines
    by_cases hc : c = '\n'
    · simp [hc]
    · cases hlines : lines cs with
      | nil =>
        have hcs : cs = [] := by
          by_contra hne
          simp [hlines, hne] at ih
        simp [hc, hcs]
      | cons l ls =>
        have hcs : cs ≠ [] := by
          rintro rfl
          cases hlines
        have hl : l = cs.takeWhile (· ≠ '\n') := by simpa [hlines, hcs] using ih
        simp [hc, hl]

/-- A newline closes as many lines as there are newlines up to it, and lines begin afresh behind
it. -/
theorem lines_append_newline (b rest : List Char) :
    ∃ ls : List (List Char), ls.length = b.count '\n' + 1 ∧
      lines (b ++ '\n' :: rest) = ls ++ lines rest := by
  induction b with
  | nil => exact ⟨[[]], rfl, rfl⟩
  | cons c b ih =>
    obtain ⟨ls, hlength, hlines⟩ := ih
    by_cases hc : c = '\n'
    · refine ⟨[] :: ls, by simp [hc, hlength], ?_⟩
      rw [List.cons_append, lines, if_pos hc, hlines, List.cons_append]
    · cases ls with
      | nil => cases hlength
      | cons l ls =>
        refine ⟨(c :: l) :: ls, by simpa [hc] using hlength, ?_⟩
        rw [List.cons_append, lines, if_neg hc, hlines]
        rfl

/-- Behind closed lines, the line with their number is the first. -/
theorem getElem?_lines_closed {closed : List Char} (h : closed = [] ∨ ∃ b, closed = b ++ ['\n'])
    (rest : List Char) :
    (lines (closed ++ rest))[closed.count '\n']? = (lines rest).head? := by
  obtain rfl | ⟨b, rfl⟩ := h
  · exact List.head?_eq_getElem?.symm
  · obtain ⟨ls, hlength, hlines⟩ := lines_append_newline b rest
    have hcount : (b ++ ['\n']).count '\n' = ls.length := by simp [hlength]
    rw [List.append_assoc, List.singleton_append, hlines, hcount,
      List.getElem?_append_right (Nat.le_refl _), Nat.sub_self, List.head?_eq_getElem?]

/-- **The line with the number of a spot is the line around it,** unless nothing stands behind the
last newline before it. -/
theorem getElem?_lines (before after : List Char) :
    (lines (before ++ after))[before.count '\n']? =
      if openLine before ++ after = [] then none else some (lineAround before after) := by
  have hline : (openLine before ++ after).takeWhile (· ≠ '\n') = lineAround before after := by
    refine List.takeWhile_append_of_pos fun c hc => decide_eq_true ?_
    rintro rfl
    exact newline_notMem_openLine before hc
  calc (lines (before ++ after))[before.count '\n']?
      = (lines (closedLines before ++ (openLine before ++ after)))[
          (closedLines before).count '\n']? := by
        rw [← List.append_assoc, closedLines_append_openLine, count_closedLines]
    _ = (lines (openLine before ++ after)).head? :=
        getElem?_lines_closed (closedLines_eq_nil_or before) _
    _ = if openLine before ++ after = [] then none else some (lineAround before after) := by
        rw [head?_lines, hline]

/-! ### Places -/

theorem place_eq (before : List Char) :
    place before = ⟨1 + before.count '\n', 1 + (openLine before).length⟩ := by
  simp [place, openLine, List.rtakeWhile]

/-- Lines and columns count from one, and together they count no more than the characters. -/
theorem place_bounds (before : List Char) : 1 ≤ (place before).line ∧ 1 ≤ (place before).column ∧
    (place before).line + (place before).column ≤ before.length + 2 := by
  have hlength : (closedLines before).length + (openLine before).length = before.length := by
    rw [← List.length_append, closedLines_append_openLine]
  have hcount : before.count '\n' ≤ (closedLines before).length :=
    count_closedLines before ▸ List.count_le_length
  rw [place_eq]
  dsimp only
  omega

/-- The line that is shown for a place is the line around it. -/
theorem lineAt?_place {source : String} {before after : List Char}
    (h : source.toList = before ++ after) :
    lineAt? source (place before) = if openLine before ++ after = [] then none
      else some ((lineAround before after).rdropWhile (· = '\r')) := by
  obtain ⟨hline, hcolumn, -⟩ := place_bounds before
  have hknown : (place before).isKnown ∧ (place before).line ≠ 0 := by
    refine ⟨?_, by omega⟩
    simp only [Position.isKnown, Bool.and_eq_true, decide_eq_true_eq]
    omega
  have hindex : ((place before).line - 1).toNat = before.count '\n' := by
    rw [place_eq]
    dsimp only
    omega
  rw [lineAt?, if_pos hknown, hindex, h, getElem?_lines]
  split_ifs <;> rfl

/-- **A place of the source:** the line and the column behind some beginning of it. -/
def IsPlaceOf (source : String) (p : Position) : Prop :=
  ∃ before after, source.toList = before ++ after ∧ p = place before

theorem isPlaceOf_start (source : String) : IsPlaceOf source .start := ⟨[], _, rfl, rfl⟩

/-- Pieces stand at places. -/
theorem isPlaceOf_located {source : String} {before : List Char} {pieces : List Piece}
    (h : source.toList = before ++ pieces.flatMap Piece.text) {y : Position × Piece}
    (hy : y ∈ located before pieces) : IsPlaceOf source y.1 := by
  induction pieces generalizing before with
  | nil => cases hy
  | cons x pieces ih =>
    rcases List.mem_cons.mp hy with rfl | hy
    · exact ⟨before, _, h, rfl⟩
    · refine ih ?_ hy
      rw [h, List.flatMap_cons, List.append_assoc]

/-- Scanning puts tokens and complaints at places of the source. -/
theorem isPlaceOf_tokenize (source : String) :
    (∀ t ∈ (tokenize source).tokens, IsPlaceOf source t.position) ∧
      ∀ d ∈ (tokenize source).errors, IsPlaceOf source d.position := by
  obtain ⟨pieces, hcut, -, hscan⟩ := exists_tokenize_eq source
  have hpieces : source.toList = [] ++ pieces.flatMap Piece.text := hcut.whole.symm
  rw [hscan]
  refine ⟨fun t ht => ?_, fun d hd => ?_⟩
  · rcases List.mem_append.mp ht with ht | ht
    · obtain ⟨y, hy, hyt⟩ := List.mem_filterMap.mp ht
      rw [Piece.position_token? hyt]
      exact isPlaceOf_located hpieces hy
    · obtain rfl := List.mem_singleton.mp ht
      exact ⟨source.toList, [], (List.append_nil _).symm, rfl⟩
  · obtain ⟨y, hy, hyd⟩ := List.mem_filterMap.mp hd
    rw [Piece.position_error? hyd]
    exact isPlaceOf_located hpieces hy

/-- **Every phase complains about places of the source.** -/
theorem isPlaceOf_reports (source : String) (phase : Phase) :
    ∀ d ∈ phase.reports source, IsPlaceOf source d.position := by
  obtain ⟨htokens, hscan⟩ := isPlaceOf_tokenize source
  -- two places correspond if the first is one of the source
  let ρ : Position → Position → Prop := fun p _ => IsPlaceOf source p
  have hself : List.Forall₂ (Token.Alike ρ) ((tokenize source).tokens.filter (·.kind ≠ .newline))
      ((tokenize source).tokens.filter (·.kind ≠ .newline)) :=
    List.forall₂_same.mpr fun t ht => ⟨fun _ => rfl, htokens t (List.mem_of_mem_filter ht)⟩
  obtain ⟨hprogram, herrors⟩ := parse_alike (isPlaceOf_start source) hself
  cases phase with
  | scanning => exact hscan
  | parsing => exact fun d hd => (List.forall₂_same.mp herrors d hd).place
  | checking => exact fun d hd => (List.forall₂_same.mp hprogram.check d hd).place
  | generation => exact fun d hd => absurd hd List.not_mem_nil

/-- The empty source has no faults. -/
theorem compile_empty_ne (f : Failure) : compile "" ≠ .error f := by
  have hok : compile "" = .ok _ := compile_of_silent (by decide +kernel) (by decide +kernel)
    (by decide +kernel)
  rw [hok]
  exact nofun

/-- **Complaints point into the source.**  Every complaint of a failed compilation is at the line
and the column of a spot of the source, between its first characters `before` and the others
`after`.  Both count from one, and together they count no more than the characters.  The line shown
for the complaint is the line around the spot without the carriage returns at its end.  None is
shown exactly if the spot is the end of a source that ends in a newline. -/
theorem compile_points {source : String} {f : Failure} (hfails : compile source = .error f)
    {d : Diagnostic} (hd : d ∈ f.errors) :
    ∃ before after : List Char, source.toList = before ++ after ∧ d.position = place before ∧
      1 ≤ d.position.line ∧ 1 ≤ d.position.column ∧
      d.position.line + d.position.column ≤ source.length + 2 ∧
      lineAt? source d.position =
        if after = [] ∧ source.toList.getLast? = some '\n' then none
        else some ((lineAround before after).rdropWhile (· = '\r')) := by
  have hreport := (compile_eq_error_iff.mp hfails).1
  rw [hreport] at hd
  obtain ⟨before, after, hsource, hplace⟩ := isPlaceOf_reports source f.phase d hd
  obtain ⟨hline, hcolumn, hsum⟩ := place_bounds before
  have hlength : before.length ≤ source.length := by
    rw [← String.length_toList, hsource, List.length_append]
    exact Nat.le_add_right _ _
  have hne : source.toList ≠ [] := by
    intro hnil
    have hempty : source = "" := String.toList_injective hnil
    exact compile_empty_ne f (hempty ▸ hfails)
  have hopen : openLine before ++ after = [] ↔
      after = [] ∧ source.toList.getLast? = some '\n' := by
    rw [List.append_eq_nil_iff, and_comm]
    refine and_congr_right fun hafter => ?_
    rw [hafter, List.append_nil] at hsource
    rw [hsource, openLine_eq_nil_iff (hsource ▸ hne)]
  refine ⟨before, after, hsource, hplace, ?_⟩
  rw [hplace, lineAt?_place hsource, if_congr hopen rfl rfl]
  exact ⟨hline, hcolumn, by omega, rfl⟩

/-- A string that goes on on the second line, where a number is taken from it. -/
def brokenString : String := "print(\"a\nb\" - 1);\r\n"

/-- The complaint about the sign between them. -/
def brokenStringFault : Diagnostic := ⟨.invalidOperands "-" "string" "int", ⟨2, 4⟩⟩

theorem compile_points_brokenString :
    compile brokenString = .error ⟨.checking, [brokenStringFault]⟩ ∧
    (∃ before after : List Char, brokenString.toList = before ++ after ∧
      brokenStringFault.position = place before ∧ 1 ≤ brokenStringFault.position.line ∧
      1 ≤ brokenStringFault.position.column ∧
      brokenStringFault.position.line + brokenStringFault.position.column ≤
        brokenString.length + 2 ∧
      lineAt? brokenString brokenStringFault.position =
        if after = [] ∧ brokenString.toList.getLast? = some '\n' then none
        else some ((lineAround before after).rdropWhile (· = '\r'))) ∧
    lineAt? brokenString brokenStringFault.position = some "b\" - 1);".toList := by
  have hfails : compile brokenString = .error ⟨.checking, [brokenStringFault]⟩ := by
    decide +kernel
  exact ⟨hfails, compile_points hfails (List.mem_singleton.mpr rfl), by decide +kernel⟩

end StackListing
