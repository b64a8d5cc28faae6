import StackListing.Proofs.Layout.Pointing
import StackListing.Proofs.Number.DecimalText

/-!
# The caret of an excerpt is under the character it is about

An excerpt shows a line without the spaces and tabs before its text and without the blanks at its
end (`Excerpt.Cuts`), behind a margin with the number of the line.  The line of the caret has a
margin of the same width, and the caret is moved to the left by as many columns as were cut off
before the text.  So it is under the character that the complaint is about, if this is a character
of the text.  If it is one of the blanks at the end, the caret is behind the text.
-/

namespace StackListing

/-- Characters up to a newline are a line. -/
theorem lines_of_notMem {line : List Char} (h : '\n' ∉ line) (rest : List Char) :
    lines (line ++ '\n' :: rest) = line :: lines rest := by
  induction line with
  | nil => rfl
  | cons c line ih =>
    have hc : c ≠ '\n' := fun hc => h (hc ▸ List.mem_cons_self)
    rw [List.cons_append, lines, if_neg hc, ih fun hmem => h (List.mem_cons_of_mem c hmem)]

namespace Excerpt

/-- The margin of the line that is shown. -/
def numberedMargin (line : Int) : List Char := (toString line).toList ++ [' ', '|', ' ']

/-- The margin of the line of the caret. -/
def bareMargin (line : Int) : List Char :=
  List.replicate ((toString line).length + 1) ' ' ++ ['|', ' ']

theorem length_bareMargin (line : Int) :
    (bareMargin line).length = (numberedMargin line).length := by
  simp [bareMargin, numberedMargin, ← String.length_toList]

/-- **What an excerpt shows of a line:** all but the spaces and tabs before the text and the blanks
behind it. -/
structure Cuts (line indent shown trimmed : List Char) : Prop where
  whole : indent ++ (shown ++ trimmed) = line
  indented : ∀ x ∈ indent, isIndent x = true
  blank : ∀ x ∈ trimmed, Text.isBlank x = true
  begins : ∀ x ∈ shown.head?, isIndent x = false
  ends : ∀ x ∈ shown.getLast?, Text.isBlank x = false

/-- An excerpt gets the line without the carriage returns at its end.  These are blanks, which
would have been cut off anyway. -/
theorem exists_cuts (line : List Char) : ∃ trimmed,
    Cuts line ((line.rdropWhile (· = '\r')).takeWhile isIndent)
      (((line.rdropWhile (· = '\r')).dropWhile isIndent).rdropWhile Text.isBlank) trimmed := by
  set text := line.rdropWhile (· = '\r')
  set body := text.dropWhile isIndent
  refine ⟨body.rtakeWhile Text.isBlank ++ line.rtakeWhile (· = '\r'), ?_, ?_, ?_, ?_, ?_⟩
  · rw [← List.append_assoc (body.rdropWhile _), List.rdropWhile_append_rtakeWhile,
      ← List.append_assoc, List.takeWhile_append_dropWhile, List.rdropWhile_append_rtakeWhile]
  · exact fun x hx => List.mem_takeWhile_imp hx
  · refine List.forall_mem_append.mpr ⟨fun x hx => List.mem_rtakeWhile_imp hx, fun x hx => ?_⟩
    have hreturn := List.mem_rtakeWhile_imp hx
    obtain rfl : x = '\r' := by simpa using hreturn
    decide
  · intro x hx
    obtain ⟨t, ht⟩ := List.rdropWhile_prefix Text.isBlank body
    have hbody : body.head? = some x := ht ▸ List.mem_head?_append_of_mem_head? hx
    have hnot := List.head?_dropWhile_not isIndent text
    rw [hbody] at hnot
    simpa using hnot
  · intro x hx
    have hne : body.rdropWhile Text.isBlank ≠ [] := by
      intro hnil
      rw [hnil] at hx
      cases hx
    rw [List.getLast?_eq_some_getLast hne] at hx
    cases hx
    simpa using List.rdropWhile_last_not Text.isBlank body hne

namespace Cuts

variable {front rest indent shown trimmed : List Char} {c : Char}

/-- No more is cut off than stands before a character that does not belong to the indentation. -/
theorem length_indent_le (h : Cuts (front ++ c :: rest) indent shown trimmed)
    (htext : ¬ ∀ x ∈ front ++ [c], isIndent x = true) : indent.length ≤ front.length := by
  by_contra hlong
  have hcut : indent <+: front ++ c :: rest := ⟨shown ++ trimmed, h.whole⟩
  have hfront : front ++ [c] <+: front ++ c :: rest := ⟨rest, by simp⟩
  have hpart : front ++ [c] <+: indent := by
    refine List.prefix_of_prefix_length_le hfront hcut ?_
    rw [List.length_append, List.length_singleton]
    omega
  exact htext fun x hx => h.indented x (hpart.subset hx)

theorem drop_shown (h : Cuts (front ++ c :: rest) indent shown trimmed)
    (hle : indent.length ≤ front.length) :
    (shown ++ trimmed).drop (front.length - indent.length) = c :: rest := by
  have hdrop : (indent ++ (shown ++ trimmed)).drop front.length = c :: rest := by
    rw [h.whole, List.drop_left]
  rwa [List.drop_append, List.drop_eq_nil_of_le hle, List.nil_append] at hdrop

/-- What is shown at the place of a character is this character, unless it is one of the blanks at
the end of the line. -/
theorem getElem?_shown (h : Cuts (front ++ c :: rest) indent shown trimmed)
    (hle : indent.length ≤ front.length) :
    shown[front.length - indent.length]? =
      if ∀ x ∈ c :: rest, Text.isBlank x = true then none else some c := by
  have hdrop := h.drop_shown hle
  set n := front.length - indent.length
  have hc : (shown ++ trimmed)[n]? = some c := by
    rw [← List.head?_drop, hdrop, List.head?_cons]
  rcases Nat.lt_or_ge n shown.length with hn | hn
  · -- the last of the characters shown is one of `c :: rest`
    have hne : shown.drop n ≠ [] := by simpa using hn
    have hlast : (shown.drop n).getLast hne ∈ c :: rest := by
      rw [← hdrop, List.drop_append_of_le_length hn.le]
      exact List.mem_append_left _ (List.getLast_mem hne)
    have hnot : Text.isBlank ((shown.drop n).getLast hne) = false := by
      refine h.ends _ ?_
      rw [List.getLast_drop]
      exact List.getLast?_eq_some_getLast _
    have hsome : ¬ ∀ x ∈ c :: rest, Text.isBlank x = true :=
      fun hall => Bool.false_ne_true (hnot.symm.trans (hall _ hlast))
    rw [if_neg hsome, ← hc, List.getElem?_append_left hn]
  · have hall : ∀ x ∈ c :: rest, Text.isBlank x = true := by
      rw [← hdrop, List.drop_append, List.drop_eq_nil_of_le hn, List.nil_append]
      exact fun x hx => h.blank x (List.mem_of_mem_drop hx)
    rw [if_pos hall, List.getElem?_eq_none hn]

end Cuts

/-! ### The lines of an excerpt -/

theorem newline_notMem_numberedMargin (line : Int) : '\n' ∉ numberedMargin line := by
  refine List.not_mem_append (fun h => ?_) (by decide)
  rcases Binary64.numeric_toString line _ h with h | h <;> exact absurd h (by decide)

theorem newline_notMem_bareMargin (line : Int) : '\n' ∉ bareMargin line :=
  List.not_mem_append (fun h => absurd (List.eq_of_mem_replicate h) (by decide)) (by decide)

/-- The caret is the last of as many characters as the column counts, less those cut off. -/
theorem padLeft_caret (n indent : Nat) (h : indent ≤ n) :
    padLeft ((max (1 + n : Int) 1).toNat - indent) '-' ['^'] =
      List.replicate (n - indent) '-' ++ ['^'] := by
  have hwidth : (max (1 + n : Int) 1).toNat - indent - 1 = n - indent := by omega
  rw [padLeft, List.length_singleton, hwidth]

theorem lines_picture (p : Position) {text : List Char} (htext : '\n' ∉ text) :
    ∃ first, lines (picture p text).toList =
      [first,
        numberedMargin p.line ++ (text.dropWhile isIndent).rdropWhile Text.isBlank,
        bareMargin p.line ++ padLeft ((max p.column 1).toNat -
          (text.takeWhile isIndent).length) '-' ['^']] := by
  set shown := (text.dropWhile isIndent).rdropWhile Text.isBlank
  set caret := padLeft ((max p.column 1).toNat - (text.takeWhile isIndent).length) '-' ['^']
  set gutter := List.replicate ((toString p.line).length + 1) ' ' ++ ['|']
  have hgutter : gutter ++ [' '] = bareMargin p.line := by simp [gutter, bareMargin]
  have hpicture : (picture p text).toList = gutter ++ '\n' ::
      (numberedMargin p.line ++ shown ++ '\n' :: (bareMargin p.line ++ caret ++ ['\n'])) := by
    simp [picture, ← hgutter, numberedMargin, gutter, shown, caret, padLeft, Text.dropEndWhile,
      List.rdropWhile]
  have hshown : '\n' ∉ shown := fun h => htext <|
    (List.dropWhile_suffix isIndent).subset ((List.rdropWhile_prefix _ _).subset h)
  have hcaret : '\n' ∉ caret := by
    refine List.not_mem_append (fun h => ?_) (by decide)
    exact absurd (List.eq_of_mem_replicate h) (by decide)
  have hbare := newline_notMem_bareMargin p.line
  refine ⟨gutter, ?_⟩
  rw [hpicture, lines_of_notMem fun h => hbare (hgutter ▸ List.mem_append_left _ h),
    lines_of_notMem (List.not_mem_append (newline_notMem_numberedMargin p.line) hshown),
    lines_of_notMem (List.not_mem_append hbare hcaret), lines]

end Excerpt

theorem newline_notMem_lineAround (before after : List Char) :
    '\n' ∉ lineAround before after := by
  refine List.not_mem_append (newline_notMem_openLine before) fun h => ?_
  simpa using List.mem_takeWhile_imp h

open Excerpt

/-- The picture of its line ends an excerpt. -/
theorem Diagnostic.excerpt_eq {d : Diagnostic} {source : String} {text : List Char}
    (h : lineAt? source d.position = some text) (file : String) :
    ∃ heading : List Char, (d.excerpt source file).toList =
      heading ++ '\n' :: (picture d.position text).toList := by
  refine ⟨(title d.cause ++ "-> " ++ file ++ ":" ++ d.position.text).toList, ?_⟩
  unfold Diagnostic.excerpt
  rw [h]
  simp

/-- **The caret is under the character it is about.**  Let a complaint be at a character `c` of the
source that is neither a newline nor one of the spaces and tabs that its line begins with.  Then the
last two lines of its excerpt are the line around the character and the line of the caret.  Their
margins have one width, and between margin and caret there are only dashes, one for each character
of the text before `c`.  At the index of the caret the line above has the character `c`, or it has
ended there, if only blanks follow `c` and it is one itself. -/
theorem Diagnostic.excerpt_caret (d : Diagnostic) (file : String) {source : String}
    {before after : List Char} {c : Char} (hsource : source.toList = before ++ c :: after)
    (hplace : d.position = place before) (hc : c ≠ '\n')
    (htext : ¬ ∀ x ∈ openLine before ++ [c], isIndent x = true) :
    ∃ (earlier : List (List Char)) (indent shown trimmed dashes : List Char),
      lines (d.excerpt source file).toList = earlier ++
        [numberedMargin d.position.line ++ shown,
          bareMargin d.position.line ++ dashes ++ ['^']] ∧
      (bareMargin d.position.line).length = (numberedMargin d.position.line).length ∧
      (∀ x ∈ dashes, x = '-') ∧
      Cuts (lineAround before (c :: after)) indent shown trimmed ∧
      indent.length + dashes.length = (openLine before).length ∧
      (numberedMargin d.position.line ++ shown)[(bareMargin d.position.line ++ dashes).length]? =
        if ∀ x ∈ c :: after.takeWhile (· ≠ '\n'), Text.isBlank x = true then none else some c := by
  have hline : lineAround before (c :: after) =
      openLine before ++ c :: after.takeWhile (· ≠ '\n') := by
    rw [lineAround, List.takeWhile_cons_of_pos (by simpa using hc)]
  have hcolumn : d.position.column = 1 + ((openLine before).length : Int) := by
    rw [hplace, place_eq]
  have hlineAt := lineAt?_place hsource
  rw [if_neg (by simp), ← hplace] at hlineAt
  have hnewline : '\n' ∉ (lineAround before (c :: after)).rdropWhile (· = '\r') := fun h =>
    newline_notMem_lineAround before (c :: after) ((List.rdropWhile_prefix _ _).subset h)
  obtain ⟨trimmed, hcuts⟩ := exists_cuts (lineAround before (c :: after))
  set text := (lineAround before (c :: after)).rdropWhile (· = '\r')
  rw [hline] at hcuts ⊢
  have hle := hcuts.length_indent_le htext
  obtain ⟨heading, hexcerpt⟩ := Diagnostic.excerpt_eq hlineAt file
  obtain ⟨earlier, -, hlines⟩ := lines_append_newline heading (picture d.position text).toList
  obtain ⟨first, hpicture⟩ := lines_picture d.position hnewline
  refine ⟨earlier ++ [first], _, _, trimmed, List.replicate ((openLine before).length -
    (text.takeWhile isIndent).length) '-', ?_, length_bareMargin _,
    fun x => List.eq_of_mem_replicate, hcuts, ?_, ?_⟩
  · rw [hexcerpt, hlines, hpicture, hcolumn, padLeft_caret _ _ hle, List.append_assoc,
      List.append_assoc]
    rfl
  · rw [List.length_replicate]
    omega
  · rw [List.length_append, length_bareMargin, List.length_replicate,
      List.getElem?_append_right (Nat.le_add_right _ _), Nat.add_sub_cancel_left]
    exact hcuts.getElem?_shown hle

/-- Nine empty lines, and a tenth that is indented by a tab. -/
def indentedFront : String := "\n\n\n\n\n\n\n\n\n\té = "

/-- The end of a line, with a blank and a carriage return. -/
def indentedRest : String := "; \r\n"

/-- A text with an unknown character between them. -/
def indentedText : String := indentedFront ++ "@" ++ indentedRest

/-- The complaint about it. -/
def indentedFault : Diagnostic := ⟨.unexpectedCharacter '@', ⟨10, 6⟩⟩

theorem Diagnostic.excerpt_caret_indentedFault :
    indentedText.toList = indentedFront.toList ++ '@' :: indentedRest.toList ∧
    indentedFault.position = place indentedFront.toList ∧ '@' ≠ '\n' ∧
    (¬ ∀ x ∈ openLine indentedFront.toList ++ ['@'], isIndent x = true) ∧
    (∃ (earlier : List (List Char)) (indent shown trimmed dashes : List Char),
      lines (indentedFault.excerpt indentedText "main.h45").toList = earlier ++
        [numberedMargin 10 ++ shown, bareMargin 10 ++ dashes ++ ['^']] ∧
      (bareMargin 10).length = (numberedMargin 10).length ∧
      (∀ x ∈ dashes, x = '-') ∧
      Cuts (lineAround indentedFront.toList ('@' :: indentedRest.toList)) indent shown trimmed ∧
      indent.length + dashes.length = (openLine indentedFront.toList).length ∧
      (numberedMargin 10 ++ shown)[(bareMargin 10 ++ dashes).length]? =
        if ∀ x ∈ '@' :: indentedRest.toList.takeWhile (· ≠ '\n'), Text.isBlank x = true then none
        else some '@') ∧
    (lines (indentedFault.excerpt indentedText "main.h45").toList).drop 3 =
      ["10 | é = @;".toList, "   | ----^".toList] := by
  have hsource : indentedText.toList =
      indentedFront.toList ++ '@' :: indentedRest.toList := by decide +kernel
  have hplace : indentedFault.position = place indentedFront.toList := by decide +kernel
  have hc : '@' ≠ '\n' := by decide
  have htext : ¬ ∀ x ∈ openLine indentedFront.toList ++ ['@'], isIndent x = true := by
    decide +kernel
  exact ⟨hsource, hplace, hc, htext,
    Diagnostic.excerpt_caret indentedFault "main.h45" hsource hplace hc htext, by decide +kernel⟩

end StackListing
