import TapeBasic.Proofs.KeptImages

/-!
# What a header says about the line to start with

A header is a row of lines. Those about the line to start with come from its first part, whatever the image holds: a
directive that names the line, a note that there is none, or nothing at all where the line to run next is the end of the
program.

* `Image.startLines text`: the lines of a text about the line to start with.
* `Image.Silent text`: a text of lines none of which is about it.

Results:
* `Image.startLines_header`: only the first part of a header is about the line to start with.
* `Image.startLines_of_equal`, `startLines_of_number`, `startLines_of_none`: the three things that it can say.
-/
namespace TapeBasic

open Text (isCalm Lined)

namespace Image

/-! ## Lines about the line to start with -/

/-- Whether a line names the line to start with, or tells that there is none. -/
def tellsStart (line : List Char) : Bool :=
  "#!basic-start".toList.isPrefixOf line || "# Note: NXTLIN".toList.isPrefixOf line

/-- The lines of a text about the line to start with. -/
def startLines (text : List Char) : List (List Char) := (lines text).filter tellsStart

/-- The line that names a line to start with. -/
def startLine (number : Nat) : List Char := "#!basic-start=".toList ++ Text.decimal number

theorem tellsStart_startLine (number : Nat) : tellsStart (startLine number) = true := rfl

theorem calm_startLine (number : Nat) : isCalm (startLine number) = true :=
  Text.isCalm_append (by decide) (Text.isCalm_decimal number)

theorem startLine_inj {m n : Nat} : startLine m = startLine n ↔ m = n := by
  refine ⟨fun h => ?_, fun h => h ▸ rfl⟩
  rw [← Text.digitsValue_decimal m, List.append_cancel_left h, Text.digitsValue_decimal]

theorem tellsStart_note {line : List Char} (h : "# Note: NXTLIN".toList <+: line) : tellsStart line = true := by
  rw [tellsStart, List.isPrefixOf_iff_prefix.mpr h, Bool.or_true]

theorem startLine_not_note (number : Nat) : ¬"# Note: NXTLIN".toList <+: startLine number := fun h => by
  have hdiffer : "# Note: NXTLIN".toList.isPrefixOf (startLine number) = false := rfl
  rw [List.isPrefixOf_iff_prefix.mpr h] at hdiffer
  cases hdiffer

theorem mem_startLines {text line : List Char} (h : tellsStart line = true) :
    line ∈ startLines text ↔ line ∈ lines text := by
  rw [startLines, List.mem_filter, and_iff_left h]

theorem lines_append {text more : List Char} (h : Lined text) (hmore : Lined more) :
    lines (text ++ more) = lines text ++ lines more := by
  obtain ⟨front, rfl, hfront⟩ := h
  obtain ⟨back, rfl, hback⟩ := hmore
  have hclean : ∀ {list : List (List Char)}, (∀ line ∈ list, isCalm line = true) →
      ∀ line ∈ list, '\n' ∉ line :=
    fun hcalm line hline => Text.lineEnd_not_mem_of_isCalm (hcalm line hline)
  rw [← List.flatMap_append, lines_flatMap (List.forall_mem_append.mpr ⟨hclean hfront, hclean hback⟩),
    lines_flatMap (hclean hfront), lines_flatMap (hclean hback)]

theorem lines_line {line : List Char} (h : isCalm line = true) : lines (line ++ ['\n']) = [line] := by
  have hline : ∀ l ∈ [line], '\n' ∉ l := List.forall_mem_singleton.mpr (Text.lineEnd_not_mem_of_isCalm h)
  simpa using lines_flatMap hline

theorem startLines_append {text more : List Char} (h : Lined text) (hmore : Lined more) :
    startLines (text ++ more) = startLines text ++ startLines more := by
  rw [startLines, lines_append h hmore, List.filter_append]
  rfl

/-- The only line of a text, where it is about the line to start with. -/
theorem startLines_line {line : List Char} (h : isCalm line = true) (htells : tellsStart line = true) :
    startLines (line ++ ['\n']) = [line] := by
  rw [startLines, lines_line h, List.filter_cons_of_pos htells, List.filter_nil]

/-! ## Texts about other things -/

/-- The text is made of lines none of which is about the line to start with. -/
structure Silent (text : List Char) : Prop where
  lined : Lined text
  startLines : startLines text = []

theorem silent_nil : Silent [] := ⟨Text.lined_nil, rfl⟩

theorem silent_line {line : List Char} (h : isCalm line = true) (htells : tellsStart line = false) :
    Silent (line ++ ['\n']) := by
  refine ⟨Text.lined_line h, ?_⟩
  rw [startLines, lines_line h, List.filter_cons_of_neg (Bool.eq_false_iff.mp htells), List.filter_nil]

theorem Silent.append {text more : List Char} (h : Silent text) (hmore : Silent more) : Silent (text ++ more) := by
  refine ⟨h.lined.append hmore.lined, ?_⟩
  rw [startLines_append h.lined hmore.lined, h.startLines, hmore.startLines, List.append_nil]

theorem silent_flatMap {α : Type} {f : α → List Char} {list : List α} (h : ∀ x ∈ list, Silent (f x)) :
    Silent (list.flatMap f) := by
  induction list with
  | nil => exact silent_nil
  | cons x list ih =>
    obtain ⟨hx, hlist⟩ := List.forall_mem_cons.mp h
    exact hx.append (ih hlist)

theorem Silent.kind {text : List Char} (h : Silent text) : Silent (Assembly.kindText text) := by
  unfold Assembly.kindText
  split
  · exact silent_nil
  · exact h.append (@silent_line [] rfl rfl)

/-- A note or a directive about something else, up to its last word. -/
theorem silent_word {front : List Char} (word : String) (hword : word.toList = word.toList.dropLast ++ ['\n'])
    (hfront : isCalm front = true) (hcalm : isCalm word.toList.dropLast = true)
    (htells : tellsStart (front ++ word.toList.dropLast) = false) : Silent (front ++ word.toList) := by
  rw [hword, ← List.append_assoc]
  exact silent_line (Text.isCalm_append hfront hcalm) htells

/-! ## The parts of a header -/

theorem silent_displayDirectives (i : Image) : Silent i.displayDirectives := by
  unfold displayDirectives
  dsimp only
  refine Silent.append ?_ (silent_flatMap fun line hline => ?_)
  · split
    · refine silent_word _ (by decide) ?_ (by decide) rfl
      repeat' apply Text.isCalm_append
      all_goals first | exact Text.isCalm_decimal _ | decide
    · exact silent_nil
  · rcases List.mem_append.mp hline with hline | hline
    · split at hline
      · rw [List.mem_singleton.mp hline]
        exact silent_line (by decide) (by decide)
      · cases hline
    · obtain ⟨row, -, rfl⟩ := List.mem_map.mp hline
      exact silent_line (Text.isCalm_append (by decide) (calm_rowText _ row)) rfl

theorem silent_variablesDirectives (style : Style) (i : Image) : Silent (i.variablesDirectives style) := by
  unfold variablesDirectives
  dsimp only
  refine Silent.append ?_ (silent_flatMap fun part _ => ?_)
  · split
    · exact silent_nil
    · exact @silent_word [] "# Note: Variables area does not end with 128.\n" (by decide) rfl (by decide) (by decide)
  · exact silent_line (Text.isCalm_append (by decide) (calm_byteList part)) rfl

theorem silent_systemDirectives (i : Image) : Silent i.systemDirectives := by
  refine silent_flatMap fun x hx => ?_
  obtain ⟨f, bytes⟩ := x
  have hname : isCalm f.name.toList = true := calm_names f (length_changedVariables hx).1
  have hvalue : isCalm (valueText f bytes) = true := by
    unfold valueText
    split
    · exact Text.isCalm_decimal _
    · exact calm_byteList bytes
  have hsplit : "#!system-vars:".toList ++ f.name.toList ++ '=' :: (valueText f bytes ++ ['\n']) =
      ("#!system-vars:".toList ++ f.name.toList ++ ['='] ++ valueText f bytes) ++ ['\n'] := by simp
  dsimp only
  rw [hsplit]
  refine silent_line (Text.isCalm_append (Text.isCalm_append (Text.isCalm_append ?_ hname) ?_) hvalue) rfl
  all_goals decide

/-- **The line to start with.** Only the first part of a header is about it. -/
theorem startLines_header (style : Style) (i : Image) : startLines (i.header style) = startLines i.startDirective := by
  have hrest := i.silent_displayDirectives.kind.append
    ((i.silent_variablesDirectives style).kind.append i.silent_systemDirectives.kind)
  have hempty : Silent ['\n'] := @silent_line [] rfl rfl
  have hkind : startLines (Assembly.kindText i.startDirective) = startLines i.startDirective := by
    unfold Assembly.kindText
    split
    · next hnil => rw [List.isEmpty_iff.mp hnil]
    · rw [startLines_append i.lined_startDirective hempty.lined, hempty.startLines, List.append_nil]
  rw [header_eq, startLines_append (lined_kindText i.lined_startDirective) hrest.lined, hkind, hrest.startLines,
    List.append_nil]

/-! ## What a header can say -/

variable {i : Image}

/-- Where the line to run next is the end of the program, nothing is said. -/
theorem startLines_of_equal (h : i.nextLineAddress = i.displayAddress) (style : Style) :
    startLines (i.header style) = [] := by
  have hequal : (i.nextLineAddress == i.displayAddress) = true := beq_iff_eq.mpr h
  rw [startLines_header, startDirective, if_pos hequal]
  rfl

/-- Where the line to run next is one of the program, it is named. -/
theorem startLines_of_number (h : i.nextLineAddress ≠ i.displayAddress) {number : Nat}
    (hnumber : lineNumberAt? i.program i.nextLineOffset = some number) (style : Style) :
    startLines (i.header style) = [startLine number] := by
  have hdiffer : ¬(i.nextLineAddress == i.displayAddress) = true := mt beq_iff_eq.mp h
  rw [startLines_header, startDirective, if_neg hdiffer, hnumber]
  exact startLines_line (calm_startLine number) (tellsStart_startLine number)

/-- Anywhere else there is a note about it. -/
theorem startLines_of_none (h : i.nextLineAddress ≠ i.displayAddress)
    (hnone : lineNumberAt? i.program i.nextLineOffset = none) (style : Style) :
    ∃ note, startLines (i.header style) = [note] ∧ "# Note: NXTLIN".toList <+: note := by
  have hdiffer : ¬(i.nextLineAddress == i.displayAddress) = true := mt beq_iff_eq.mp h
  have hfront : isCalm ("# Note: NXTLIN (".toList ++ addressText i.nextLineAddress) = true :=
    Text.isCalm_append (by decide) (calm_addressText _)
  have hnote : ∀ word : String, word.toList = word.toList.dropLast ++ ['\n'] →
      isCalm word.toList.dropLast = true →
      startLines ("# Note: NXTLIN (".toList ++ addressText i.nextLineAddress ++ word.toList) =
        ["# Note: NXTLIN (".toList ++ addressText i.nextLineAddress ++ word.toList.dropLast] := by
    intro word hword hcalm
    rw [hword, ← List.append_assoc, List.dropLast_concat]
    exact startLines_line (Text.isCalm_append hfront hcalm) rfl
  have hprefix : ∀ more, "# Note: NXTLIN".toList <+: "# Note: NXTLIN (".toList ++
      addressText i.nextLineAddress ++ more :=
    fun more => List.isPrefixOf_iff_prefix.mp rfl
  rw [startLines_header, startDirective, if_neg hdiffer, hnone]
  dsimp only
  split
  · exact ⟨_, hnote _ (by decide) (by decide), hprefix _⟩
  · exact ⟨_, hnote _ (by decide) (by decide), hprefix _⟩

end Image

end TapeBasic
