import Mathlib.Data.List.Induction
import TapeBasic.Proofs.EncodedPrograms
import TapeBasic.Proofs.ReadingFaults
import TapeBasic.Proofs.ShownLines

/-!
# Places in a listing

A cursor that goes through a text counts the line ends behind it, and the characters behind the last of them. So its
place is always that of the text that is left, and every place that a diagnostic names is in the listing.

* `Position.behind front`: the place behind some text.
* `Cursor.IsIn text c`: the cursor stands in the text, at the place behind what it has gone through.
* `Source.Locates s l line`: the location is in the listing, in this line of it.

Results:
* `Cursor.IsIn.advance`: a cursor that goes on stays in the text.
* `Source.locates_failure`: errors are located in their lines.
* `Source.locates_warning`: so are warnings.
-/
namespace TapeBasic

/-! ## Lines of a text -/

namespace Text

/-- Whole lines and the start of one more. -/
theorem exists_lines_last (text : List Char) : ∃ (lines : List (List Char)) (last : List Char),
    text = lines.flatMap (· ++ ['\n']) ++ last ∧ (∀ line ∈ lines, '\n' ∉ line) ∧ '\n' ∉ last := by
  induction text using List.reverseRecOn with
  | nil => exact ⟨[], [], rfl, nofun, nofun⟩
  | append_singleton text x ih =>
    obtain ⟨lines, last, rfl, hlines, hlast⟩ := ih
    by_cases hx : x = '\n'
    · subst hx
      refine ⟨lines ++ [last], [], by simp, ?_, nofun⟩
      exact List.forall_mem_append.mpr ⟨hlines, List.forall_mem_singleton.mpr hlast⟩
    · exact ⟨lines, last ++ [x], by rw [List.append_assoc], hlines,
        List.not_mem_append hlast (by simpa using Ne.symm hx)⟩

/-- The first line of a text goes as far as no line end stands. -/
theorem exists_first_line {front : List Char} (h : '\n' ∉ front) (rest : List Char) :
    ∃ (more : List Char) (lines : List (List Char)), (front ++ rest).splitOn '\n' = (front ++ more) :: lines := by
  induction front with
  | nil => exact List.exists_cons_of_ne_nil (List.splitOn_ne_nil '\n' rest)
  | cons x front ih =>
    rw [List.mem_cons, not_or] at h
    obtain ⟨more, lines, hsplit⟩ := ih h.2
    refine ⟨more, lines, ?_⟩
    rw [List.splitOn] at hsplit ⊢
    rw [List.cons_append, List.splitOnP_cons_eq_if_modifyHead, if_neg (by simpa using Ne.symm h.1), hsplit]
    rfl

end Text

/-! ## Places behind a text -/

namespace Position

/-- The place behind some text: the line ends in it, and the characters behind the last of them. -/
def behind (front : List Char) : Position :=
  ⟨front.count '\n', (front.reverse.takeWhile (· != '\n')).length⟩

theorem foldl_after (front : List Char) : front.foldl after ⟨0, 0⟩ = behind front := by
  induction front using List.reverseRecOn with
  | nil => rfl
  | append_singleton front x ih =>
    rw [List.foldl_concat, ih, behind, behind, List.reverse_concat, List.count_append, List.count_singleton]
    unfold after
    by_cases hx : x = '\n'
    · subst hx
      rfl
    · rw [if_neg (by simpa using hx), List.takeWhile_cons_of_pos (by simpa using hx), List.length_cons,
        if_neg (by simpa using hx)]
      rfl

/-- Inside a line only the column changes. -/
theorem foldl_after_inLine {text : List Char} (h : '\n' ∉ text) (p : Position) :
    text.foldl after p = ⟨p.line, p.column + text.length⟩ := by
  induction text generalizing p with
  | nil => rfl
  | cons x text ih =>
    rw [List.mem_cons, not_or] at h
    have hafter : p.after x = ⟨p.line, p.column + 1⟩ := if_neg (by simpa using Ne.symm h.1)
    rw [List.foldl_cons, ih h.2, hafter, List.length_cons, Nat.add_assoc, Nat.add_comm 1]

theorem foldl_after_lines {lines : List (List Char)} (h : ∀ line ∈ lines, '\n' ∉ line) (n : Nat) :
    (lines.flatMap (· ++ ['\n'])).foldl after ⟨n, 0⟩ = ⟨n + lines.length, 0⟩ := by
  induction lines generalizing n with
  | nil => rfl
  | cons line lines ih =>
    obtain ⟨hline, hlines⟩ := List.forall_mem_cons.mp h
    rw [List.flatMap_cons, List.foldl_append, List.foldl_concat, foldl_after_inLine hline, List.length_cons,
      Nat.add_comm lines.length, ← Nat.add_assoc]
    exact ih hlines (n + 1)

/-- The place is in the text: there is such a line, and the column is in it or behind its last character. -/
def IsIn (text : List Char) (p : Position) : Prop :=
  ∃ line, (text.splitOn '\n')[p.line]? = some line ∧ p.column ≤ line.length

/-- The place behind the front of a text is in the text. -/
theorem isIn_behind (front rest : List Char) : IsIn (front ++ rest) (behind front) := by
  obtain ⟨lines, last, rfl, hlines, hlast⟩ := Text.exists_lines_last front
  have hplace : behind (lines.flatMap (· ++ ['\n']) ++ last) = ⟨lines.length, last.length⟩ := by
    rw [← foldl_after, List.foldl_append, foldl_after_lines hlines, foldl_after_inLine hlast, Nat.zero_add,
      Nat.zero_add]
  obtain ⟨more, others, hsplit⟩ := Text.exists_first_line hlast rest
  refine ⟨last ++ more, ?_, ?_⟩
  · rw [hplace, List.append_assoc, Text.splitOn_lines_append hlines, hsplit,
      List.getElem?_append_right (Nat.le_refl _), Nat.sub_self]
    rfl
  · rw [hplace, List.length_append]
    exact Nat.le_add_right _ _

end Position

/-! ## Cursors in a text -/

namespace Cursor

theorem position_advance (c : Cursor) (n : Nat) :
    (c.advance n).position = (c.rest.take n).foldl Position.after c.position := by
  induction n generalizing c with
  | zero => rfl
  | succ n ih =>
    unfold advance
    split
    · next hrest => rw [hrest, List.take_nil, List.foldl_nil]
    · next x rest hrest => rw [ih, hrest, List.take_succ_cons, List.foldl_cons]

/-- How far the cursor is behind the start of the text. -/
def offset (text : List Char) (c : Cursor) : Nat := text.length - c.rest.length

/-- The cursor stands in the text. Its line is the number of line ends in front of it, and its column is how far it
is behind the last of them. -/
structure IsIn (text : List Char) (c : Cursor) : Prop where
  rest_eq : c.rest = text.drop (c.offset text)
  line_eq : c.position.line = (text.take (c.offset text)).count '\n'
  column_eq : c.position.column = ((text.take (c.offset text)).reverse.takeWhile (· != '\n')).length

variable {text : List Char} {c : Cursor}

theorem isIn_of_append (front : List Char) (htext : text = front ++ c.rest)
    (hposition : c.position = .behind front) : c.IsIn text := by
  have hoffset : c.offset text = front.length := by
    rw [offset, htext, List.length_append, Nat.add_sub_cancel]
  have htake : text.take (c.offset text) = front := by rw [hoffset, htext, List.take_left]
  refine ⟨by rw [hoffset, htext, List.drop_left], ?_, ?_⟩
  · rw [htake, hposition]
    rfl
  · rw [htake, hposition]
    rfl

theorem isIn_start (text : List Char) : (start text).IsIn text := isIn_of_append [] rfl rfl

namespace IsIn

theorem position_eq (h : c.IsIn text) : c.position = .behind (text.take (c.offset text)) := by
  rw [Position.behind, ← h.line_eq, ← h.column_eq]

theorem text_eq (h : c.IsIn text) : text = text.take (c.offset text) ++ c.rest := by
  rw [h.rest_eq]
  exact (List.take_append_drop _ _).symm

/-- A cursor that goes on stays in the text. -/
theorem advance (h : c.IsIn text) (n : Nat) : (c.advance n).IsIn text := by
  refine isIn_of_append (text.take (c.offset text) ++ c.rest.take n) ?_ ?_
  · rw [rest_advance, List.append_assoc, List.take_append_drop]
    exact h.text_eq
  · rw [position_advance, h.position_eq, ← Position.foldl_after, ← Position.foldl_after, List.foldl_append]

theorem position_isIn (h : c.IsIn text) : c.position.IsIn text := by
  have hplace := Position.isIn_behind (text.take (c.offset text)) c.rest
  rwa [← h.text_eq, ← h.position_eq] at hplace

end IsIn

end Cursor

/-! ## Faults -/

/-- The place that a fault is about. -/
def Fault.place? : Fault → Option Position
  | .complaint _ _ place => some place
  | .unreadable _ _ place => some place
  | .unknownSymbol => none
  | .numeralTooLong => none

/-- Faults are about places that have been read. -/
theorem codeCourse_isIn (files : FileReader) (text : List Char) :
    CodeCourse files (Cursor.IsIn text) (fun fault => ∀ place ∈ fault.place?, place.IsIn text) where
  advance n h := h.advance n
  complaint _ _ hstart := by
    rintro place ⟨⟩
    exact hstart.position_isIn
  numeral _ _ _ _ := nofun
  unwritable _ _ _ := nofun
  address _ _ := nofun
  unreadable h _ _ := by
    rintro place ⟨⟩
    exact h.position_isIn
  token _ _ _ h := by
    rw [Grammar.error_of_read? h]
    exact nofun
  figure _ _ := nofun

/-! ## Warnings -/

/-- A warning is about the name behind such a cursor. -/
def Event.WarnsIn (C : Cursor → Prop) (filename : List Char) (event : Event) : Prop :=
  ∀ d ∈ event.diagnostic?, ∃ c, C c ∧ Line.keywordWarning? filename c = some d

theorem Journal.OnlyIncludes.warnsIn {events : Journal} (h : OnlyIncludes events) (C : Cursor → Prop)
    (filename : List Char) : ∀ event ∈ events, event.WarnsIn C filename := by
  intro event hevent
  have hinclusion := h event hevent
  cases event with
  | warned d => cases hinclusion
  | _ => exact nofun

theorem Outcome.forall_mem_bind {α β : Type} {x : Outcome α} {f : α → Outcome β} {P : Event → Prop}
    (hx : ∀ event ∈ x.events, P event) (hf : ∀ a, x.result = .ok a → ∀ event ∈ (f a).events, P event) :
    ∀ event ∈ (x >>= f).events, P event := by
  change ∀ event ∈ (x.andThen f).events, P event
  unfold andThen
  split
  · exact hx
  · next a ha => exact List.forall_mem_append.mpr ⟨hx, hf a ha⟩

theorem Directive.warnsIn_obey {a a' : Assembly} {place : Position} {c : Cursor} {directive : Directive}
    {events : Journal} (h : a.obey place c directive = .ok (a', events)) (C : Cursor → Prop)
    (filename : List Char) : ∀ event ∈ events, event.WarnsIn C filename := by
  cases Assembly.obey_eq_ok_iff.mp h with
  | start | assign => exact List.forall_mem_singleton.mpr nofun
  | _ => exact nofun

namespace CodeCourse

variable {files : FileReader} {C : Cursor → Prop} {F : Fault → Prop} (h : CodeCourse files C F) {c : Cursor}

include h

theorem warnsIn_readLine {filename : List Char} {last : Option Nat} (hc : C c) :
    ∀ event ∈ (Line.read files filename last c).events, event.WarnsIn C filename := by
  unfold Line.read
  refine Outcome.forall_mem_bind nofun fun (number, afterNumber) hnumber =>
    Outcome.forall_mem_bind nofun fun _ _ => Outcome.forall_mem_bind nofun fun atCommand hspacing =>
      Outcome.forall_mem_bind nofun fun (command, afterCommand) hcommand =>
        Outcome.forall_mem_bind ?_ fun _ _ =>
          Outcome.forall_mem_bind ((Body.onlyIncludes_readFrom .nil).warnsIn C filename) fun _ _ =>
            Outcome.forall_mem_bind nofun fun _ _ => nofun
  have hafterNumber : C afterNumber := (h.readNumber hc).of_ok hnumber
  have hatCommand : C atCommand := (h.readSpacing hafterNumber).of_ok hspacing
  have hafterCommand : C afterCommand := (h.readCommand hatCommand).of_ok hcommand
  unfold Line.checkName
  split
  · split
    · next diagnostic hwarning =>
      refine List.forall_mem_singleton.mpr ?_
      rintro _ ⟨⟩
      exact ⟨afterCommand, hafterCommand, hwarning⟩
    · exact nofun
  · exact nofun

/-- Every warning about a listing is about a name that has been read. By induction on the run. -/
theorem warnsIn_run {filename : List Char} {a : Assembly} {events : Journal} (hc : C c) (ha : Pending C a)
    (hevents : ∀ event ∈ events, event.WarnsIn C filename) :
    ∀ event ∈ (a.run files filename c events).events, event.WarnsIn C filename := by
  have hitem : ∀ (a : Assembly) (c : Cursor), C c →
      ∀ event ∈ (a.step files filename c).events, event.WarnsIn C filename := by
    intro a c hc
    unfold Assembly.step
    split
    · have hread := (Directive.onlyIncludes_read files c).warnsIn C filename
      unfold Assembly.stepDirective
      dsimp only
      split
      · exact hread
      · split
        · exact hread
        · next hobey => exact List.forall_mem_append.mpr ⟨hread, Directive.warnsIn_obey hobey C filename⟩
    · unfold Assembly.stepLine
      dsimp only
      split <;> exact h.warnsIn_readLine hc
  fun_induction Assembly.run files filename a c events with
  | case1 a c events here hend =>
    unfold Assembly.finish
    split
    · exact hevents
    · exact List.forall_mem_append.mpr ⟨hevents, List.forall_mem_singleton.mpr (by rintro _ ⟨⟩)⟩
  | case2 a c events here hend item fault hnext =>
    exact List.forall_mem_append.mpr ⟨hevents, hitem _ _ (h.skipGaps hc)⟩
  | case3 a c events here hend item next hnext _ ih =>
    obtain ⟨hstep, hpending⟩ := h.step filename a (h.skipGaps hc)
    exact ih (hstep.of_ok hnext) (hpending ha) (List.forall_mem_append.mpr ⟨hevents, hitem _ _ (h.skipGaps hc)⟩)

end CodeCourse

/-! ## Diagnostics of a listing -/

namespace Source

/-- The location is in the listing, in this line of it. -/
structure Locates (s : Source) (l : Location) (line : List Char) : Prop where
  filename_eq : l.filename = s.filename
  line_nonneg : 0 ≤ l.line
  line_lt : l.line < (s.text.splitOn '\n').length
  line_eq : s.line? l.line.toNat = some line
  column_nonneg : 0 ≤ l.column
  column_le : l.column ≤ line.length

variable {files : FileReader} {s : Source}

theorem exists_locates {place : Position} (h : place.IsIn s.text) :
    ∃ line, s.line? place.line = some line ∧ s.Locates ⟨s.filename, place.line, place.column⟩ line := by
  obtain ⟨line, hline, hcolumn⟩ := h
  obtain ⟨hlt, -⟩ := List.getElem?_eq_some_iff.mp hline
  exact ⟨line, hline, rfl, Int.natCast_nonneg _, Int.ofNat_lt.mpr hlt, hline, Int.natCast_nonneg _,
    Int.ofNat_le.mpr hcolumn⟩

theorem fault_isIn : ∀ fault ∈ (s.collect files).fault, ∀ place ∈ fault.place?, place.IsIn s.text :=
  (codeCourse_isIn files s.text).run (Cursor.isIn_start s.text) nofun

/-- **Errors.** An error is located in a line of the listing, and shows this line. -/
theorem locates_failure {fault : Fault} (hfault : (s.collect files).fault = some fault) {e : SourceError}
    (h : s.failure fault = .invalid e ∨ s.failure fault = .unreadable e) :
    ∃ line, e.sourceLine = some line ∧ s.Locates e.location line := by
  have hplace := fault_isIn fault hfault
  cases fault with
  | complaint what snippet place =>
    rcases h with ⟨⟨⟩⟩ | h
    · exact exists_locates (hplace place rfl)
    · cases h
  | unreadable path cause place =>
    rcases h with h | ⟨⟨⟩⟩
    · cases h
    · exact exists_locates (hplace place rfl)
  | unknownSymbol => rcases h with h | h <;> cases h
  | numeralTooLong => rcases h with h | h <;> cases h

/-- **Warnings.** A warning is located in a line of the listing. -/
theorem locates_warning {d : Diagnostic} (h : d ∈ (s.collect files).events.warnings) :
    ∃ line, s.Locates d.location line := by
  obtain ⟨event, hevent, hd⟩ := List.mem_filterMap.mp h
  have hstart : CodeCourse.Pending (Cursor.IsIn s.text) {} := nofun
  obtain ⟨c, hc, hwarning⟩ := (codeCourse_isIn files s.text).warnsIn_run (Cursor.isIn_start s.text) hstart
    (List.forall_mem_nil _) event hevent d hd
  unfold Line.keywordWarning? at hwarning
  split at hwarning
  · cases hwarning
  · next name spacing hname =>
    split at hwarning
    · cases hwarning
      have hspacing : spacing = Text.countWhile Text.isSpacing c.rest := by
        unfold Line.nameAhead? at hname
        dsimp only at hname
        split at hname
        · cases hname
          rfl
        · cases hname
      have hposition : (c.advance spacing).position = ⟨c.position.line, c.position.column + spacing⟩ := by
        have htake : c.rest.take spacing = c.rest.takeWhile Text.isSpacing := by
          rw [hspacing]
          exact (List.prefix_iff_eq_take.mp (List.takeWhile_prefix _)).symm
        rw [Cursor.position_advance, htake, Position.foldl_after_inLine, hspacing]
        · rfl
        · exact fun hmem => absurd (Text.mem_takeWhile _ hmem) (by decide)
      obtain ⟨line, -, hlocates⟩ := exists_locates (hposition ▸ (hc.advance spacing).position_isIn)
      exact ⟨line, hlocates⟩
    · cases hwarning

end Source

end TapeBasic
