import TapeBasic.Proofs.FieldDifferences
import TapeBasic.Proofs.HeaderRuns
import TapeBasic.Proofs.MemoryLayout
import TapeBasic.Proofs.ScreenRows

/-!
# The round trip of an image

The listing of an encoded image, with its directives, encodes as the image, if and only if each line of
its program can be shown.

* `Image.storedVariables i`: the bytes of the variables without the end mark, if there is one.

Results:
* `Holds.data_eq`: two images that hold the same areas and the same free system variables are equal.
* `turns_displayDirectives`, `turns_variablesDirectives`, `turns_systemDirectives`: what the directives of any image do.
* `run_header`: the directives of an image collect everything but its program.
* `collect_text`: what is collected from the listing of an image.
* `encodeImage_decode_iff`: which images are got back from their listings.
-/
namespace TapeBasic

open SystemVariables (Field fields programAddress)

/-! ## The same image -/

namespace Image

/-- **Images tell nothing else.** Collections with the same areas, the same line to start with and the same
free system variables have the same image. -/
theorem Holds.data_eq {i i' : Image} {a a' : Assembly} (h : i.Holds a) (h' : i'.Holds a')
    (hprogram : a.program = a'.program) (hdisplay : a.displayFile = a'.displayFile)
    (hvariables : a.variableArea = a'.variableArea) (hstart : a.startOffset = a'.startOffset)
    (hfree : a.system.SameFree a'.system) : i.data = i'.data := by
  have hsystem : i.system = i'.system := by
    refine SystemVariables.eq_of_pointers ?_ fun f hf hnot => ?_
    · have hnames : ∀ f ∈ fields, f.structural = true → f.name ∈
          ["D_FILE", "DF_CC", "VARS", "E_LINE", "CH_ADD", "STKBOT", "STKEND", "NXTLIN"] := by
        decide
      have hpointers : ∀ name ∈
          ["D_FILE", "DF_CC", "VARS", "E_LINE", "CH_ADD", "STKBOT", "STKEND", "NXTLIN"],
          i.system.pointer name = i'.system.pointer name := by
        have h₁ : i.system.pointer "D_FILE" = i'.system.pointer "D_FILE" := by
          rw [h.displayFile, h'.displayFile, hprogram]
        have h₂ : i.system.pointer "VARS" = i'.system.pointer "VARS" := by
          rw [h.variablesStart, h'.variablesStart, h₁, hdisplay]
        have h₃ : i.system.pointer "E_LINE" = i'.system.pointer "E_LINE" := by
          rw [h.editLine, h'.editLine, h₂, hvariables]
        simp only [List.forall_mem_cons, List.not_mem_nil, false_implies, implies_true, and_true]
        refine ⟨h₁, ?_, h₂, h₃, ?_, ?_, ?_, ?_⟩
        · rw [h.printPosition, h'.printPosition, h₁]
        · rw [h.nextCharacter, h'.nextCharacter, h₃]
        · rw [h.stackBottom, h'.stackBottom, h₃]
        · rw [h.stackEnd, h'.stackEnd, h₃]
        · rw [h.nextLine, h'.nextLine, hstart, hprogram]
      exact fun f hf hstructural => hpointers f.name (hnames f hf hstructural)
    · rw [h.free f hf hnot, h'.free f hf hnot, hfree f hf hnot]
  rw [h.data, h'.data, hsystem, hprogram, hdisplay, hvariables]

/-! ## The directives of an image -/

/-- The system variables that the directives of an image set. -/
def directedSystem (i : Image) : SystemVariables :=
  i.changedVariables.foldl SystemVariables.setFieldBytes SystemVariables.reset

theorem length_changedVariables {i : Image} {x : Field × List UInt8} (h : x ∈ i.changedVariables) :
    x.1 ∈ fields ∧ x.2.length = x.1.size :=
  SystemVariables.length_of_mem_diff h

/-- **The system variables.** The directives set all free ones as the image has them. -/
theorem sameFree_directedSystem (i : Image) : i.directedSystem.SameFree i.system := by
  intro f hf hfree
  have hbytes : i.directedSystem.fieldBytes f = _ := SystemVariables.fieldBytes_foldl_diff (.refl _) hf
  rw [hbytes, hfree, if_neg Bool.false_ne_true]

/-! ## Running through the directives -/

section Runs

variable {files : FileReader} {filename : List Char}

/-- A note about the number of rows is skipped. -/
theorem turns_rowsNote (count : Nat) (a : Assembly) :
    Assembly.Turns files filename
      ("# Note: Display file has ".toList ++ Text.decimal count ++ " rows instead of ".toList ++
        Text.decimal Display.rowCount ++ ".\n".toList) a a := by
  have hfront : "# Note: Display file has ".toList = '#' :: " Note: Display file has ".toList := by decide
  have hback : " rows instead of ".toList ++ (Text.decimal Display.rowCount ++ ".\n".toList) =
      " rows instead of 24.".toList ++ ['\n'] := by decide
  have hnote : "# Note: Display file has ".toList ++ Text.decimal count ++ " rows instead of ".toList ++
      Text.decimal Display.rowCount ++ ".\n".toList =
      '#' :: (" Note: Display file has ".toList ++ (Text.decimal count ++ " rows instead of 24.".toList) ++
        ['\n']) := by
    simp only [List.append_assoc, hfront, hback, List.cons_append]
  rw [hnote]
  refine Assembly.turns_comment ?_ ?_ a
  · refine List.forall_mem_append.mpr ⟨Piece.printable_word (by decide), List.forall_mem_append.mpr ⟨?_, ?_⟩⟩
    · exact Piece.printable_decimal count
    · exact Piece.printable_word (by decide)
  · rw [List.head?_append_of_ne_nil _ (by decide)]
    decide

/-- **The screen.** Its directives add the rows that are shown, behind a note where the image has too few or too
many. -/
theorem turns_displayDirectives (i : Image) (a : Assembly) :
    Assembly.Turns files filename i.displayDirectives a
      { a with rows := a.rows ++ i.shownRows, collapsed := a.collapsed || i.isCollapsed } := by
  have hrows := @Assembly.turns_screen files filename i.isCollapsed _ i.lineEnd_not_mem_shownRows a
  unfold displayDirectives
  dsimp only
  split
  · exact (turns_rowsNote _ a).append hrows
  · exact (Assembly.turns_nil a).append hrows

/-- The bytes of the variables without the end mark, if there is one. -/
def storedVariables (i : Image) : List UInt8 :=
  if i.variableArea.getLast? = some variablesEnd then i.variableArea.dropLast else i.variableArea

/-- **The variables.** Their directives add them to those collected so far, behind a note where the end mark is
missing. -/
theorem turns_variablesDirectives (style : Style) (i : Image) (a : Assembly) :
    Assembly.Turns files filename (i.variablesDirectives style) a
      { a with variableBytes := a.variableBytes ++ i.storedVariables } := by
  have hparts := @Assembly.turns_variableParts files filename (max 1 style.bytesPerLine).toNat i.storedVariables a
  unfold variablesDirectives
  dsimp only
  by_cases hclosed : i.variableArea.getLast? = some variablesEnd
  · have hmark : (i.variableArea.getLast? == some 0x80) = true := beq_iff_eq.mpr hclosed
    rw [storedVariables, if_pos hclosed] at hparts ⊢
    rw [if_pos hmark, if_pos hmark]
    exact (Assembly.turns_nil a).append hparts
  · have hmark : ¬(i.variableArea.getLast? == some 0x80) = true := mt beq_iff_eq.mp hclosed
    rw [storedVariables, if_neg hclosed] at hparts ⊢
    rw [if_neg hmark, if_neg hmark]
    have hnote : "# Note: Variables area does not end with 128.\n".toList =
        '#' :: (" Note: Variables area does not end with 128.".toList ++ ['\n']) := by decide
    rw [hnote]
    exact (Assembly.turns_comment (Piece.printable_word (by decide)) (by decide) a).append hparts

/-- **The system variables.** Their directives set those that differ from a reset machine. -/
theorem turns_systemDirectives (i : Image) (a : Assembly) :
    Assembly.Turns files filename i.systemDirectives a
      { a with system := i.changedVariables.foldl SystemVariables.setFieldBytes a.system } :=
  Assembly.turns_changes (fun _ hx => length_changedVariables hx) a

end Runs

/-! ## The directives of an encoded image -/

theorem Holds.storedVariables_eq {i : Image} {a : Assembly} (h : i.Holds a) :
    i.storedVariables = a.variableBytes.toList := by
  rw [storedVariables, h.variableArea, Assembly.variableArea, List.getLast?_concat, if_pos rfl, List.dropLast_concat]

theorem Holds.nextLineAddress_eq {i : Image} {a : Assembly} (h : i.Holds a) :
    i.nextLineAddress = programAddress + a.startOffset.getD a.program.length := h.nextLine

theorem Holds.displayAddress_eq {i : Image} {a : Assembly} (h : i.Holds a) :
    i.displayAddress = programAddress + a.program.length := h.displayFile

theorem Holds.startDirective_none {i : Image} {a : Assembly} (h : i.Holds a)
    (hstart : a.startOffset = none) : i.startDirective = [] := by
  rw [startDirective, h.nextLineAddress_eq, h.displayAddress_eq, hstart, Option.getD_none,
    if_pos (beq_self_eq_true _)]

theorem mem_recordStarts (front : List LineRecord) (r : LineRecord) (back : List LineRecord)
    (offset : Nat) : offset + (programBytes front).length ∈ recordStarts offset (front ++ r :: back) := by
  induction front generalizing offset with
  | nil => exact List.mem_cons_self
  | cons s front ih =>
    rw [programBytes_cons, List.length_append, s.length_bytes, ← Nat.add_assoc]
    exact List.mem_cons_of_mem _ (ih (offset + s.size))

/-- The number of a record is found at its place. -/
theorem lineNumberAt?_programBytes {front : List LineRecord} {r : LineRecord} {back : List LineRecord}
    (h : WellFormedProgram (front ++ r :: back)) :
    lineNumberAt? (programBytes (front ++ r :: back)) ((programBytes front).length : Nat) =
      some r.number := by
  have hmem := mem_recordStarts front r back 0
  rw [Nat.zero_add, ← Listing.recordOffsets_programBytes h] at hmem
  obtain ⟨numberHigh, numberLow, lengthLow, lengthHigh, hbytes, hnumber, -⟩ :=
    (h.wellFormed r (by simp)).storedAs_bytes
  have hdrop : (programBytes (front ++ r :: back)).drop (programBytes front).length =
      numberHigh :: numberLow :: (lengthLow :: lengthHigh :: r.payload ++ programBytes back) := by
    rw [programBytes_append, List.drop_left, programBytes_cons, hbytes]
    rfl
  rw [lineNumberAt?, Int.toNat_natCast, List.contains_iff_mem.mpr hmem, if_pos (by simp), hdrop]
  exact congrArg some hnumber

theorem Holds.startDirective_line {i : Image} {a : Assembly} (h : i.Holds a)
    (hwell : WellFormedProgram a.records.toList) {front : List LineRecord} {r : LineRecord}
    {back : List LineRecord} (hrecords : a.records.toList = front ++ r :: back)
    (hstart : a.startOffset = some (programBytes front).length) :
    i.startDirective = "#!basic-start=".toList ++ Text.decimal r.number ++ ['\n'] := by
  have hprogram : a.program = programBytes (front ++ r :: back) := by rw [Assembly.program, hrecords]
  have hlength : a.program.length = (programBytes front).length + (r.size + (programBytes back).length) := by
    rw [hprogram, programBytes_append, programBytes_cons, List.length_append, List.length_append,
      r.length_bytes]
  have hnext : i.nextLineAddress = programAddress + (programBytes front).length := by
    rw [h.nextLineAddress_eq, hstart, Option.getD_some]
  have hne : (i.nextLineAddress == i.displayAddress) = false := by
    rw [hnext, h.displayAddress_eq, hlength, beq_eq_false_iff_ne]
    unfold LineRecord.size
    omega
  have hoffset : i.nextLineOffset = ((programBytes front).length : Nat) := by
    rw [nextLineOffset, hnext]
    omega
  rw [startDirective, hne, if_neg Bool.false_ne_true, hoffset, h.program, hprogram,
    lineNumberAt?_programBytes (hrecords ▸ hwell)]

/-- The line to start with is none, or one of the records, which the directive names. -/
theorem Holds.startDirective_cases {i : Image} {a : Assembly}
    (h : i.Holds a) (ha : a.Consistent) :
    (a.startOffset = none ∧ Assembly.kindText i.startDirective = []) ∨
    ∃ front r back, a.records.toList = front ++ r :: back ∧
      a.startOffset = some (programBytes front).length ∧ r.number ≤ maxLineNumber ∧
      Assembly.kindText i.startDirective =
        "#!basic-start=".toList ++ Text.decimal r.number ++ ['\n'] ++ ['\n'] := by
  cases hstart : a.startOffset with
  | none =>
    rw [h.startDirective_none hstart]
    exact .inl ⟨rfl, rfl⟩
  | some offset =>
    obtain ⟨front, r, back, hrecords, hoffset⟩ :=
      exists_of_mem_recordStarts (ha.start offset (by rw [hstart]; rfl))
    rw [Nat.zero_add] at hoffset
    subst hoffset
    have hr := ha.program.wellFormed r (by rw [hrecords]; simp)
    refine .inr ⟨front, r, back, hrecords, rfl, hr.number_le, ?_⟩
    rw [h.startDirective_line ha.program hrecords hstart, Assembly.kindText, if_neg (by simp)]

/-- The line to start with that the directives of an image name, with the place of the directive. -/
inductive Starts (a : Assembly) : Option (Nat × Position) → Prop where
  | none : a.startOffset = none → Starts a none
  | line {front : List LineRecord} {r : LineRecord} {back : List LineRecord} (place : Position) :
      a.records.toList = front ++ r :: back → a.startOffset = some (programBytes front).length →
        Starts a (some (r.number, place))

/-- What the directives of an image collect. -/
def directed (i : Image) (a : Assembly) (start : Option (Nat × Position)) : Assembly where
  pendingStart := start
  rows := i.shownRows.toArray
  collapsed := i.isCollapsed
  variableBytes := a.variableBytes
  system := i.directedSystem

theorem header_eq (style : Style) (i : Image) :
    i.header style = Assembly.kindText i.startDirective ++ (Assembly.kindText i.displayDirectives ++
      (Assembly.kindText (i.variablesDirectives style) ++ Assembly.kindText i.systemDirectives)) := by
  unfold header
  rw [Assembly.flatMap_kinds]
  simp only [List.flatMap_cons, List.flatMap_nil, List.append_nil]

/-- Everything but the line to start with. -/
theorem Holds.turns_directives {files : FileReader} {filename : List Char} {i : Image} {a : Assembly} (h : i.Holds a)
    (style : Style) (start : Option (Nat × Position)) :
    Assembly.Turns files filename (Assembly.kindText i.displayDirectives ++
      (Assembly.kindText (i.variablesDirectives style) ++ Assembly.kindText i.systemDirectives))
      { pendingStart := start } (i.directed a start) := by
  have hscreen := @turns_displayDirectives files filename i { pendingStart := start }
  have hvariables := @turns_variablesDirectives files filename style i
  have hsystem := @turns_systemDirectives files filename i
  have hdirected : i.directed a start =
      { pendingStart := start, rows := (#[] : Array (List UInt8)) ++ i.shownRows,
        collapsed := false || i.isCollapsed,
        variableBytes := (#[] : Array UInt8) ++ i.storedVariables, system := i.directedSystem } := by
    simp [directed, h.storedVariables_eq]
  rw [hdirected]
  exact hscreen.kind.append ((hvariables _).kind.append (hsystem _).kind)

/-- **The directives of an image.** They collect everything but the program. -/
theorem Holds.run_header {files : FileReader} {filename : List Char} {i : Image} {a : Assembly}
    (h : i.Holds a) (ha : a.Consistent)
    (style : Style) {c : Cursor} {events : Journal} {tail : List Char}
    (hc : c.rest = i.header style ++ tail) :
    ∃ (start : Option (Nat × Position)) (c' : Cursor) (events' : Journal), Starts a start ∧
      c'.rest = tail ∧
      Assembly.run files filename {} c events =
        Assembly.run files filename (i.directed a start) c' events' := by
  have hrest := @Holds.turns_directives files filename i a h style
  rw [header_eq, List.append_assoc] at hc
  rcases h.startDirective_cases ha with ⟨hstart, hkind⟩ | ⟨front, r, back, hrecords, hstart, hle, hkind⟩
  · rw [hkind] at hc
    obtain ⟨c', events', hc', hrun⟩ := (hrest none).run_eq c events tail hc
    exact ⟨none, c', events', .none hstart, hc', hrun⟩
  · rw [hkind, List.append_assoc] at hc
    obtain ⟨place, c₁, events₁, hc₁, hrun₁⟩ :=
      @Assembly.run_start files filename {} c events _ _ hle rfl hc
    obtain ⟨c₂, events₂, hc₂, hrun₂⟩ :=
      ((Assembly.turns_lineEnd _).append (hrest (some (r.number, place)))).run_eq c₁ events₁ tail
        (hc₁.trans (List.append_assoc _ _ _).symm)
    exact ⟨some (r.number, place), c₂, events₂, .line place hrecords hstart, hc₂, hrun₁.trans hrun₂⟩

theorem Holds.lineReturn_not_mem_header {i : Image} {a : Assembly}
    (h : i.Holds a) (ha : a.Consistent)
    (style : Style) : '\r' ∉ i.header style := by
  rw [header_eq]
  refine List.not_mem_append ?_
    (@Holds.turns_directives (fun _ => .error []) [] i a h style none).noReturn
  rcases h.startDirective_cases ha with ⟨-, hkind⟩ | ⟨-, r, -, -, -, -, hkind⟩
  · rw [hkind]
    exact List.not_mem_nil
  · rw [hkind]
    exact List.not_mem_append (List.not_mem_append (List.not_mem_append (by decide)
      (lineReturn_not_mem_decimal _)) (by decide)) (by decide)

/-- The listing of an image: its directives and the lines of its program, with nothing outside. -/
theorem Holds.text_eq {i : Image} {a : Assembly} (h : i.Holds a)
    (hwell : WellFormedProgram a.records.toList) (style : Style) :
    i.text style = i.header style ++
      Listing.text (a.records.toList.map fun r => Listing.entry style.bracketed r.number r.payload) := by
  rw [text, listing, programListing, h.outside, h.program, Assembly.program, Listing.ofProgram,
    Listing.ofProgramFrom_programBytes style.bracketed hwell]
  rfl

end Image

/-! ## The program of an image -/

namespace Assembly

/-- The program starts at the line that is named, where it is one of the records. -/
theorem foldl_addRecord_start {a : Assembly} {front : List LineRecord} {r : LineRecord}
    {back : List LineRecord} {place : Position} (hempty : a.records = #[])
    (hpending : a.pendingStart = some (r.number, place)) (hwell : WellFormedProgram (front ++ r :: back)) :
    (front ++ r :: back).foldl addRecord a =
      { a with
        records := (front ++ r :: back).toArray
        pendingStart := none
        startOffset := some (programBytes front).length } := by
  have hfront : a.StartsBehind front := by
    intro s hs
    have hlt := (List.pairwise_append.mp hwell.increasing).2.2 s hs r List.mem_cons_self
    rw [hpending, Option.any_some, decide_eq_false_iff_not]
    omega
  rw [List.foldl_append, foldl_addRecord hfront, List.foldl_cons, addRecord, hpending, if_pos (by simp),
    foldl_addRecord (startsBehind_of_none rfl back), programSize_eq, hempty]
  simp

theorem records_foldl_addRecord (a : Assembly) (records : List LineRecord) :
    (records.foldl addRecord a).records.toList = a.records.toList ++ records := by
  induction records generalizing a with
  | nil => simp
  | cons r records ih => rw [List.foldl_cons, ih, records_addRecord, List.append_assoc]; rfl

theorem assembly_finish (a : Assembly) (events : Journal) (c : Cursor) :
    (a.finish events c).assembly = a := by
  unfold finish
  split <;> rfl

theorem fault_finish {a : Assembly} (h : a.pendingStart = none) (events : Journal) (c : Cursor) :
    (a.finish events c).fault = none := by
  rw [finish, h]

end Assembly

/-! ## Whole images -/

open Image

namespace Source

/-- What is collected from the listing of an image: all that the directives say, and those records that
can be shown. -/
theorem collect_text (files : FileReader) (filename : List Char) {i : Image} {a : Assembly}
    (h : i.Holds a) (ha : a.Consistent)
    (style : Style) :
    ∃ start c events, Starts a start ∧ (ofText filename (i.text style)).collect files =
      ((a.records.toList.filter fun r =>
        (Listing.renderLine style.bracketed r.payload.dropLast).isOk).foldl Assembly.addRecord
          (i.directed a start)).finish events c := by
  rw [h.text_eq ha.program]
  obtain ⟨tail, htext, hskips⟩ := @text_ofText filename _ (List.not_mem_append
    (h.lineReturn_not_mem_header ha style) (lineReturn_not_mem_listing style.bracketed ha.program))
  generalize ofText filename _ = source at htext ⊢
  obtain ⟨start, c₁, events₁, hstart, hc₁, hrun₁⟩ := @Holds.run_header files source.filename i a
    h ha style (Cursor.start source.text) [] _ (htext.trans (List.append_assoc _ _ _))
  obtain ⟨c₂, events₂, hc₂, hrun₂⟩ := @Assembly.run_entries files source.filename style.bracketed _
    ha.program (i.directed a start) c₁ events₁ tail (by simp [Assembly.lastNumber, directed]) hc₁
  obtain ⟨c₃, hc₃, hrun₃⟩ := Assembly.run_of_skips hskips (hc₂.trans (List.append_nil tail).symm)
  refine ⟨start, c₃, events₂, hstart, ?_⟩
  rw [collect, hrun₁, hrun₂, hrun₃, Assembly.run_end hc₃]

/-- The directives and the records of an image, collected again. -/
theorem foldl_directed {i : Image} {a : Assembly} (hwell : WellFormedProgram a.records.toList)
    {start : Option (Nat × Position)} (hstart : Starts a start) :
    a.records.toList.foldl Assembly.addRecord (i.directed a start) =
      { i.directed a none with records := a.records, startOffset := a.startOffset } := by
  cases hstart with
  | none hnone =>
    rw [Assembly.foldl_addRecord (Assembly.startsBehind_of_none rfl _), hnone]
    simp [directed]
  | line place hrecords hoffset =>
    rw [hoffset]
    have hfold := @Assembly.foldl_addRecord_start (i.directed a _) _ _ _ place rfl rfl (hrecords ▸ hwell)
    rw [hrecords, hfold, ← hrecords]
    simp [directed]

/-- If all records can be shown, an image is got back. -/
theorem encodeImage_text_of_shown (files : FileReader) (filename : List Char) {i : Image} {a : Assembly}
    (h : i.Holds a) (ha : a.Consistent)
    (hfits : a.editLine + 5 ≤ Assembly.maxAddress) (style : Style)
    (hshown : ∀ r ∈ a.records.toList,
      (Listing.renderLine style.bracketed r.payload.dropLast).isOk = true) :
    (encodeImage files (ofText filename (i.text style))).result = .ok i.data := by
  obtain ⟨start, c, events, hstart, hcollect⟩ := collect_text files filename h ha style
  rw [List.filter_eq_self.mpr hshown, foldl_directed ha.program hstart] at hcollect
  have hassembly := congrArg Pass.assembly hcollect
  rw [Assembly.assembly_finish] at hassembly
  have hconsistent := collect_consistent files (ofText filename (i.text style))
  have hprogram : a.program = (collect files (ofText filename (i.text style))).assembly.program := by
    rw [hassembly]
    rfl
  have hdisplay : a.displayFile =
      (collect files (ofText filename (i.text style))).assembly.displayFile := by
    rw [hassembly, ← h.display]
    exact (file_shownRows ha.rows h.display).symm
  have hvariables : a.variableArea =
      (collect files (ofText filename (i.text style))).assembly.variableArea := by
    rw [hassembly]
    rfl
  obtain ⟨i', sizes, himage, -, hi'⟩ := Assembly.image_of_fits hconsistent (by
    rw [Assembly.editLine, ← hprogram, ← hdisplay, ← hvariables]
    exact hfits)
  have hdata : i.data = i'.data := by
    refine h.data_eq hi' hprogram hdisplay hvariables (by rw [hassembly]) ?_
    rw [hassembly]
    intro f hf hfree
    exact (h.free f hf hfree).symm.trans (i.sameFree_directedSystem f hf hfree).symm
  rw [hdata]
  refine encodeImage_eq_ok_iff.mpr ⟨?_, _, _, himage⟩
  rw [hcollect]
  exact Assembly.fault_finish rfl events c

/-- If an image is got back, all its records can be shown. -/
theorem shown_of_encodeImage_text {files : FileReader} {filename : List Char} {i : Image} {a : Assembly}
    (h : i.Holds a) (ha : a.Consistent)
    (hsplit : Image.split i.data = .ok i) {style : Style}
    (hresult : (encodeImage files (ofText filename (i.text style))).result = .ok i.data) :
    ∀ r ∈ a.records.toList, (Listing.renderLine style.bracketed r.payload.dropLast).isOk = true := by
  obtain ⟨start, c, events, -, hcollect⟩ := collect_text files filename h ha style
  obtain ⟨i', hsplit', -, hi'⟩ := exists_holds hresult
  cases hsplit.symm.trans hsplit'
  have hrecords := congrArg (fun pass => pass.assembly.records.toList) hcollect
  rw [Assembly.assembly_finish, Assembly.records_foldl_addRecord] at hrecords
  have hsame := programBytes_injective (collect_consistent files (ofText filename (i.text style))).program
    ha.program (hi'.program.symm.trans h.program)
  exact List.filter_eq_self.mp (hrecords.symm.trans hsame)

/-- **The round trip of an image.** Take the image of any listing, and show it in any style. Its listing
encodes as the image, whichever files could be included, if and only if every record of its program can be
shown; and a record can be shown if and only if none of its stored numbers is cut short. -/
theorem encodeImage_decode_iff (files : FileReader) (s : Source) {data : List UInt8}
    (h : (s.encodeImage files).result = .ok data) (files' : FileReader) (filename : List Char)
    (style : Style) :
    ∃ i records, Image.split data = .ok i ∧ i.program = programBytes records ∧
      WellFormedProgram records ∧
      ((encodeImage files' (ofText filename (Image.decode style data))).result = .ok data ↔
        ∀ r ∈ records, (Listing.renderLine style.bracketed r.payload.dropLast).isOk = true) ∧
      ∀ r ∈ records,
        (Listing.renderLine style.bracketed r.payload.dropLast).isOk = true ↔ r.isWhole = true := by
  obtain ⟨-, system, sizes, himage⟩ := encodeImage_eq_ok_iff.mp h
  obtain ⟨i, hsplit, hdata, hholds⟩ := exists_holds h
  subst hdata
  have hconsistent := s.collect_consistent files
  have hdecode : Image.decode style i.data = i.text style := by rw [Image.decode, hsplit]
  refine ⟨i, (s.collect files).assembly.records.toList, hsplit, hholds.program, hconsistent.program, ?_,
    fun r hr => by rw [(hconsistent.program.wellFormed r hr).isOk_renderLine]⟩
  rw [hdecode]
  exact ⟨shown_of_encodeImage_text hholds hconsistent hsplit,
    encodeImage_text_of_shown files' filename hholds hconsistent
      (Assembly.editLine_le_of_image himage) style⟩

theorem encodeImage_decode_iff_sample :
    ∃ data, (encodeImage (fun _ => .error []) sampleSource).result = .ok data ∧
      (encodeImage (fun _ => .error []) (ofText defaultName (Image.decode ⟨true, 3⟩ data))).result =
        .ok data := by
  obtain ⟨events, hcollect⟩ := collect_sampleSource
  obtain ⟨hp, hd, hv⟩ := sizes_sampleRecords
  obtain ⟨i, sizes, himage, hsplit, hholds⟩ := Assembly.image_of_fits
    (collect_consistent (fun _ => .error []) sampleSource)
    (by rw [hcollect]; dsimp only; rw [Assembly.editLine, hp, hd, hv]; decide)
  have hresult := encodeImage_eq_ok_iff.mpr ⟨by rw [hcollect], _, _, himage⟩
  obtain ⟨i', records, hsplit', hprogram, hwell, hiff, hwhole⟩ :=
    encodeImage_decode_iff (fun _ => .error []) sampleSource hresult (fun _ => .error []) defaultName
      ⟨true, 3⟩
  cases hsplit.symm.trans hsplit'
  have hrecords : records = sampleRecords := by
    refine programBytes_injective hwell (by decide) (hprogram.symm.trans ?_)
    rw [hholds.program, hcollect]
    rfl
  refine ⟨i.data, hresult, hiff.mpr fun r hr => (hwhole r hr).mpr ?_⟩
  subst hrecords
  exact isWhole_sampleRecords r hr

end Source

end TapeBasic
