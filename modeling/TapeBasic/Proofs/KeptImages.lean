import TapeBasic.Proofs.ImageRoundTrip
import TapeBasic.Proofs.ShownTexts

/-!
# Images that are kept

Some images are shown with notices about what their texts cannot keep. The absence of notices does not make an
image one that is kept: its text encodes as its areas and its system variables if and only if, besides, it has
the form of an encoded image.

* `Text.hasNotice`: whether a text tells of something that it cannot keep.
* `Image.Encodable`: the form of the images that listings encode as.

Results:
* `Holds.text_eq_of_areas`: an image is shown like the encoded image that holds the same.
* `encodeImage_text_keeps_iff`: which images without notices are kept.
* `encodeImage_text_loses`: an image without notices that is not kept.
-/
namespace TapeBasic

open SystemVariables (Field fields programAddress baseAddress blockSize)

/-! ## Notices -/

namespace Text

/-- Whether a line tells of something that a text cannot keep. -/
def isNotice (line : List Char) : Bool :=
  "# Note".toList.isPrefixOf line || "# Error".toList.isPrefixOf line || "# Warning".toList.isPrefixOf line

/-- Whether a text has a line that tells of something that the text cannot keep. -/
def hasNotice (text : List Char) : Bool := (text.splitOn '\n').any isNotice

theorem hasNotice_cons (line text : List Char) :
    hasNotice (line ++ '\n' :: text) = (hasNotice line || hasNotice text) := by
  rw [hasNotice, splitOn_append_cons, List.any_append, hasNotice, hasNotice]

theorem Lined.hasNotice_append {text : List Char} (h : Lined text) (more : List Char) :
    hasNotice (text ++ more) = (hasNotice text || hasNotice more) := by
  obtain ⟨lines, rfl, -⟩ := h
  induction lines with
  | nil => rfl
  | cons line lines ih =>
    have hcons : ∀ more : List Char, (line :: lines).flatMap (· ++ ['\n']) ++ more =
        line ++ '\n' :: (lines.flatMap (· ++ ['\n']) ++ more) := fun more => by simp
    rw [hcons, hasNotice_cons, ih, ← List.append_nil ((line :: lines).flatMap (· ++ ['\n'])), hcons,
      List.append_nil, hasNotice_cons, Bool.or_assoc]

theorem hasNotice_flatMap {α : Type} {f : α → List Char} {list : List α} (h : ∀ x ∈ list, Lined (f x)) :
    hasNotice (list.flatMap f) = list.any fun x => hasNotice (f x) := by
  induction list with
  | nil => rfl
  | cons x list ih =>
    obtain ⟨hx, hlist⟩ := List.forall_mem_cons.mp h
    rw [List.flatMap_cons, hx.hasNotice_append, ih hlist, List.any_cons]

/-- A notice, whatever it goes on with. -/
theorem hasNotice_of_isNotice {line : List Char} (hcalm : isCalm line = true) (h : isNotice line = true) :
    hasNotice (line ++ ['\n']) = true := by
  have hsplit : line.splitOn '\n' = [line] := by
    have hline : ∀ l ∈ [line], '\n' ∉ l :=
      fun l hl => List.mem_singleton.mp hl ▸ lineEnd_not_mem_of_isCalm hcalm
    simpa [List.intercalate] using List.splitOn_intercalate '\n' hline (by simp)
  rw [hasNotice_cons, hasNotice, hsplit, List.any_cons, h]
  rfl

end Text

open Text (hasNotice isCalm Lined)

/-! ## Where there is no notice -/

namespace Image

theorem lined_kindText {text : List Char} (h : Lined text) : Lined (Assembly.kindText text) := by
  unfold Assembly.kindText
  split
  · exact Text.lined_nil
  · exact h.append (@Text.lined_line [] rfl)

theorem hasNotice_kindText {text : List Char} (h : Lined text) :
    hasNotice (Assembly.kindText text) = hasNotice text := by
  unfold Assembly.kindText
  split
  · next hempty => rw [List.isEmpty_iff.mp hempty]
  · rw [h.hasNotice_append]
    exact Bool.or_false _

/-- The parts of a text each tell of what they cannot keep. -/
theorem hasNotice_text (style : Style) (i : Image) :
    hasNotice (i.text style) = false →
      hasNotice i.startDirective = false ∧ hasNotice (i.variablesDirectives style) = false ∧
        hasNotice (Listing.programText style.bracketed i.program) = false := by
  have hstart := i.lined_startDirective
  have hdisplay := i.lined_displayDirectives
  have hvariables := i.lined_variablesDirectives style
  have hsystem := i.lined_systemDirectives
  rw [text_eq, header_eq, List.append_assoc, List.append_assoc, List.append_assoc,
    (lined_kindText hstart).hasNotice_append, (lined_kindText hdisplay).hasNotice_append,
    (lined_kindText hvariables).hasNotice_append, (lined_kindText hsystem).hasNotice_append,
    (Listing.lined_programText _ _).hasNotice_append, hasNotice_kindText hstart,
    hasNotice_kindText hvariables]
  simp only [Bool.or_eq_false_iff]
  rintro ⟨h₁, -, h₂, -, h₃, -⟩
  exact ⟨h₁, h₂, h₃⟩

/-- Without a notice, the line to run next is the end of the program, or one of its lines. -/
theorem startDirective_of_no_notice {i : Image} (h : hasNotice i.startDirective = false) :
    i.nextLineAddress = i.displayAddress ∨ i.nextLineAddress ≠ i.displayAddress ∧
      ∃ number, lineNumberAt? i.program i.nextLineOffset = some number := by
  by_cases hequal : i.nextLineAddress = i.displayAddress
  · exact .inl hequal
  · cases hnumber : lineNumberAt? i.program i.nextLineOffset with
    | some number => exact .inr ⟨hequal, number, rfl⟩
    | none =>
      have hword : ∀ word : String, word.toList = word.toList.dropLast ++ ['\n'] →
          isCalm word.toList.dropLast = true →
          hasNotice ("# Note: NXTLIN (".toList ++ addressText i.nextLineAddress ++ word.toList) = true := by
        intro word hend hcalm
        rw [hend, ← List.append_assoc]
        refine Text.hasNotice_of_isNotice (Text.isCalm_append (Text.isCalm_append (by decide)
          (calm_addressText _)) hcalm) ?_
        rfl
      rw [startDirective, if_neg (by simpa using hequal), hnumber] at h
      dsimp only at h
      split at h
      · rw [hword _ (by decide) (by decide)] at h
        cases h
      · rw [hword _ (by decide) (by decide)] at h
        cases h

/-- Without a notice, the variables end with their end mark. -/
theorem variableArea_of_no_notice {style : Style} {i : Image}
    (h : hasNotice (i.variablesDirectives style) = false) :
    i.variableArea = i.variableArea.dropLast ++ [variablesEnd] := by
  by_cases hlast : i.variableArea.getLast? = some 0x80
  · obtain ⟨front, hfront⟩ := List.getLast?_eq_some_iff.mp hlast
    rw [hfront, List.dropLast_concat]
    rfl
  · have hopen : (i.variableArea.getLast? == some 0x80) = false := by simpa using hlast
    unfold variablesDirectives at h
    dsimp only at h
    rw [hopen, if_neg Bool.false_ne_true, if_neg Bool.false_ne_true] at h
    have hnote := @Text.hasNotice_of_isNotice "# Note: Variables area does not end with 128.".toList (by decide)
      (by decide)
    have hword : "# Note: Variables area does not end with 128.\n".toList =
      "# Note: Variables area does not end with 128.".toList ++ ['\n'] := by decide
    rw [hword, (Text.lined_line (by decide)).hasNotice_append, hnote] at h
    cases h

end Image

/-- Without a notice, every record of a program is shown. -/
theorem Listing.isOk_of_no_notice {bracketed : Bool} {records : List LineRecord}
    (hwell : WellFormedProgram records)
    (h : hasNotice (programText bracketed (programBytes records)) = false) :
    ∀ r ∈ records, (renderLine bracketed r.payload.dropLast).isOk = true := by
  intro r hr
  cases hrender : renderLine bracketed r.payload.dropLast with
  | ok shown => rfl
  | error failure =>
    have hentry : entry bracketed r.number r.payload = .broken r.number failure.message := by
      simp only [entry, (hwell.wellFormed r hr).lineEnd, hrender]
    have hcalm : ∀ e ∈ records.map fun r => entry bracketed r.number r.payload, e.Calm := by
      intro e he
      obtain ⟨s, -, rfl⟩ := List.mem_map.mp he
      exact calm_entry bracketed s.number s.payload
    have hbroken : hasNotice (Entry.broken r.number failure.message).text = true := by
      have htext : (Entry.broken r.number failure.message).text = [] ++ '\n' ::
          (("# Error: Line ".toList ++ Text.decimal r.number ++ ": ".toList ++ failure.message) ++ ['\n']) :=
        rfl
      rw [htext, Text.hasNotice_cons, Text.hasNotice_of_isNotice, Bool.or_true]
      · refine Text.isCalm_append (Text.isCalm_append (Text.isCalm_append (by decide)
          (Text.isCalm_decimal _)) (by decide)) (calm_message failure)
      · rfl
    rw [programText, ofProgram, ofProgramFrom_programBytes bracketed hwell, List.reverse_nil, List.nil_append,
      text, Text.hasNotice_flatMap fun e he => (hcalm e he).lined, List.any_eq_false] at h
    have := h _ (List.mem_map_of_mem hr)
    rw [hentry, hbroken] at this
    exact absurd rfl this

/-! ## The encoded image that holds the same -/

namespace Image

/-- The form of the images that listings encode as: a program, a display file of rows, and an end of the memory
that a pointer can hold. -/
structure Encodable (i : Image) : Prop where
  program : ∃ records, WellFormedProgram records ∧ i.program = programBytes records
  display : ∃ rows collapsed, (∀ row ∈ rows, Token.lineEnd ∉ row) ∧ i.display = Display.file rows collapsed
  fits : programAddress + i.program.length + i.display.length + i.variableArea.length + 5 ≤ Assembly.maxAddress

/-- Two images with the same areas and the same system variables, but for the pointers. -/
structure SameContents (i j : Image) : Prop where
  program : j.program = i.program
  display : j.display = i.display
  variableArea : j.variableArea = i.variableArea
  system : j.system.SameFree i.system

theorem Holds.encodable {i : Image} {a : Assembly}
    (h : i.Holds a) (ha : a.Consistent)
    (hfits : a.editLine + 5 ≤ Assembly.maxAddress) : i.Encodable where
  program := ⟨_, ha.program, h.program⟩
  display := ⟨_, _, ha.rows, h.display⟩
  fits := by
    rw [h.program, h.display, h.variableArea]
    exact hfits

theorem SameContents.encodable {i j : Image} (h : SameContents i j) (hj : j.Encodable) : i.Encodable where
  program := h.program ▸ hj.program
  display := h.display ▸ hj.display
  fits := by
    rw [← h.program, ← h.display, ← h.variableArea]
    exact hj.fits

/-- The program area reaches at most to the address of the display file. -/
theorem program_length_le {data : List UInt8} {i : Image} (h : split data = .ok i) :
    i.program.length = 0 ∨ programAddress + i.program.length ≤ i.displayAddress := by
  have hstart : programAddress = baseAddress + blockSize := rfl
  unfold split at h
  split at h
  · cases h
  · next system _ =>
    cases h
    have hle := List.length_take_le (place data.length (system.pointer "D_FILE") blockSize - blockSize)
      (data.drop blockSize)
    rw [displayAddress]
    dsimp only
    generalize ((data.drop blockSize).take
      (place data.length (system.pointer "D_FILE") blockSize - blockSize)).length = size at hle ⊢
    unfold place at hle
    omega

/-- A line to run next that is found in the program starts a record. -/
theorem exists_record_of_lineNumberAt? {records : List LineRecord} (hwell : WellFormedProgram records)
    {offset : Int} {number : Nat} (h : lineNumberAt? (programBytes records) offset = some number) :
    ∃ front r back, records = front ++ r :: back ∧ offset = ((programBytes front).length : Nat) ∧
      number = r.number := by
  have hfound : 0 ≤ offset ∧ offset.toNat ∈ recordStarts 0 records := by
    unfold lineNumberAt? at h
    split at h
    · next hstart =>
      rw [Bool.and_eq_true, decide_eq_true_eq, List.contains_iff_mem,
        Listing.recordOffsets_programBytes hwell] at hstart
      exact hstart
    · cases h
  obtain ⟨front, r, back, rfl, hoffset⟩ := exists_of_mem_recordStarts hfound.2
  have hint : offset = ((programBytes front).length : Nat) := by omega
  rw [hint, lineNumberAt?_programBytes hwell] at h
  exact ⟨front, r, back, rfl, hint, (Option.some.inj h).symm⟩

/-- Images with the same contents that name the same line to start with, and nothing outside, have the same
text. -/
theorem SameContents.text_eq {i j : Image} (h : SameContents i j)
    (hstart : j.startDirective = i.startDirective) (hi : i.outside = []) (hj : j.outside = [])
    (style : Style) : j.text style = i.text style := by
  have hscreen : j.displayDirectives = i.displayDirectives := by
    unfold displayDirectives isCollapsed screenRows
    rw [h.display]
  have hvariables : j.variablesDirectives style = i.variablesDirectives style := by
    unfold variablesDirectives
    rw [h.variableArea]
  have hsystem : j.systemDirectives = i.systemDirectives := by
    unfold systemDirectives changedVariables
    rw [SystemVariables.diff_congr h.system]
  rw [Image.text_eq, Image.text_eq, header_eq, header_eq, hstart, hscreen, hvariables, hsystem, h.program, hi, hj,
    List.isEmpty_nil, if_pos rfl, if_pos rfl]

/-- A collection of the contents of an image. -/
def collection (i : Image) (records : List LineRecord) (rows : List (List UInt8)) (collapsed : Bool)
    (start : Option Nat) : Assembly where
  records := records.toArray
  startOffset := start
  rows := rows.toArray
  collapsed := collapsed
  variableBytes := i.variableArea.dropLast.toArray
  system := i.directedSystem

/-- The line to start with of an image without a notice about it: none, or a record that the directive names. -/
theorem exists_start {data : List UInt8} {i : Image} (hsplit : split data = .ok i)
    {records : List LineRecord} (hwell : WellFormedProgram records) (hprogram : i.program = programBytes records)
    (hnotice : hasNotice i.startDirective = false) :
    ∃ start : Option Nat, (∀ offset ∈ start, offset ∈ recordStarts 0 records) ∧ i.outside = [] ∧
      ∀ (j : Image) (a : Assembly), j.Holds a → a.records.toList = records → a.startOffset = start →
        j.startDirective = i.startDirective := by
  rcases startDirective_of_no_notice hnotice with hnext | ⟨hnext, number, hnumber⟩
  · refine ⟨none, nofun, if_pos (Nat.le_of_eq hnext), fun j a hj _ hstart => ?_⟩
    rw [hj.startDirective_none hstart, startDirective, if_pos (by rw [hnext, beq_self_eq_true])]
  · rw [hprogram] at hnumber
    obtain ⟨front, r, back, rfl, hoffset, rfl⟩ := exists_record_of_lineNumberAt? hwell hnumber
    refine ⟨some (programBytes front).length, ?_, if_pos ?_, fun j a hj hrecords hstart => ?_⟩
    · rintro offset ⟨⟩
      simpa using mem_recordStarts front r back 0
    · have hlength : i.program.length =
          (programBytes front).length + (r.size + (programBytes back).length) := by
        rw [hprogram, programBytes_append, programBytes_cons, List.length_append, List.length_append,
          r.length_bytes]
      have hsize : 0 < r.size := by
        unfold LineRecord.size
        omega
      have hle := program_length_le hsplit
      unfold nextLineOffset at hoffset
      omega
    · rw [hj.startDirective_line (hrecords ▸ hwell) hrecords hstart, startDirective,
        if_neg (by simpa using hnext), hprogram, hnumber]

/-- The encoded image that holds the same as an image of its form without notices. -/
theorem Encodable.exists_holds {data : List UInt8} {i : Image} (hsplit : split data = .ok i)
    (h : i.Encodable) {style : Style} (hnotice : hasNotice (i.text style) = false) :
    ∃ (a : Assembly) (j : Image), a.Consistent ∧ a.editLine + 5 ≤ Assembly.maxAddress ∧
      split j.data = .ok j ∧ j.Holds a ∧
        SameContents i j ∧ j.text style = i.text style ∧ i.program = programBytes a.records.toList := by
  obtain ⟨hstart, hvariables, -⟩ := i.hasNotice_text style hnotice
  obtain ⟨⟨records, hwell, hprogram⟩, ⟨rows, collapsed, hrows, hdisplay⟩, hfits⟩ := h
  obtain ⟨start, hrecord, houtside, hsame⟩ := exists_start hsplit hwell hprogram hstart
  have harea := variableArea_of_no_notice hvariables
  have hconsistent : (i.collection records rows collapsed start).Consistent := ⟨hwell, hrecord, hrows⟩
  have hvariableArea : (i.collection records rows collapsed start).variableArea = i.variableArea := harea.symm
  have hmemory : (i.collection records rows collapsed start).editLine + 5 ≤ Assembly.maxAddress := by
    rw [hprogram, hdisplay, ← hvariableArea] at hfits
    exact hfits
  obtain ⟨j, -, -, hsplit', hj⟩ := Assembly.image_of_fits hconsistent hmemory
  have hcontents : SameContents i j := {
    program := hj.program.trans hprogram.symm
    display := hj.display.trans hdisplay.symm
    variableArea := hj.variableArea.trans hvariableArea
    system := fun f hf hfree => (hj.free f hf hfree).trans (i.sameFree_directedSystem f hf hfree) }
  exact ⟨_, j, hconsistent, hmemory, hsplit', hj, hcontents,
    hcontents.text_eq (hsame j _ hj rfl rfl) houtside hj.outside style, hprogram⟩

end Image

namespace Source

open Image

/-- Every listing that encodes does so as an image of this form. -/
theorem encodable_of_encodeImage {files : FileReader} {s : Source} {bytes : List UInt8} {j : Image}
    (h : (encodeImage files s).result = .ok bytes) (hsplit : split bytes = .ok j) : j.Encodable := by
  obtain ⟨-, system, sizes, himage⟩ := encodeImage_eq_ok_iff.mp h
  obtain ⟨j', hsplit', -, hj⟩ := exists_holds h
  cases hsplit.symm.trans hsplit'
  exact hj.encodable (collect_consistent files s) (Assembly.editLine_le_of_image himage)

/-- **Images without notices.** Let the text of an image tell of nothing that it cannot keep. It encodes as an
image with the same program, display file and variables and with the same system variables, pointers aside, if
and only if the image has the form of an encoded image: its program is one of well-formed records, its display
file one of rows, and the memory ends at an address. -/
theorem encodeImage_text_keeps_iff (files : FileReader) (filename : List Char) (style : Style)
    {data : List UInt8} (h : blockSize ≤ data.length) (hnotice : hasNotice (decode style data) = false) :
    ∃ i, split data = .ok i ∧
      ((∃ bytes j, (encodeImage files (ofText filename (decode style data))).result = .ok bytes ∧
        split bytes = .ok j ∧ SameContents i j) ↔ i.Encodable) := by
  obtain ⟨i, hsplit⟩ := exists_split h
  have hdecode : decode style data = i.text style := by rw [decode, hsplit]
  rw [hdecode] at hnotice ⊢
  refine ⟨i, hsplit, ?_, fun hform => ?_⟩
  · rintro ⟨bytes, j, hresult, hsplit', hsame⟩
    exact hsame.encodable (encodable_of_encodeImage hresult hsplit')
  · obtain ⟨a, j, ha, hfits, hsplit', hj, hsame, htext, hprogram⟩ :=
      hform.exists_holds hsplit hnotice
    have hshown := Listing.isOk_of_no_notice ha.program (hprogram ▸ (i.hasNotice_text style hnotice).2.2)
    rw [← htext]
    exact ⟨j.data, j, encodeImage_text_of_shown files filename hj ha hfits style hshown, hsplit', hsame⟩

/-- An image of one line, `PRINT`, whose number has these two bytes, with an empty collapsed screen. -/
def oneLineImage (high low : UInt8) : List UInt8 :=
  (SystemVariables.reset.setLayout
    { displayFile := 0x4083, variableArea := 0x409C, editLine := 0x409D, nextLine := 0x4083 }).1.image ++
    [high, low, 0x02, 0x00, 0xF5, 0x76] ++ List.replicate 25 0x76 ++ [0x80]

theorem encodeImage_text_keeps_iff_sample :
    blockSize ≤ (oneLineImage 0x27 0x0F).length ∧ hasNotice (decode {} (oneLineImage 0x27 0x0F)) = false ∧
      ∃ i bytes j, split (oneLineImage 0x27 0x0F) = .ok i ∧
        (encodeImage (fun _ => .error []) (ofText defaultName (decode {} (oneLineImage 0x27 0x0F)))).result =
          .ok bytes ∧ split bytes = .ok j ∧ SameContents i j := by
  have hlength : blockSize ≤ (oneLineImage 0x27 0x0F).length := by decide +kernel
  have hnotice : hasNotice (decode {} (oneLineImage 0x27 0x0F)) = false := by decide +kernel
  have hareas : (split (oneLineImage 0x27 0x0F)).map (fun i => (i.program, i.display, i.variableArea)) =
      .ok ([0x27, 0x0F, 0x02, 0x00, 0xF5, 0x76], List.replicate 25 0x76, [0x80]) := by decide +kernel
  obtain ⟨i, hsplit, hiff⟩ := encodeImage_text_keeps_iff (fun _ => .error []) defaultName {} hlength hnotice
  rw [hsplit] at hareas
  obtain ⟨hprogram, hareas⟩ := Prod.mk.inj (Except.ok.inj hareas)
  obtain ⟨hdisplay, hvariables⟩ := Prod.mk.inj hareas
  have hform : i.Encodable := {
    program := ⟨[⟨9999, [0xF5, 0x76]⟩], by decide, hprogram.trans (by decide)⟩
    display := ⟨[], true, nofun, hdisplay.trans (by decide)⟩
    fits := by
      rw [hprogram, hdisplay, hvariables]
      decide }
  obtain ⟨bytes, j, hresult, hsplit', hsame⟩ := hiff.mpr hform
  exact ⟨hlength, hnotice, i, bytes, j, hsplit, hresult, hsplit', hsame⟩

/-- **A loss without a notice.** A line number that no listing can have is shown like any other, and the text
does not encode. -/
theorem encodeImage_text_loses :
    blockSize ≤ (oneLineImage 0x27 0x10).length ∧ hasNotice (decode {} (oneLineImage 0x27 0x10)) = false ∧
      ¬∃ i bytes j, split (oneLineImage 0x27 0x10) = .ok i ∧
        (encodeImage (fun _ => .error []) (ofText defaultName (decode {} (oneLineImage 0x27 0x10)))).result =
          .ok bytes ∧ split bytes = .ok j ∧ SameContents i j := by
  have hlength : blockSize ≤ (oneLineImage 0x27 0x10).length := by decide +kernel
  have hnotice : hasNotice (decode {} (oneLineImage 0x27 0x10)) = false := by decide +kernel
  have hprogram : (split (oneLineImage 0x27 0x10)).map Image.program =
      .ok [0x27, 0x10, 0x02, 0x00, 0xF5, 0x76] := by decide +kernel
  refine ⟨hlength, hnotice, ?_⟩
  rintro ⟨i, bytes, j, hsplit, hresult, hsplit', hsame⟩
  obtain ⟨records, hwell, hrecords⟩ := (hsame.encodable (encodable_of_encodeImage hresult hsplit')).program
  rw [hsplit] at hprogram
  rw [Except.ok.inj hprogram] at hrecords
  cases records with
  | nil => cases hrecords
  | cons r records =>
    have hr := hwell.wellFormed r List.mem_cons_self
    have hhead := Listing.head_bytes hr (programBytes records)
    have hnumber : Listing.head [0x27, 0x10, 0x02, 0x00, 0xF5, 0x76] = .whole 10000 [0xF5, 0x76] [] := by decide
    rw [← programBytes_cons, ← hrecords, hnumber] at hhead
    have hle := hr.number_le
    rw [Listing.Head.whole.injEq] at hhead
    rw [← hhead.1] at hle
    exact absurd hle (by decide)

end Source

end TapeBasic
