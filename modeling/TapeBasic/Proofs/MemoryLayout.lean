import TapeBasic.Image
import TapeBasic.Proofs.EncodedPrograms
import TapeBasic.Proofs.ImageAreas
import TapeBasic.Proofs.SystemFields

/-!
# The layout of an encoded image

An image that fits the memory is put together from its areas with pointers to them, and taking it apart
along these pointers gives the areas back.

* `Image.Holds i a`: the image `i` is what was collected in `a`, laid out in the memory.

Results:
* `split_areas`: an image whose pointers lie between its areas comes apart into these areas.
* `image_of_fits`: a collection that fits the memory has an image that holds it.
* `Source.encodeImage_cases`: a listing whose program can be encoded has an image, unless it is too large.
-/
namespace TapeBasic

open SystemVariables (programAddress baseAddress blockSize)

/-! ## Taking an image apart -/

namespace Image

theorem ofImageStart_image (system : SystemVariables) (rest : List UInt8) :
    SystemVariables.ofImageStart (system.image ++ rest) = .ok system := by
  rw [SystemVariables.ofImageStart, List.take_left' system.size_eq, SystemVariables.ofImage,
    dif_pos system.size_eq]

theorem place_eq {size address least n : Nat} (hleast : least ≤ n) (hsize : n ≤ size)
    (haddress : address = baseAddress + n) : place size address least = n := by
  unfold place
  omega

/-- **Areas.** Where every pointer stands between two areas, an image is taken apart into its areas. -/
theorem split_areas {system : SystemVariables} {program display variableArea : List UInt8}
    (hdisplay : system.pointer "D_FILE" = programAddress + program.length)
    (hvars : system.pointer "VARS" = programAddress + program.length + display.length)
    (hedit : system.pointer "E_LINE" =
      programAddress + program.length + display.length + variableArea.length) :
    split (system.image ++ program ++ display ++ variableArea) =
      .ok ⟨system.image ++ program ++ display ++ variableArea, system, program, display,
        variableArea⟩ := by
  have hstart : programAddress = baseAddress + blockSize := rfl
  have hlength : (system.image ++ program ++ display ++ variableArea).length =
      blockSize + program.length + display.length + variableArea.length := by
    simp only [List.length_append, system.size_eq]
  have hsystem : SystemVariables.ofImageStart (system.image ++ program ++ display ++ variableArea) =
      .ok system := by
    rw [List.append_assoc, List.append_assoc, ofImageStart_image]
  unfold split
  rw [hsystem]
  dsimp only
  rw [hlength, place_eq (n := blockSize + program.length) (by omega) (by omega) (by omega),
    place_eq (n := blockSize + program.length + display.length) (by omega) (by omega) (by omega),
    place_eq (n := blockSize + program.length + display.length + variableArea.length) (by omega) (by omega)
      (by omega)]
  have hprogram : ((system.image ++ program ++ display ++ variableArea).drop blockSize).take
      (blockSize + program.length - blockSize) = program := by
    rw [List.append_assoc, List.append_assoc, List.drop_left' system.size_eq, Nat.add_sub_cancel_left,
      List.take_left]
  have hdisplay : ((system.image ++ program ++ display ++ variableArea).drop
      (blockSize + program.length)).take (blockSize + program.length + display.length -
        (blockSize + program.length)) = display := by
    rw [List.append_assoc, List.drop_left' (by simp [system.size_eq]), Nat.add_sub_cancel_left,
      List.take_left]
  have hvariables : ((system.image ++ program ++ display ++ variableArea).drop
      (blockSize + program.length + display.length)).take (blockSize + program.length + display.length +
        variableArea.length - (blockSize + program.length + display.length)) = variableArea := by
    rw [List.drop_left' (by simp [system.size_eq]; omega), Nat.add_sub_cancel_left, List.take_length]
  rw [hprogram, hdisplay, hvariables]

/-- The image of a collection: its areas, the pointers to them and the free system variables. -/
structure Holds (i : Image) (a : Assembly) : Prop where
  data : i.data = i.system.image ++ a.program ++ a.displayFile ++ a.variableArea
  length : i.data.length + baseAddress = i.system.pointer "E_LINE"
  displayFile : i.system.pointer "D_FILE" = programAddress + a.program.length
  printPosition : i.system.pointer "DF_CC" = i.system.pointer "D_FILE" + 1
  variablesStart : i.system.pointer "VARS" = i.system.pointer "D_FILE" + a.displayFile.length
  editLine : i.system.pointer "E_LINE" = i.system.pointer "VARS" + a.variableArea.length
  nextCharacter : i.system.pointer "CH_ADD" = i.system.pointer "E_LINE" + 4
  stackBottom : i.system.pointer "STKBOT" = i.system.pointer "E_LINE" + 5
  stackEnd : i.system.pointer "STKEND" = i.system.pointer "E_LINE" + 5
  nextLine : i.system.pointer "NXTLIN" = programAddress + a.startOffset.getD a.program.length
  free : i.system.SameFree a.system
  program : i.program = a.program
  display : i.display = a.displayFile
  variableArea : i.variableArea = a.variableArea
  outside : i.outside = []

end Image

/-! ## The size of a display file -/

namespace Display

theorem length_storedRow_expanded (row : List UInt8) :
    (storedRow false row).length = columnCount + 1 := by
  simp only [storedRow, if_neg Bool.false_ne_true, List.length_append, List.length_take,
    List.length_replicate, List.length_singleton]
  omega

/-- **Full rows.** A display file that is not collapsed has one size, whatever it shows. -/
theorem length_file_expanded (rows : List (List UInt8)) : (file rows false).length = expandedSize := by
  have hrows : (rows.take rowCount ++ List.replicate (rowCount - rows.length) []).length = rowCount := by
    rw [List.length_append, List.length_take, List.length_replicate]
    omega
  have hsize : ∀ all : List (List UInt8),
      (all.flatMap (storedRow false)).length = all.length * (columnCount + 1) := by
    intro all
    simp [List.length_flatMap, length_storedRow_expanded]
  rw [file, List.length_cons, hsize, hrows, expandedSize, Nat.add_comm]

end Display

/-! ## Putting an image together -/

namespace Assembly

/-- The address behind the variables. -/
def editLine (a : Assembly) : Nat :=
  programAddress + a.program.length + a.displayFile.length + a.variableArea.length

theorem startOffset_le {a : Assembly}
    (h : a.Consistent) : a.startOffset.getD a.program.length ≤ a.program.length := by
  cases hstart : a.startOffset with
  | none => exact Nat.le_refl _
  | some offset =>
    obtain ⟨front, r, back, hrecords, rfl⟩ :=
      exists_of_mem_recordStarts (h.start offset (by rw [hstart]; rfl))
    rw [Option.getD_some, program, hrecords, programBytes_append, List.length_append]
    omega

/-- The layout of the areas of a collection. -/
def areaLayout (a : Assembly) : SystemVariables.Layout :=
  a.layout a.program.length a.displayFile.length a.variableArea.length

theorem editLine_areaLayout (a : Assembly) : a.areaLayout.editLine = a.editLine := by
  simp only [areaLayout, layout, editLine]
  omega

theorem nextLine_areaLayout (a : Assembly) :
    a.areaLayout.nextLine = (programAddress + a.startOffset.getD a.program.length : Nat) := by
  simp only [areaLayout, layout]
  cases a.startOffset with
  | none => rfl
  | some offset => exact (Int.natCast_add _ _).symm

theorem image_eq (a : Assembly) :
    a.image =
      if maxAddress < a.editLine + 5 then .error (.tooLarge a.editLine)
      else
        match a.system.setLayout a.areaLayout with
        | (_, some failure) => .error (.layout failure)
        | (system, none) =>
          .ok (system, system.image ++ a.program ++ a.displayFile ++ a.variableArea,
            ⟨a.program.length, a.displayFile.length, a.variableArea.length⟩) := by
  have hedit := a.editLine_areaLayout
  have hiff : ((maxAddress : Int) < a.editLine + 5) ↔ maxAddress < a.editLine + 5 := by omega
  unfold image
  dsimp only
  rw [← areaLayout]
  simp only [hedit, Int.toNat_natCast]
  exact if_congr hiff rfl rfl

theorem image_of_too_large {a : Assembly} (h : maxAddress < a.editLine + 5) :
    a.image = .error (.tooLarge a.editLine) := by
  rw [image_eq, if_pos h]

/-- Every pointer of a collection that fits is an address. -/
theorem pointers_areaLayout {a : Assembly}
    (h : a.Consistent) (hfits : a.editLine + 5 ≤ maxAddress) :
    ∀ p ∈ a.areaLayout.pointers, 0 ≤ p.2 ∧ p.2 ≤ 65535 := by
  have hedit := a.editLine_areaLayout
  have hnext := a.nextLine_areaLayout
  have hstart := startOffset_le h
  have hdisplay : a.areaLayout.displayFile = (programAddress + a.program.length : Nat) := rfl
  have hvars : a.areaLayout.variableArea =
      (programAddress + a.program.length : Nat) + (a.displayFile.length : Nat) := rfl
  have hmax : maxAddress = 65535 := rfl
  have hlast : a.editLine = programAddress + a.program.length + a.displayFile.length +
      a.variableArea.length := rfl
  simp only [SystemVariables.Layout.pointers, List.forall_mem_cons, List.not_mem_nil, false_implies,
    implies_true, and_true]
  omega

/-- **The image of a collection.** If it fits the memory, it is laid out there, and comes apart again. -/
theorem image_of_fits {a : Assembly}
    (h : a.Consistent) (hfits : a.editLine + 5 ≤ maxAddress) :
    ∃ (i : Image) (sizes : AreaSizes), a.image = .ok (i.system, i.data, sizes) ∧
      Image.split i.data = .ok i ∧ i.Holds a := by
  obtain ⟨system, hsystem, hpointers, hfree⟩ :=
    a.system.setLayout_spec (pointers_areaLayout h hfits)
  have hedit := a.editLine_areaLayout
  have hnext := a.nextLine_areaLayout
  have hstart := startOffset_le h
  have hdisplay : a.areaLayout.displayFile = (programAddress + a.program.length : Nat) := rfl
  have hvars : a.areaLayout.variableArea =
      (programAddress + a.program.length : Nat) + (a.displayFile.length : Nat) := rfl
  have hlast : a.editLine = programAddress + a.program.length + a.displayFile.length +
      a.variableArea.length := rfl
  simp only [SystemVariables.Layout.pointers, List.forall_mem_cons, hedit, hnext, hdisplay,
    hvars] at hpointers
  obtain ⟨hp₁, hp₂, hp₃, hp₄, hp₅, hp₆, hp₇, hp₈, -⟩ := hpointers
  refine ⟨⟨system.image ++ a.program ++ a.displayFile ++ a.variableArea, system, a.program,
    a.displayFile, a.variableArea⟩, ⟨a.program.length, a.displayFile.length, a.variableArea.length⟩,
    ?_, Image.split_areas (by omega) (by omega) (by omega), ?_⟩
  · rw [image_eq, if_neg (by omega), hsystem]
  · have hlength : (system.image ++ a.program ++ a.displayFile ++ a.variableArea).length =
        blockSize + a.program.length + a.displayFile.length + a.variableArea.length := by
      simp only [List.length_append, system.size_eq]
    have hbase : programAddress = baseAddress + blockSize := rfl
    exact {
      data := rfl
      length := by dsimp only; omega
      displayFile := by dsimp only; omega
      printPosition := by dsimp only; omega
      variablesStart := by dsimp only; omega
      editLine := by dsimp only; omega
      nextCharacter := by dsimp only; omega
      stackBottom := by dsimp only; omega
      stackEnd := by dsimp only; omega
      nextLine := by dsimp only; omega
      free := hfree
      program := rfl
      display := rfl
      variableArea := rfl
      outside := if_pos (by
        change system.pointer "NXTLIN" ≤ system.pointer "D_FILE"
        omega) }

theorem editLine_le_of_image {a : Assembly} {system : SystemVariables} {data : List UInt8}
    {sizes : AreaSizes} (h : a.image = .ok (system, data, sizes)) : a.editLine + 5 ≤ maxAddress := by
  rw [image_eq] at h
  split at h
  · cases h
  · omega

end Assembly

namespace Source

theorem encodeImage_eq_ok_iff {files : FileReader} {s : Source} {data : List UInt8} :
    (s.encodeImage files).result = .ok data ↔ (s.collect files).fault = none ∧
      ∃ system sizes, (s.collect files).assembly.image = .ok (system, data, sizes) := by
  unfold encodeImage
  dsimp only
  split
  · next fault hfault => simp [hfault]
  · next hfault =>
    split
    · next failure himage => simp [himage]
    · next system bytes areas himage => simp [himage, hfault]

theorem encodeImage_error {files : FileReader} {s : Source} {failure : EncodingFailure}
    (hfault : (s.collect files).fault = none)
    (himage : (s.collect files).assembly.image = .error failure) :
    (s.encodeImage files).result = .error failure := by
  rw [encodeImage, hfault]
  dsimp only
  rw [himage]

theorem encodeProgram_eq_error_iff {files : FileReader} {s : Source} {failure : EncodingFailure} :
    (s.encodeProgram files).result = .error failure ↔
      ∃ fault, (s.collect files).fault = some fault ∧ s.failure fault = failure := by
  unfold encodeProgram
  dsimp only
  split
  · next fault hfault => simp [hfault]
  · next hfault => simp [hfault]

theorem encodeImage_eq_error_iff {files : FileReader} {s : Source} {failure : EncodingFailure} :
    (s.encodeImage files).result = .error failure ↔ (s.encodeProgram files).result = .error failure ∨
      (s.collect files).fault = none ∧ (s.collect files).assembly.image = .error failure := by
  rw [encodeProgram_eq_error_iff]
  unfold encodeImage
  dsimp only
  split
  · next fault hfault => simp [hfault]
  · next hfault =>
    split
    · next other himage => simp [hfault, himage]
    · next system bytes areas himage => simp [hfault, himage]

/-- An image that is put together from a listing holds what was collected from it. -/
theorem exists_holds {files : FileReader} {s : Source} {data : List UInt8}
    (h : (s.encodeImage files).result = .ok data) :
    ∃ i, Image.split data = .ok i ∧ i.data = data ∧ i.Holds (s.collect files).assembly := by
  obtain ⟨-, system, sizes, himage⟩ := encodeImage_eq_ok_iff.mp h
  obtain ⟨i, sizes', hi, hsplit, hholds⟩ := Assembly.image_of_fits (s.collect_consistent files)
    (Assembly.editLine_le_of_image himage)
  cases himage.symm.trans hi
  exact ⟨i, hsplit, rfl, hholds⟩

/-- **Images of listings.** A listing whose program can be encoded has an image that holds what was collected, unless
the memory would end too high. -/
theorem encodeImage_cases {files : FileReader} {s : Source} (hfault : (s.collect files).fault = none) :
    let a := (s.collect files).assembly
    (a.editLine + 5 ≤ Assembly.maxAddress ∧ ∃ i : Image, (s.encodeImage files).result = .ok i.data ∧
        Image.split i.data = .ok i ∧ i.Holds a) ∨
      Assembly.maxAddress < a.editLine + 5 ∧ (s.encodeImage files).result = .error (.tooLarge a.editLine) := by
  intro a
  by_cases hfits : a.editLine + 5 ≤ Assembly.maxAddress
  · obtain ⟨i, sizes, himage, hsplit, hholds⟩ := Assembly.image_of_fits (s.collect_consistent files) hfits
    exact .inl ⟨hfits, i, encodeImage_eq_ok_iff.mpr ⟨hfault, _, _, himage⟩, hsplit, hholds⟩
  · have hlarge := Nat.lt_of_not_le hfits
    exact .inr ⟨hlarge, encodeImage_error hfault (Assembly.image_of_too_large hlarge)⟩

/-- The sizes of the areas of the sample. -/
theorem sizes_sampleRecords :
    let a : Assembly := { records := sampleRecords.toArray }
    a.program.length = 42 ∧ a.displayFile.length = 793 ∧ a.variableArea.length = 1 :=
  ⟨by decide, Display.length_file_expanded [], by decide⟩

end Source

end TapeBasic
