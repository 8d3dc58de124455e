import TapeBasic.Picture
import TapeBasic.Proofs.ImageRoundTrip

/-!
# Pictures of directives

A picture shows no more than the characters of 24 rows, each filled up with spaces to the width of the screen. The
directives for the screen lose the spaces at the ends of rows and the empty rows at the end, and keep only as many rows
and characters as there is room for; so the display file that is built from them can be another one, but its picture is
the same.

* `Picture.cells row`: the rows of pixels of some characters.

Results:
* `Image.screen_eq`: the picture of an image, by the rows for which it has directives.
* `Display.contents_contents`, `Image.contents_shownRows`: what a screen loses is filled up again.
* `Source.encodeImage_picture`: the picture that is got back from the directives for the screen.
-/
namespace TapeBasic

open SystemVariables (blockSize programAddress)

/-! ## Rows of the screen -/

namespace Display

/-- A row fills up to the same characters, whether or not it has been stored. -/
theorem content_content (collapsed : Bool) (row : List UInt8) :
    content false (content collapsed row) = content false row := by
  obtain ⟨more, hstored⟩ : ∃ more, content collapsed row = row.take columnCount ++
      List.replicate more Token.space := by
    cases collapsed with
    | true => exact ⟨0, rfl⟩
    | false => exact ⟨_, rfl⟩
  rw [hstored, content_expanded, content_expanded, filled_append_replicate, filled_take]

theorem contents_filled (rows : List (List UInt8)) (collapsed : Bool) :
    contents (filled rowCount [] rows) collapsed = contents rows collapsed := by
  have hfilled : filled rowCount [] (filled rowCount [] rows) = filled rowCount [] rows := by
    rw [filled.eq_def rowCount [] rows, filled_append_replicate, filled_take, filled]
  exact congrArg (List.map (content collapsed)) hfilled

/-- **Display files.** Their rows fill up to those from which they were built. -/
theorem contents_contents (rows : List (List UInt8)) (collapsed : Bool) :
    contents (contents rows collapsed) false = contents rows false :=
  (contents_map (content_content collapsed) (filled rowCount [] rows)).trans (contents_filled rows false)

theorem contents_concat_nil (rows : List (List UInt8)) (collapsed : Bool) :
    contents (rows ++ [[]]) collapsed = contents rows collapsed :=
  congrArg (List.map (content collapsed)) (filled_append_replicate rows 1)

end Display

/-! ## Pixels -/

namespace Picture

/-- The rows of pixels of some characters. -/
def cells (row : List UInt8) : List (List Bool) :=
  (List.range cellSize).map fun y => row.flatMap fun code => bits (cellBits code y)

theorem bits_space : ∀ y ∈ List.range cellSize, bits (cellBits Token.space y) = List.replicate cellSize false := by
  decide +kernel

/-- A space is blank, so a row shows what it shows when it is filled up. -/
theorem pixelRows_eq (row : List UInt8) : pixelRows row = cells (Display.content false row) := by
  refine List.map_congr_left fun y hy => ?_
  rw [Display.content, if_neg Bool.false_ne_true, List.flatMap_append, List.flatMap_replicate, bits_space y hy,
    List.flatten_replicate_replicate]
  rfl

/-- The rows of a picture are those of the display file behind its first line end, filled up. -/
theorem screen_eq (display : List UInt8) (h : display = [] ∨ display.head? = some Token.lineEnd) :
    screen display =
      ⟨screenWidth, (Display.contents (Display.splitRows (display.drop 1)) false).flatMap cells⟩ := by
  have hbody : (if display.head? == some Token.lineEnd then display.tail else display) = display.drop 1 := by
    rcases h with rfl | h
    · rfl
    · rw [if_pos (beq_iff_eq.mpr h), List.drop_one]
  have hshown : shownRows display = filled Display.rowCount [] (Display.splitRows (display.drop 1)) := by
    unfold shownRows
    rw [hbody]
    dsimp only
    rw [← filled_take, filled, List.take_take, Nat.min_self]
  rw [screen, hshown, Display.contents, List.flatMap_map]
  simp only [← pixelRows_eq]
  rfl

end Picture

/-! ## The screen of an image -/

namespace Image

variable {i : Image}

/-- A line end at the end of a display file starts no further row that could be seen. -/
theorem contents_screenRows (i : Image) (collapsed : Bool) :
    Display.contents i.screenRows collapsed = Display.contents (Display.splitRows (i.display.drop 1)) collapsed := by
  unfold screenRows
  dsimp only
  by_cases hlast : (i.display.drop 1).getLast? = some Token.lineEnd
  · obtain ⟨front, hbody⟩ := List.getLast?_eq_some_iff.mp hlast
    have hlength : ¬i.display.length ≤ 1 := fun hle => by
      rw [List.drop_eq_nil_of_le hle] at hbody
      exact absurd hbody (by simp)
    have hrows : Display.splitRows (front ++ [Token.lineEnd]) = Display.splitRows front ++ [[]] :=
      List.splitOn_append_cons_self front []
    rw [if_pos (beq_iff_eq.mpr hlast), if_neg (by simp [hlength]), hbody, List.dropLast_concat, hrows,
      Display.contents_concat_nil]
  · rw [if_neg (mt beq_iff_eq.mp hlast)]
    split
    · next hempty =>
      have hbody : i.display.drop 1 = [] := List.isEmpty_iff.mp (Bool.and_eq_true_iff.mp hempty).1
      rw [hbody]
      exact (Display.contents_concat_nil [] collapsed).symm
    · rfl

/-- **Pictures.** An image shows the rows for which it could have directives, filled up. -/
theorem screen_eq (h : i.display = [] ∨ i.display.head? = some Token.lineEnd) :
    Picture.screen i.display =
      ⟨Picture.screenWidth, (Display.contents i.screenRows false).flatMap Picture.cells⟩ := by
  rw [Picture.screen_eq i.display h, contents_screenRows]

/-- The spaces and the empty rows for which there are no directives are filled up again. -/
theorem contents_shownRows (i : Image) :
    Display.contents i.shownRows false = Display.contents i.screenRows false := by
  rw [shownRows, Display.contents_dropRightWhile]
  split
  · rfl
  · exact Display.contents_map Display.content_stripped i.screenRows

end Image

/-! ## The picture that is got back -/

namespace Source

/-- The directives for the screen by themselves have an image, which is small enough for the memory. -/
theorem exists_image_displayDirectives (files : FileReader) (filename : List Char) (i : Image) :
    ∃ j : Image, (encodeImage files (ofText filename i.displayDirectives)).result = .ok j.data ∧
      Image.split j.data = .ok j ∧ j.display = Display.file i.shownRows i.isCollapsed := by
  have hconsistent := collect_consistent files (ofText filename i.displayDirectives)
  have hturns : Assembly.Turns files filename i.displayDirectives {} _ := i.turns_displayDirectives {}
  obtain ⟨events, hcollect⟩ := hturns.collect rfl
  have hfault : (collect files (ofText filename i.displayDirectives)).fault = none := by rw [hcollect]
  have hassembly : (collect files (ofText filename i.displayDirectives)).assembly =
      { rows := i.shownRows.toArray, collapsed := i.isCollapsed } := by
    rw [hcollect]
    simp
  rw [hassembly] at hconsistent
  obtain ⟨j, sizes, himage, hsplit, hholds⟩ := Assembly.image_of_fits hconsistent (by
    have hle := Display.length_file_le i.shownRows i.isCollapsed
    have hsize : programAddress + Display.expandedSize + 1 + 5 ≤ Assembly.maxAddress := by decide
    change programAddress + 0 + (Display.file i.shownRows i.isCollapsed).length + 1 + 5 ≤ Assembly.maxAddress
    omega)
  exact ⟨j, encodeImage_eq_ok_iff.mpr ⟨hfault, _, _, hassembly ▸ himage⟩, hsplit, hholds.display⟩

/-- **Pictures of directives.** Take any bytes that are long enough for an image, whose display file is empty or starts
with a line end, with rows of any number and any length. The directives for its screen by themselves have a tape image,
and its display file has the same picture. -/
theorem encodeImage_picture (files : FileReader) (filename : List Char) {data : List UInt8}
    (h : blockSize ≤ data.length) :
    ∃ i, Image.split data = .ok i ∧ (i.display = [] ∨ i.display.head? = some Token.lineEnd →
      ∃ bytes j, (encodeImage files (ofText filename i.displayDirectives)).result = .ok bytes ∧
        Image.split bytes = .ok j ∧ Picture.screen j.display = Picture.screen i.display) := by
  obtain ⟨i, hsplit⟩ := Image.exists_split h
  obtain ⟨j, hresult, hsplit', hdisplay⟩ := exists_image_displayDirectives files filename i
  refine ⟨i, hsplit, fun hstart => ⟨j.data, j, hresult, hsplit', ?_⟩⟩
  rw [Display.file_eq] at hdisplay
  have hrows : j.screenRows = Display.contents i.shownRows i.isCollapsed := by
    refine Image.screenRows_eq ?_ ?_ hdisplay
    · exact List.ne_nil_of_length_pos (by rw [Display.length_contents]; decide)
    · exact Display.lineEnd_not_mem_contents i.lineEnd_not_mem_shownRows _
  have hstart' : j.display.head? = some Token.lineEnd := by
    rw [hdisplay]
    rfl
  rw [Image.screen_eq (.inr hstart'), Image.screen_eq hstart, hrows, Display.contents_contents,
    Image.contents_shownRows]

/-- An image without a program, with this display file and no variables. -/
def screenImage (display : List UInt8) : List UInt8 :=
  (SystemVariables.reset.setLayout
    { displayFile := 0x407D, variableArea := (0x407D + display.length : Nat),
      editLine := (0x407E + display.length : Nat), nextLine := 0x407D }).1.image ++ display ++ [0x80]

/-- Three rows, of which the first one has a space at its end, the second one nothing and the last one no line end. -/
theorem encodeImage_picture_sample :
    blockSize ≤ (screenImage [0x76, 0x26, 0x00, 0x76, 0x76, 0xA7]).length ∧
      ∃ i bytes j, Image.split (screenImage [0x76, 0x26, 0x00, 0x76, 0x76, 0xA7]) = .ok i ∧
        i.display = [0x76, 0x26, 0x00, 0x76, 0x76, 0xA7] ∧
        (encodeImage (fun _ => .error []) (ofText defaultName i.displayDirectives)).result = .ok bytes ∧
        Image.split bytes = .ok j ∧ Picture.screen j.display = Picture.screen i.display := by
  have hlength : blockSize ≤ (screenImage [0x76, 0x26, 0x00, 0x76, 0x76, 0xA7]).length := by decide +kernel
  have hdisplay : (Image.split (screenImage [0x76, 0x26, 0x00, 0x76, 0x76, 0xA7])).map Image.display =
      .ok [0x76, 0x26, 0x00, 0x76, 0x76, 0xA7] := by decide +kernel
  obtain ⟨i, hsplit, hpicture⟩ := encodeImage_picture (fun _ => .error []) defaultName hlength
  rw [hsplit] at hdisplay
  have hstored : i.display = [0x76, 0x26, 0x00, 0x76, 0x76, 0xA7] := Except.ok.inj hdisplay
  obtain ⟨bytes, j, hresult, hsplit', hsame⟩ := hpicture (.inr (by rw [hstored]; rfl))
  exact ⟨hlength, i, bytes, j, hsplit, hstored, hresult, hsplit', hsame⟩

end Source

end TapeBasic
