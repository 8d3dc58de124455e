import TapeBasic.Picture

/-!
# The pixels of a picture

What is seen at a place of a picture, told from the bytes of the display file alone.

* `Picture.pixel? p x y`: the pixel at this place of a picture.
* `Picture.codeAt? display row column`: the character of a display file at this place of the screen.
* `Picture.inkAt display x y`: whether the pixel at this place of the screen is ink.

Results:
* `getElem?_flatMap_of_length`: what is found in a row of parts of one length.
* `Picture.pixel?_scaled`: a pixel of an enlarged picture is the one that it is a part of.
* `Picture.pixel?_screen`: the picture of a display file has ink where its characters have it.
* `Picture.pixel?_ofDisplay`, `Picture.length_ofDisplay`: the same at every scale.
-/
namespace TapeBasic

section Parts

variable {α β : Type} {f : α → List β} {n : Nat} {list : List α} (h : ∀ a ∈ list, (f a).length = n)

include h

theorem length_flatMap_of_length : (list.flatMap f).length = list.length * n := by
  induction list with
  | nil => simp
  | cons a list ih =>
    have ha := h a List.mem_cons_self
    have hlist := ih fun b hb => h b (List.mem_cons_of_mem _ hb)
    rw [List.flatMap_cons, List.length_append, ha, hlist, List.length_cons, Nat.succ_mul, Nat.add_comm]

/-- An element in a row of parts of one length is found in the part to which its place leads. -/
theorem getElem?_flatMap_of_length (hn : 0 < n) (i : Nat) :
    (list.flatMap f)[i]? = list[i / n]?.bind fun a => (f a)[i % n]? := by
  induction list generalizing i with
  | nil => simp
  | cons a list ih =>
    have ha := h a List.mem_cons_self
    rw [List.flatMap_cons]
    by_cases hi : i < n
    · rw [List.getElem?_append_left (by rw [ha]; exact hi), Nat.div_eq_of_lt hi, Nat.mod_eq_of_lt hi]
      rfl
    · have hle : n ≤ i := Nat.le_of_not_lt hi
      rw [List.getElem?_append_right (by rw [ha]; exact hle), ha, ih (fun b hb => h b (List.mem_cons_of_mem _ hb)),
        Nat.div_eq_sub_div hn hle, List.getElem?_cons_succ, Nat.mod_eq_sub_mod hle]

end Parts

namespace Picture

/-- The pixel of a picture at a place, counted from the left and from the top. -/
def pixel? (p : Picture) (x y : Nat) : Option Bool := p.rows[y]?.bind (·[x]?)

/-! ## Larger pixels -/

section Scale

variable {scale : Nat} (hscale : 1 ≤ scale)

include hscale

/-- **Scale.** A pixel of an enlarged picture is the one that it is a part of. -/
theorem pixel?_scaled (p : Picture) (x y : Nat) :
    (p.scaled scale).pixel? x y = p.pixel? (x / scale) (y / scale) := by
  have hx := Nat.mod_lt x hscale
  have hy := Nat.mod_lt y hscale
  have hrow : ∀ row : List Bool, (row.flatMap (List.replicate scale))[x]? = row[x / scale]? := by
    intro row
    rw [getElem?_flatMap_of_length (fun _ _ => List.length_replicate) hscale]
    simp [hx]
  rw [pixel?, scaled, getElem?_flatMap_of_length (fun _ _ => List.length_replicate) hscale, pixel?,
    Option.bind_assoc]
  simp [hy, hrow]

end Scale

theorem length_rows_scaled (p : Picture) (scale : Nat) : (p.scaled scale).rows.length = p.rows.length * scale :=
  length_flatMap_of_length fun _ _ => List.length_replicate

theorem length_row_scaled {p : Picture} (h : ∀ row ∈ p.rows, row.length = p.width) (scale : Nat) :
    ∀ row ∈ (p.scaled scale).rows, row.length = (p.scaled scale).width := by
  intro row hrow
  obtain ⟨small, hsmall, hcopies⟩ := List.mem_flatMap.mp hrow
  rw [(List.mem_replicate.mp hcopies).2, length_flatMap_of_length fun _ _ => List.length_replicate, h small hsmall]
  rfl

/-! ## The pixels of a character -/

theorem size_glyphs : glyphs.size = 512 := by decide +kernel

/-- A row of pixels of a character: that of its glyph, of which there are 64, and blank for the other codes. -/
def glyphRow (code : UInt8) (y : Nat) : UInt8 :=
  if h : code.toNat % 128 < 64 then
    have : code.toNat % 128 * 8 + y % 8 < glyphs.size := by rw [size_glyphs]; omega
    glyphs[code.toNat % 128 * 8 + y % 8]
  else 0

/-- Whether a pixel of a character is ink. The upper half of the codes has ink and paper exchanged. -/
def inkOf (code : UInt8) (x y : Nat) : Bool :=
  (glyphRow code y).toNat.testBit (7 - x % 8) ^^ decide (128 ≤ code.toNat)

theorem toNat_and_low (code : UInt8) : (code &&& 0x7F).toNat = code.toNat % 128 := by
  rw [UInt8.toNat_and]
  exact Nat.and_two_pow_sub_one_eq_mod code.toNat 7

theorem and_top_eq_zero_iff (code : UInt8) : code &&& 0x80 = 0 ↔ code.toNat < 128 := by
  have hbytes : ∀ n < 256, n &&& 128 = 0 ↔ n < 128 := by decide +kernel
  rw [← UInt8.toNat_inj, UInt8.toNat_and]
  exact hbytes code.toNat code.toNat_lt

theorem testBit_xor_ones (b : UInt8) {i : Nat} (h : i < 8) :
    (b ^^^ 0xFF).toNat.testBit i = !b.toNat.testBit i := by
  have hones : (0xFF : UInt8).toNat.testBit i = true := by
    rw [show (0xFF : UInt8).toNat = 2 ^ 8 - 1 from rfl, Nat.testBit_two_pow_sub_one, decide_eq_true h]
  rw [UInt8.toNat_xor, Nat.testBit_xor, hones, Bool.xor_true]

/-- The bits of a row of pixels are those of the glyph, exchanged for the upper half of the codes. -/
theorem testBit_cellBits (code : UInt8) (x y : Nat) :
    (cellBits code (y % 8)).toNat.testBit (7 - x % 8) = inkOf code x y := by
  have hglyph : glyphs[(code &&& 0x7F).toNat * cellSize + y % 8]?.getD 0 = glyphRow code y := by
    rw [toNat_and_low, glyphRow, cellSize]
    split
    · next hcode =>
      rw [Array.getElem?_eq_getElem (by rw [size_glyphs]; omega), Option.getD_some]
    · next hcode =>
      rw [Array.getElem?_eq_none (by rw [size_glyphs]; omega), Option.getD_none]
  rw [cellBits, hglyph, inkOf]
  by_cases hlow : code.toNat < 128
  · have hexchanged : decide (128 ≤ code.toNat) = false := decide_eq_false (by omega)
    rw [if_pos (beq_iff_eq.mpr ((and_top_eq_zero_iff code).mpr hlow)), hexchanged, Bool.xor_false]
  · have hexchanged : decide (128 ≤ code.toNat) = true := decide_eq_true (by omega)
    rw [if_neg (mt beq_iff_eq.mp (mt (and_top_eq_zero_iff code).mp hlow)), hexchanged,
      testBit_xor_ones _ (by omega), Bool.xor_true]

/-! ## The pixels of the screen -/

/-- The characters of a display file. A line end at its start belongs to no row. -/
def body (display : List UInt8) : List UInt8 :=
  if display.head? = some Token.lineEnd then display.tail else display

/-- The character of a display file at a place of the screen. -/
def codeAt? (display : List UInt8) (row column : Nat) : Option UInt8 :=
  (Display.splitRows (body display))[row]?.bind (·[column]?)

/-- Whether the pixel at a place of the screen is ink; where there is no character, all is paper. -/
def inkAt (display : List UInt8) (x y : Nat) : Bool :=
  match codeAt? display (y / 8) (x / 8) with
  | some code => inkOf code x y
  | none => false

theorem length_bits (b : UInt8) : (bits b).length = 8 := by simp [bits]

theorem getElem?_bits (b : UInt8) {x : Nat} (h : x < 8) : (bits b)[x]? = some (b.toNat.testBit (7 - x)) := by
  simp [bits, h]

theorem length_pixelRow (row : List UInt8) (y : Nat) : (pixelRow row y).length = screenWidth := by
  have hlength : (row.take Display.columnCount).length ≤ 32 := by
    rw [List.length_take]
    exact Nat.min_le_left _ _
  rw [pixelRow, List.length_append, length_flatMap_of_length (fun _ _ => length_bits _), List.length_replicate,
    screenWidth, Display.columnCount, cellSize]
  rw [Display.columnCount] at hlength
  omega

theorem length_pixelRows (row : List UInt8) : (pixelRows row).length = 8 := by simp [pixelRows, cellSize]

/-- A pixel of a row of characters. -/
theorem getElem?_pixelRow (row : List UInt8) {x : Nat} (hx : x < screenWidth) (y : Nat) :
    (pixelRow row (y % 8))[x]? = some (row[x / 8]?.elim false fun code => inkOf code x y) := by
  have hcolumn : x / 8 < Display.columnCount := by
    rw [screenWidth, Display.columnCount, cellSize] at hx
    rw [Display.columnCount]
    omega
  have hlength : ((row.take Display.columnCount).flatMap fun code => bits (cellBits code (y % 8))).length =
      (row.take Display.columnCount).length * 8 := length_flatMap_of_length fun _ _ => length_bits _
  have hshown : (row.take Display.columnCount)[x / 8]? = row[x / 8]? := List.getElem?_take_of_lt hcolumn
  rw [pixelRow]
  cases hcode : row[x / 8]? with
  | some code =>
    rw [hcode, List.getElem?_eq_some_iff] at hshown
    obtain ⟨hlt, -⟩ := hshown
    rw [List.getElem?_append_left (by omega), getElem?_flatMap_of_length (fun _ _ => length_bits _) (by decide),
      List.getElem?_take_of_lt hcolumn, hcode, Option.bind_some, getElem?_bits _ (Nat.mod_lt x (by decide)),
      testBit_cellBits]
    rfl
  | none =>
    rw [hcode, List.getElem?_eq_none_iff] at hshown
    rw [List.getElem?_append_right (by omega), List.getElem?_replicate_of_lt]
    · rfl
    · rw [hlength, cellSize]
      rw [screenWidth, Display.columnCount, cellSize] at hx
      rw [Display.columnCount] at hshown ⊢
      omega

theorem length_shownRows (display : List UInt8) : (shownRows display).length = Display.rowCount := by
  rw [shownRows]
  simp only [List.length_append, List.length_take, List.length_replicate]
  omega

/-- A row of the screen is that of the display file, and empty where there is none. -/
theorem getElem?_shownRows (display : List UInt8) {row : Nat} (h : row < Display.rowCount) :
    (shownRows display)[row]? = some ((Display.splitRows (body display))[row]?.getD []) := by
  have hbody : (if display.head? == some Token.lineEnd then display.tail else display) = body display := by
    simp only [body, beq_iff_eq]
  rw [shownRows, hbody]
  have hshown : ((Display.splitRows (body display)).take Display.rowCount)[row]? =
      (Display.splitRows (body display))[row]? := List.getElem?_take_of_lt h
  cases hrow : (Display.splitRows (body display))[row]? with
  | some line =>
    rw [hrow, List.getElem?_eq_some_iff] at hshown
    obtain ⟨hlt, hline⟩ := hshown
    rw [List.getElem?_append_left hlt, List.getElem?_eq_getElem hlt, hline]
    rfl
  | none =>
    rw [hrow, List.getElem?_eq_none_iff] at hshown
    rw [List.getElem?_append_right hshown, List.getElem?_replicate_of_lt (by omega)]
    rfl

/-- **Screen.** The picture of a display file has ink where its characters have it. -/
theorem pixel?_screen (display : List UInt8) {x y : Nat} (hx : x < screenWidth) (hy : y < screenHeight) :
    (screen display).pixel? x y = some (inkAt display x y) := by
  have hrow : y / 8 < Display.rowCount := by
    rw [screenHeight, cellSize] at hy
    omega
  rw [pixel?, screen, getElem?_flatMap_of_length (fun _ _ => length_pixelRows _) (by decide),
    getElem?_shownRows display hrow, Option.bind_some, inkAt, codeAt?]
  have hpixels : (pixelRows ((Display.splitRows (body display))[y / 8]?.getD []))[y % 8]? =
      some (pixelRow ((Display.splitRows (body display))[y / 8]?.getD []) (y % 8)) := by
    have := Nat.mod_lt y (show 0 < 8 by decide)
    simp [pixelRows, cellSize, this]
  rw [hpixels, Option.bind_some, getElem?_pixelRow _ hx]
  cases (Display.splitRows (body display))[y / 8]? with
  | none => rfl
  | some row =>
    rw [Option.getD_some, Option.bind_some]
    cases row[x / 8]? <;> rfl

theorem length_screen (display : List UInt8) :
    (screen display).rows.length = screenHeight ∧
      ∀ row ∈ (screen display).rows, row.length = (screen display).width := by
  constructor
  · rw [screen, length_flatMap_of_length (fun _ _ => length_pixelRows _), length_shownRows]
    rfl
  · intro row hrow
    obtain ⟨line, -, hpixels⟩ := List.mem_flatMap.mp hrow
    obtain ⟨y, -, rfl⟩ := List.mem_map.mp hpixels
    exact length_pixelRow line y

/-! ## The picture of a display file -/

/-- **Size.** At every scale, a picture is as wide and as high as the screen at this scale. -/
theorem length_ofDisplay (display : List UInt8) (scale : Nat) :
    (ofDisplay display scale).width = 256 * scale ∧ (ofDisplay display scale).rows.length = 192 * scale ∧
      ∀ row ∈ (ofDisplay display scale).rows, row.length = 256 * scale := by
  obtain ⟨hheight, hwidth⟩ := length_screen display
  refine ⟨rfl, ?_, length_row_scaled hwidth scale⟩
  rw [ofDisplay, length_rows_scaled, hheight]
  rfl

/-- **Pixels.** At every scale, a picture has ink where the screen has it. -/
theorem pixel?_ofDisplay (display : List UInt8) {scale : Nat} (hscale : 1 ≤ scale) {x y : Nat}
    (hx : x < 256 * scale) (hy : y < 192 * scale) :
    (ofDisplay display scale).pixel? x y = some (inkAt display (x / scale) (y / scale)) := by
  rw [ofDisplay, pixel?_scaled hscale]
  exact pixel?_screen display (Nat.div_lt_of_lt_mul (by rwa [Nat.mul_comm]))
    (Nat.div_lt_of_lt_mul (by rwa [Nat.mul_comm]))

end Picture

end TapeBasic
