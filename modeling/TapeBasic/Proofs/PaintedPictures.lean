import TapeBasic.Proofs.PixelGrid
import TapeBasic.Session.Sheet

/-!
# Painting a picture

A picture can be painted pixel by pixel on a sheet that is one long row of pixels: the characters of a display file
first, at the scale one, and then every pixel of ink as a square on a larger sheet. Each place is computed, and a place
that is not on the sheet spoils the painting. On the sheets of an image library the squares are painted alike.

* `Picture.Paints fits inked step places`: on every sheet that fits, the step can be done, and it inks these places.
* `Picture.Stroke`, `Picture.Inks`: steps on a sheet that is a row of pixels, and what they ink.
* `Picture.paint display scale`: the painting of a display file at a scale.
* `Painter.Lawful painter size pixel`: the pixels that are put on the sheets of an image library are stored.

Results:
* `Picture.Paints.each`: what a row of steps inks.
* `Picture.inks_characters`, `Picture.inks_enlarged`: what the two parts of the painting ink.
* `Picture.paint_eq`: no place is off its sheet, and the painting is the picture.
* `Picture.paints_rows`: what is inked on the sheet of an image library.
* `Picture.painted_pointwise`: the picture of a display file, its size, its pixels, and how it is painted.
-/
namespace TapeBasic.Picture

/-! ## Steps -/

/-- On every sheet that fits, the step can be done, and the sheet fits again; the step inks these places and leaves the
others as they are. -/
def Paints {m : Type → Type} [Monad m] {γ ι : Type} (fits : γ → Prop) (inked : γ → ι → Prop)
    (step : γ → m γ)
    (places : ι → Prop) : Prop :=
  ∀ sheet, fits sheet → ∃ painted, step sheet = pure painted ∧ fits painted ∧
    ∀ i, inked painted i ↔ places i ∨ inked sheet i

section Steps

variable {m : Type → Type} [Monad m] {γ ι α : Type} {fits : γ → Prop} {inked : γ → ι → Prop}

theorem paints_nothing : Paints (m := m) fits inked pure (fun _ => False) := by
  intro sheet hfits
  exact ⟨sheet, rfl, hfits, by simp⟩

theorem Paints.congr {step : γ → m γ} {places others : ι → Prop} (h : Paints fits inked step places)
    (hplaces : ∀ i, places i ↔ others i) : Paints fits inked step others := by
  rwa [show others = places from funext fun i => propext (hplaces i).symm]

/-- **Steps.** A row of steps inks what one of them inks. -/
theorem Paints.each [LawfulMonad m] {list : List α} {step : α → γ → m γ} {places : α → ι → Prop}
    (h : ∀ a ∈ list, Paints fits inked (step a) (places a)) :
    Paints fits inked (each list step) fun i => ∃ a ∈ list, places a i := by
  induction list with
  | nil =>
    intro sheet hfits
    exact ⟨sheet, rfl, hfits, by simp⟩
  | cons a list ih =>
    intro sheet hfits
    obtain ⟨first, hfirst, hfirstFits, hinked⟩ := h a List.mem_cons_self sheet hfits
    obtain ⟨painted, hpainted, hpaintedFits, hrest⟩ :=
      ih (fun b hb => h b (List.mem_cons_of_mem _ hb)) first hfirstFits
    refine ⟨painted, ?_, hpaintedFits, fun i => ?_⟩
    · rw [Picture.each, List.foldlM_cons, hfirst, pure_bind]
      exact hpainted
    · rw [hrest i, hinked i]
      simp only [List.mem_cons, exists_eq_or_imp]
      rw [or_left_comm, or_assoc]

end Steps

/-! ## Strokes -/

/-- What is done to a sheet that is a row of pixels; `none` if a place is not on the sheet. -/
abbrev Stroke := List Bool → Option (List Bool)

/-- Inks one place. -/
def ink (place : Nat) : Stroke := fun pixels =>
  if place < pixels.length then some (pixels.set place true) else none

/-- On every sheet of `n` pixels the stroke inks these places and leaves the others as they are. -/
abbrev Inks (n : Nat) (stroke : Stroke) (places : Nat → Prop) : Prop :=
  Paints (fun pixels : List Bool => pixels.length = n) (fun pixels i => pixels[i]? = some true) stroke places

section Strokes

variable {n : Nat}

theorem inks_ink {place : Nat} (h : place < n) : Inks n (ink place) (· = place) := by
  intro pixels hlength
  have hplace : place < pixels.length := hlength.symm ▸ h
  refine ⟨pixels.set place true, if_pos hplace, (List.length_set ..).trans hlength, fun i => ?_⟩
  change (pixels.set place true)[i]? = some true ↔ i = place ∨ pixels[i]? = some true
  rw [List.getElem?_set]
  by_cases hi : place = i
  · subst hi
    simp [hplace]
  · simp [hi, Ne.symm hi]

/-- On a blank sheet, just the places of the stroke are inked. -/
theorem Inks.blank {stroke : Stroke} {places : Nat → Prop} (h : Inks n stroke places) :
    ∃ painted, stroke (List.replicate n false) = some painted ∧ painted.length = n ∧
      ∀ i, painted[i]? = some true ↔ places i := by
  obtain ⟨painted, hpainted, hlength, hinked⟩ := h _ List.length_replicate
  refine ⟨painted, hpainted, hlength, fun i => (hinked i).trans ?_⟩
  simp [List.getElem?_replicate]

end Strokes

/-! ## The characters -/

/-- One row of pixels of a character, read from the table of glyphs where it has one. -/
def readCellBits (code : UInt8) (y : Nat) : Option UInt8 := do
  let glyph := (code &&& 0x7F).toNat * cellSize
  let shape ← if glyph < glyphs.size then glyphs[glyph + y]? else some 0
  return if code &&& 0x80 == 0 then shape else shape ^^^ 0xFF

/-- Paints a row of pixels of a character at a place of the screen. -/
def characterRow (row column : Nat) (code : UInt8) (y : Nat) : Stroke := fun pixels => do
  let bits ← readCellBits code y
  each (List.range 8)
    (fun x => if bits.toNat.testBit (7 - x) then ink ((row * 8 + y) * 256 + column * 8 + x) else some) pixels

/-- Paints a character at a place of the screen. -/
def character (row column : Nat) (code : UInt8) : Stroke := each (List.range 8) (characterRow row column code)

/-- Paints the characters of a display file that are on the screen. -/
def characters (display : List UInt8) : Stroke :=
  each ((Display.splitRows (body display)).take Display.rowCount).zipIdx fun line =>
    each (line.1.take Display.columnCount).zipIdx fun cell => character line.2 cell.2 cell.1

/-- The table of glyphs is only read where it has an entry. -/
theorem readCellBits_eq (code : UInt8) {y : Nat} (hy : y < 8) : readCellBits code y = some (cellBits code y) := by
  have hcells : (code &&& 0x7F).toNat * cellSize % 8 = 0 := Nat.mul_mod_left _ _
  have hsize := size_glyphs
  rw [readCellBits, cellBits]
  generalize (code &&& 0x7F).toNat * cellSize = glyph at *
  by_cases hglyph : glyph < glyphs.size
  · have hlt : glyph + y < glyphs.size := by omega
    simp [hglyph, Array.getElem?_eq_getElem hlt]
  · have hge : glyphs.size ≤ glyph + y := by omega
    simp [hglyph, Array.getElem?_eq_none hge]

theorem inkOf_congr (code : UInt8) {x x' y y' : Nat} (hx : x % 8 = x' % 8) (hy : y % 8 = y' % 8) :
    inkOf code x y = inkOf code x' y' := by
  rw [inkOf, inkOf, glyphRow, glyphRow]
  simp only [hx, hy]

section Characters

variable {row column : Nat} (hrow : row < 24) (hcolumn : column < 32)

include hrow hcolumn

theorem inks_characterRow (code : UInt8) {y : Nat} (hy : y < 8) :
    Inks (256 * 192) (characterRow row column code y) fun i =>
      ∃ x ∈ List.range 8, inkOf code x y = true ∧ i = (row * 8 + y) * 256 + column * 8 + x := by
  have hstroke : characterRow row column code y = each (List.range 8) fun x =>
      if (cellBits code y).toNat.testBit (7 - x) then ink ((row * 8 + y) * 256 + column * 8 + x) else some := by
    funext pixels
    rw [characterRow, readCellBits_eq code hy]
    rfl
  rw [hstroke]
  refine Paints.each fun x hx => ?_
  rw [List.mem_range] at hx
  have hbit := testBit_cellBits code x y
  rw [Nat.mod_eq_of_lt hx, Nat.mod_eq_of_lt hy] at hbit
  rw [hbit]
  cases inkOf code x y with
  | true => exact (inks_ink (by omega)).congr fun i => by simp
  | false => exact paints_nothing.congr fun i => by simp

/-- A character inks the places of its ink. -/
theorem inks_character (code : UInt8) :
    Inks (256 * 192) (character row column code) fun i =>
      row = i / 256 / 8 ∧ column = i % 256 / 8 ∧ inkOf code (i % 256) (i / 256) = true := by
  refine (Paints.each fun y hy => inks_characterRow hrow hcolumn code (List.mem_range.mp hy)).congr fun i => ?_
  simp only [List.mem_range]
  constructor
  · rintro ⟨y, hy, x, hx, hinked, hi⟩
    have hx' : i % 256 % 8 = x % 8 := by omega
    have hy' : i / 256 % 8 = y % 8 := by omega
    refine ⟨by omega, by omega, ?_⟩
    rwa [inkOf_congr code hx' hy']
  · rintro ⟨hrow, hcolumn, hinked⟩
    refine ⟨i / 256 % 8, by omega, i % 256 % 8, by omega, ?_, by omega⟩
    rwa [inkOf_congr code (Nat.mod_mod _ _) (Nat.mod_mod _ _)]

end Characters

theorem inkAt_eq_true_iff {display : List UInt8} {x y : Nat} : inkAt display x y = true ↔
    ∃ row code, (Display.splitRows (body display))[y / 8]? = some row ∧ row[x / 8]? = some code ∧
      inkOf code x y = true := by
  rw [inkAt, codeAt?]
  cases (Display.splitRows (body display))[y / 8]? with
  | none => simp
  | some row =>
    rw [Option.bind_some]
    cases hcode : row[x / 8]? with
    | none => simp [hcode]
    | some code => simp [hcode]

/-- The elements of a list up to a limit, with their places. -/
theorem mem_zipIdx_take {α : Type} {list : List α} {limit : Nat} {a : α × Nat} :
    a ∈ (list.take limit).zipIdx ↔ list[a.2]? = some a.1 ∧ a.2 < limit := by
  rw [List.mem_zipIdx_iff_getElem?, List.getElem?_take]
  split <;> simp [*]

/-- **Characters.** They ink the places of the screen that are ink. -/
theorem inks_characters (display : List UInt8) :
    Inks (256 * 192) (characters display) fun i =>
      i < 256 * 192 ∧ inkAt display (i % 256) (i / 256) = true := by
  have hlines : ∀ line ∈ ((Display.splitRows (body display)).take Display.rowCount).zipIdx,
      Inks (256 * 192)
        (each (line.1.take Display.columnCount).zipIdx fun cell => character line.2 cell.2 cell.1)
        fun i => ∃ cell ∈ (line.1.take Display.columnCount).zipIdx,
          line.2 = i / 256 / 8 ∧ cell.2 = i % 256 / 8 ∧ inkOf cell.1 (i % 256) (i / 256) = true := by
    intro line hline
    exact Paints.each fun cell hcell =>
      inks_character (mem_zipIdx_take.mp hline).2 (mem_zipIdx_take.mp hcell).2 cell.1
  refine (Paints.each hlines).congr fun i => ?_
  simp only [mem_zipIdx_take, inkAt_eq_true_iff, Display.rowCount, Display.columnCount]
  constructor
  · rintro ⟨⟨line, row⟩, ⟨hline, hrow⟩, ⟨code, column⟩, ⟨hcode, hcolumn⟩, rfl, rfl, hinked⟩
    exact ⟨by omega, line, code, hline, hcode, hinked⟩
  · rintro ⟨hi, line, code, hline, hcode, hinked⟩
    exact ⟨⟨line, _⟩, ⟨hline, by omega⟩, ⟨code, _⟩, ⟨hcode, by omega⟩, rfl, rfl, hinked⟩

/-! ## The larger sheet -/

/-- Inks the pixel at a place of a sheet of this size. -/
def inkAtPlace (width height x y : Nat) : Stroke :=
  if x < width ∧ y < height then ink (y * width + x) else fun _ => none

/-- Paints a pixel of ink of the screen as a square. -/
def square (scale x y : Nat) : Stroke :=
  each (List.range scale) fun dy => each (List.range scale) fun dx =>
    inkAtPlace (256 * scale) (192 * scale) (x * scale + dx) (y * scale + dy)

/-- Paints a pixel of the screen. -/
def enlargedPixel (screen : List Bool) (scale x y : Nat) : Stroke := fun pixels => do
  let inked ← screen[y * 256 + x]?
  if inked then square scale x y pixels else some pixels

/-- Paints the pixels of the screen. -/
def enlarged (screen : List Bool) (scale : Nat) : Stroke :=
  each (List.range 192) fun y => each (List.range 256) fun x => enlargedPixel screen scale x y

/-- A place on a sheet leads to one row and one place in it. -/
theorem place_iff {width x y i : Nat} (hx : x < width) : i = y * width + x ↔ i % width = x ∧ i / width = y := by
  have hpos : 0 < width := Nat.lt_of_le_of_lt (Nat.zero_le x) hx
  rw [and_comm, Nat.div_mod_unique hpos, Nat.mul_comm width y, Nat.add_comm x, eq_comm]
  exact (and_iff_left hx).symm

theorem place_lt {width height x y : Nat} (hx : x < width) (hy : y < height) : y * width + x < width * height := by
  have hrows : (y + 1) * width ≤ height * width := Nat.mul_le_mul_right width hy
  rw [Nat.succ_mul] at hrows
  rw [Nat.mul_comm width height]
  omega

theorem inks_inkAtPlace {width height x y : Nat} (hx : x < width) (hy : y < height) :
    Inks (width * height) (inkAtPlace width height x y) fun i => i % width = x ∧ i / width = y := by
  rw [inkAtPlace, if_pos ⟨hx, hy⟩]
  exact (inks_ink (place_lt hx hy)).congr fun i => place_iff hx

section Scale

variable {scale : Nat} (hscale : 1 ≤ scale)

include hscale

/-- A square inks the places that a pixel of the screen is shown at. -/
theorem inks_square {x y : Nat} (hx : x < 256) (hy : y < 192) :
    Inks (256 * scale * (192 * scale)) (square scale x y) fun i =>
      i % (256 * scale) / scale = x ∧ i / (256 * scale) / scale = y := by
  have hinside : ∀ {z limit d : Nat}, z < limit → d < scale → z * scale + d < limit * scale := by
    intro z limit d hz hd
    rw [Nat.mul_comm limit]
    exact place_lt hd hz
  have hplaces : ∀ dy ∈ List.range scale, Inks (256 * scale * (192 * scale))
      (each (List.range scale) fun dx => inkAtPlace (256 * scale) (192 * scale) (x * scale + dx) (y * scale + dy))
      fun i => ∃ dx ∈ List.range scale,
        i % (256 * scale) = x * scale + dx ∧ i / (256 * scale) = y * scale + dy := fun dy hdy =>
    Paints.each fun dx hdx =>
      inks_inkAtPlace (hinside hx (List.mem_range.mp hdx)) (hinside hy (List.mem_range.mp hdy))
  refine (Paints.each hplaces).congr fun i => ?_
  simp only [List.mem_range]
  constructor
  · rintro ⟨dy, hdy, dx, hdx, hcolumn, hrow⟩
    exact ⟨((place_iff hdx).mp hcolumn).2, ((place_iff hdy).mp hrow).2⟩
  · rintro ⟨hcolumn, hrow⟩
    have hmod : ∀ n, n % scale < scale := fun n => Nat.mod_lt n hscale
    exact ⟨_, hmod _, _, hmod _, (place_iff (hmod _)).mpr ⟨rfl, hcolumn⟩, (place_iff (hmod _)).mpr
      ⟨rfl, hrow⟩⟩

/-- **Squares.** The larger sheet is inked where it shows a pixel of ink. -/
theorem inks_enlarged {screen : List Bool} (hscreen : screen.length = 256 * 192) :
    Inks (256 * scale * (192 * scale)) (enlarged screen scale) fun i =>
      i < 256 * scale * (192 * scale) ∧
        screen[i / (256 * scale) / scale * 256 + i % (256 * scale) / scale]? = some true := by
  have hpixels : ∀ y ∈ List.range 192, ∀ x ∈ List.range 256, Inks (256 * scale * (192 * scale))
      (enlargedPixel screen scale x y) fun i => screen[y * 256 + x]? = some true ∧
        i % (256 * scale) / scale = x ∧ i / (256 * scale) / scale = y := by
    intro y hy x hx
    rw [List.mem_range] at hx hy
    have hplace : y * 256 + x < screen.length := by omega
    have hstroke : enlargedPixel screen scale x y = if screen[y * 256 + x] then square scale x y else some := by
      funext pixels
      rw [enlargedPixel, List.getElem?_eq_getElem hplace]
      cases screen[y * 256 + x] <;> rfl
    rw [hstroke, List.getElem?_eq_getElem hplace]
    cases screen[y * 256 + x] with
    | true => exact (inks_square hscale hx hy).congr fun i => by simp
    | false => exact paints_nothing.congr fun i => by simp
  refine (Paints.each fun y hy => Paints.each fun x hx => hpixels y hy x hx).congr fun i => ?_
  simp only [List.mem_range]
  have hwidth : 0 < 256 * scale := Nat.mul_pos (by decide) hscale
  constructor
  · rintro ⟨y, hy, x, hx, hinked, rfl, rfl⟩
    refine ⟨?_, hinked⟩
    have hrow : i / (256 * scale) < 192 * scale := (Nat.div_lt_iff_lt_mul hscale).mp hy
    rw [Nat.mul_comm]
    exact (Nat.div_lt_iff_lt_mul hwidth).mp hrow
  · rintro ⟨hi, hinked⟩
    refine ⟨_, ?_, _, ?_, hinked, rfl, rfl⟩
    · rw [Nat.div_lt_iff_lt_mul hscale, Nat.div_lt_iff_lt_mul hwidth, Nat.mul_comm]
      exact hi
    · rw [Nat.div_lt_iff_lt_mul hscale]
      exact Nat.mod_lt i hwidth

end Scale

/-! ## The painting -/

/-- Paints a display file at a scale. -/
def paint (display : List UInt8) (scale : Nat) : Option (List Bool) := do
  let screen ← characters display (List.replicate (256 * 192) false)
  enlarged screen scale (List.replicate (256 * scale * (192 * scale)) false)

/-- The rows of a picture one after the other hold its pixels. -/
theorem getElem?_flatten_rows {p : Picture} (h : ∀ row ∈ p.rows, row.length = p.width) (hwidth : 0 < p.width)
    (i : Nat) : p.rows.flatten[i]? = p.pixel? (i % p.width) (i / p.width) := by
  rw [← List.flatMap_id', getElem?_flatMap_of_length h hwidth]
  rfl

/-- **Painting.** No place is off its sheet, and the painting is the picture. -/
theorem paint_eq (display : List UInt8) {scale : Nat} (hscale : 1 ≤ scale) :
    paint display scale = some (ofDisplay display scale).rows.flatten := by
  obtain ⟨screen, hscreen, hscreenLength, hscreenInked⟩ := (inks_characters display).blank
  obtain ⟨painted, hpainted, hlength, hinked⟩ := (inks_enlarged hscale hscreenLength).blank
  obtain ⟨hwidth, hheight, hrows⟩ := length_ofDisplay display scale
  have hpos : 0 < 256 * scale := Nat.mul_pos (by decide) hscale
  rw [paint, hscreen, Option.bind_eq_bind, Option.bind_some, hpainted]
  refine congrArg some (List.ext_getElem? fun i => ?_)
  rw [getElem?_flatten_rows hrows (by rw [hwidth]; exact hpos), hwidth]
  by_cases hi : i < 256 * scale * (192 * scale)
  · have hx : i % (256 * scale) < 256 * scale := Nat.mod_lt i hpos
    have hy : i / (256 * scale) < 192 * scale := Nat.div_lt_of_lt_mul hi
    rw [pixel?_ofDisplay display hscale hx hy, List.getElem?_eq_getElem (by omega), Option.some.injEq,
      Bool.eq_iff_iff]
    have hplace := hinked i
    rw [List.getElem?_eq_getElem (by omega), Option.some.injEq] at hplace
    rw [hplace, hscreenInked]
    have hcolumn : i % (256 * scale) / scale < 256 := (Nat.div_lt_iff_lt_mul hscale).mpr hx
    have hrow : i / (256 * scale) / scale < 192 := (Nat.div_lt_iff_lt_mul hscale).mpr hy
    generalize i % (256 * scale) / scale = x at *
    generalize i / (256 * scale) / scale = y at *
    obtain ⟨hmod, hdiv⟩ := (place_iff hcolumn).mp (rfl : y * 256 + x = y * 256 + x)
    rw [hmod, hdiv]
    exact ⟨fun h => h.2.2, fun h => ⟨hi, by omega, h⟩⟩
  · rw [List.getElem?_eq_none (by omega), eq_comm, pixel?, List.getElem?_eq_none]
    · rfl
    · rw [hheight, Nat.le_div_iff_mul_le hpos, Nat.mul_comm]
      omega

end Picture

/-! ## Image libraries -/

/-- An image library stores the pixels that are put on its sheets: `size` is the width and the height of a sheet, and
`pixel` the shade of its pixels. -/
structure Painter.Lawful {γ : Type} (painter : Painter γ) (size : γ → Nat × Nat)
    (pixel : γ → Nat → Nat → UInt8) :
    Prop where
  /-- A new sheet has its size, and every pixel has its shade. -/
  create : ∀ {width height : Nat} {shade : UInt8} {sheet : γ}, painter.create width height shade = .ok sheet →
    size sheet = (width, height) ∧ ∀ x y, x < width → y < height → pixel sheet x y = shade
  /-- A pixel that is on a sheet gets its shade, and no other one changes. -/
  put : ∀ {sheet : γ} {x y : Nat} (shade : UInt8), x < (size sheet).1 → y < (size sheet).2 →
    ∃ painted, painter.put sheet x y shade = .ok painted ∧ size painted = size sheet ∧
      ∀ x' y', x' < (size sheet).1 → y' < (size sheet).2 →
        pixel painted x' y' = if x' = x ∧ y' = y then shade else pixel sheet x' y'

namespace Picture

section Library

variable {γ : Type} {painter : Painter γ} {size : γ → Nat × Nat} {pixel : γ → Nat → Nat → UInt8}
  (h : painter.Lawful size pixel)

/-- A sheet of a size on which every pixel is ink or paper. -/
def Fits (size : γ → Nat × Nat) (pixel : γ → Nat → Nat → UInt8) (width height : Nat) (sheet : γ) : Prop :=
  size sheet = (width, height) ∧
    ∀ x y, x < width → y < height → pixel sheet x y = inkShade ∨ pixel sheet x y = paperShade

/-- The places of a sheet that are ink. -/
def Inked (size : γ → Nat × Nat) (pixel : γ → Nat → Nat → UInt8) (sheet : γ) (place : Nat × Nat) : Prop :=
  place.1 < (size sheet).1 ∧ place.2 < (size sheet).2 ∧ pixel sheet place.1 place.2 = inkShade

include h

theorem paints_put {width height x y : Nat} (hx : x < width) (hy : y < height) :
    Paints (Fits size pixel width height) (Inked size pixel) (painter.put · x y inkShade) (· = (x, y)) := by
  rintro sheet ⟨hsize, hshades⟩
  have hxSize : x < (size sheet).1 := by rw [hsize]; exact hx
  have hySize : y < (size sheet).2 := by rw [hsize]; exact hy
  obtain ⟨painted, hput, hpaintedSize, hpixel⟩ := h.put inkShade hxSize hySize
  rw [hsize] at hpaintedSize hpixel
  refine ⟨painted, hput, ⟨hpaintedSize, fun x' y' hx' hy' => ?_⟩, fun ⟨x', y'⟩ => ?_⟩
  · rw [hpixel x' y' hx' hy']
    split
    · exact .inl rfl
    · exact hshades x' y' hx' hy'
  · simp only [Inked, hpaintedSize, hsize, Prod.mk.injEq]
    constructor
    · rintro ⟨hx', hy', hinked⟩
      rw [hpixel x' y' hx' hy'] at hinked
      split at hinked
      · next hplace => exact .inl hplace
      · exact .inr ⟨hx', hy', hinked⟩
    · rintro (⟨rfl, rfl⟩ | ⟨hx', hy', hinked⟩)
      · exact ⟨hx, hy, (hpixel x' y' hx hy).trans (if_pos ⟨rfl, rfl⟩)⟩
      · refine ⟨hx', hy', ?_⟩
        rw [hpixel x' y' hx' hy']
        split
        · rfl
        · exact hinked

theorem paints_square {scale : Nat} {x y : Nat} (hx : x < 256) (hy : y < 192) :
    Paints (Fits size pixel (256 * scale) (192 * scale)) (Inked size pixel) (paintSquare painter scale x y)
      fun place => place.1 / scale = x ∧ place.2 / scale = y ∧ 0 < scale := by
  have hinside : ∀ {z limit d : Nat}, z < limit → d < scale → z * scale + d < limit * scale := by
    intro z limit d hz hd
    rw [Nat.mul_comm limit]
    exact place_lt hd hz
  refine (Paints.each fun dy hdy => Paints.each fun dx hdx => paints_put h
    (hinside hx (List.mem_range.mp hdx)) (hinside hy (List.mem_range.mp hdy))).congr fun ⟨x', y'⟩ => ?_
  simp only [List.mem_range, Prod.mk.injEq]
  constructor
  · rintro ⟨dy, hdy, dx, hdx, hcolumn, hrow⟩
    exact ⟨((place_iff hdx).mp hcolumn).2, ((place_iff hdy).mp hrow).2, Nat.lt_of_le_of_lt (Nat.zero_le _) hdx⟩
  · rintro ⟨hcolumn, hrow, hscale⟩
    have hmod : ∀ n, n % scale < scale := fun n => Nat.mod_lt n hscale
    exact ⟨_, hmod _, _, hmod _, (place_iff (hmod _)).mpr ⟨rfl, hcolumn⟩, (place_iff (hmod _)).mpr
      ⟨rfl, hrow⟩⟩

/-- **Sheets.** The sheet of an image library is inked where it shows a pixel of ink. -/
theorem paints_rows {scale : Nat} (hscale : 1 ≤ scale) {p : Picture} (hheight : p.rows.length = 192)
    (hwidth : ∀ row ∈ p.rows, row.length = 256) :
    Paints (Fits size pixel (256 * scale) (192 * scale)) (Inked size pixel) (paintRows painter scale p.rows)
      fun place => p.pixel? (place.1 / scale) (place.2 / scale) = some true := by
  have hpixels : ∀ row ∈ p.rows.zipIdx, ∀ cell ∈ row.1.zipIdx,
      Paints (Fits size pixel (256 * scale) (192 * scale)) (Inked size pixel)
        (if cell.1 then paintSquare painter scale cell.2 row.2 else pure)
        fun place => cell.1 = true ∧ place.1 / scale = cell.2 ∧ place.2 / scale = row.2 := by
    rintro ⟨row, y⟩ hrow ⟨inked, x⟩ hcell
    rw [List.mem_zipIdx_iff_getElem?] at hrow hcell
    have hy : y < 192 := hheight ▸ (List.getElem?_eq_some_iff.mp hrow).1
    have hx : x < 256 := hwidth row (List.mem_of_getElem? hrow) ▸ (List.getElem?_eq_some_iff.mp hcell).1
    cases inked with
    | true => exact (paints_square h hx hy).congr fun place => by simp [show 0 < scale from hscale]
    | false => exact paints_nothing.congr fun place => by simp
  refine (Paints.each fun row hrow => Paints.each fun cell hcell => hpixels row hrow cell hcell).congr fun place => ?_
  simp only [List.mem_zipIdx_iff_getElem?, pixel?, Option.bind_eq_some_iff]
  constructor
  · rintro ⟨⟨row, y⟩, hrow, ⟨inked, x⟩, hcell, rfl, rfl, rfl⟩
    exact ⟨row, hrow, hcell⟩
  · rintro ⟨row, hrow, hcell⟩
    exact ⟨(row, _), hrow, (true, _), hcell, rfl, rfl, rfl⟩

/-- What is saved is a sheet that shows the picture. -/
theorem render_eq (display : List UInt8) {scale : Nat} (hscale : 1 ≤ scale) {blank : γ}
    (hblank : painter.create (256 * scale : Nat) (192 * scale : Nat) paperShade = .ok blank) :
    ∃ sheet, size sheet = (256 * scale, 192 * scale) ∧
      (∀ x y, x < 256 * scale → y < 192 * scale →
        pixel sheet x y = if inkAt display (x / scale) (y / scale) then inkShade else paperShade) ∧
      render painter display scale = painter.save sheet := by
  obtain ⟨hsize, hpaper⟩ := h.create hblank
  obtain ⟨hheight, hwidth⟩ := length_screen display
  obtain ⟨sheet, hpainted, ⟨hsheetSize, hshades⟩, hinked⟩ := paints_rows h hscale hheight hwidth blank
    ⟨hsize, fun x y hx hy => .inr (hpaper x y hx hy)⟩
  refine ⟨sheet, hsheetSize, fun x y hx hy => ?_, ?_⟩
  · have hcolumn : x / scale < 256 := (Nat.div_lt_iff_lt_mul hscale).mpr hx
    have hrow : y / scale < 192 := (Nat.div_lt_iff_lt_mul hscale).mpr hy
    have hiff : pixel sheet x y = inkShade ↔ inkAt display (x / scale) (y / scale) = true := by
      have hplace := hinked (x, y)
      simp only [Inked, hsheetSize, hsize, hx, hy, true_and, hpaper x y hx hy, pixel?_screen display hcolumn hrow,
        Option.some.injEq] at hplace
      rw [hplace]
      exact or_iff_left (by decide)
    split
    · next hink => exact hiff.mpr hink
    · next hpaperAt => exact (hshades x y hx hy).resolve_left fun hink => hpaperAt (hiff.mp hink)
  · have hwide : (screenWidth : Int) * (scale : Int) = ((256 * scale : Nat) : Int) := rfl
    have hhigh : (screenHeight : Int) * (scale : Int) = ((192 * scale : Nat) : Int) := rfl
    rw [render, hwide, hhigh, hblank, Int.toNat_natCast]
    change paintRows painter scale (screen display).rows blank >>= painter.save = _
    rw [hpainted]
    rfl

end Library

/-- **Pictures.** At every scale, the picture of a display file is as wide and as high as the screen at this scale; its
pixels are ink where the characters of the display file have ink; painting it stays on the sheets; and on an image
library that stores pixels and makes a sheet of the size, what is saved is a sheet of this size whose pixels are black
where the picture has ink, and white elsewhere. -/
theorem painted_pointwise (display : List UInt8) {scale : Nat} (hscale : 1 ≤ scale) :
    ((ofDisplay display scale).width = 256 * scale ∧ (ofDisplay display scale).rows.length = 192 * scale ∧
        ∀ row ∈ (ofDisplay display scale).rows, row.length = 256 * scale) ∧
      (∀ x y, x < 256 * scale → y < 192 * scale →
        (ofDisplay display scale).pixel? x y = some (inkAt display (x / scale) (y / scale))) ∧
      paint display scale = some (ofDisplay display scale).rows.flatten ∧
      ∀ {γ : Type} {painter : Painter γ} {size : γ → Nat × Nat} {pixel : γ → Nat → Nat → UInt8}
        {blank : γ},
        painter.Lawful size pixel →
        painter.create (256 * scale : Nat) (192 * scale : Nat) paperShade = .ok blank →
        ∃ sheet, size sheet = (256 * scale, 192 * scale) ∧
          (∀ x y, x < 256 * scale → y < 192 * scale →
            pixel sheet x y = if inkAt display (x / scale) (y / scale) then 0 else 255) ∧
          render painter display scale = painter.save sheet :=
  ⟨length_ofDisplay display scale, fun _ _ => pixel?_ofDisplay display hscale, paint_eq display hscale,
    fun h hblank => render_eq h display hscale hblank⟩

/-- Sheets of pixels store what is put on them. -/
theorem lawful_sheet : Sheet.painter.Lawful (fun sheet => (sheet.width, sheet.height)) Sheet.pixel where
  create := by
    intro width height shade sheet hsheet
    obtain rfl := Except.ok.inj hsheet
    refine ⟨rfl, fun x y hx hy => ?_⟩
    change (Array.replicate (width * height) shade)[y * width + x]?.getD 0 = shade
    rw [Array.getElem?_replicate, if_pos (place_lt hx hy), Option.getD_some]
  put := by
    rintro ⟨width, height, pixels, hsize⟩ x y shade hx hy
    refine ⟨_, if_pos ⟨hx, hy⟩, rfl, fun x' y' hx' hy' => ?_⟩
    change (pixels.setIfInBounds (y * width + x) shade)[y' * width + x']?.getD 0 =
      if x' = x ∧ y' = y then shade else pixels[y' * width + x']?.getD 0
    obtain ⟨hcolumn, hrow⟩ := (place_iff hx').mp (rfl : y' * width + x' = y' * width + x')
    have hplace : y * width + x = y' * width + x' ↔ x' = x ∧ y' = y := by
      rw [eq_comm, place_iff hx, hcolumn, hrow]
    rw [Array.getElem?_setIfInBounds, hsize]
    simp only [hplace, place_lt hx hy, if_true]
    split <;> rfl

/-- A display file with an inverse space in front of the letter A. -/
theorem painted_pointwise_sample :
    1 ≤ 2 ∧ (ofDisplay [0x76, 0x80, 0x26, 0x76] 2).pixel? 0 0 = some true ∧
      (ofDisplay [0x76, 0x80, 0x26, 0x76] 2).pixel? 18 5 = some true ∧
      (ofDisplay [0x76, 0x80, 0x26, 0x76] 2).pixel? 511 383 = some false ∧
      ∃ sheet : Sheet, (sheet.width, sheet.height) = (512, 384) ∧ sheet.pixel 0 0 = 0 ∧
        sheet.pixel 511 383 = 255 ∧
        render Sheet.painter [0x76, 0x80, 0x26, 0x76] 2 = Sheet.painter.save sheet := by
  have hscale : 1 ≤ 2 := by decide
  obtain ⟨-, hpixel, -, hrender⟩ := painted_pointwise [0x76, 0x80, 0x26, 0x76] hscale
  obtain ⟨sheet, hsize, hshade, hsaved⟩ := hrender lawful_sheet rfl
  refine ⟨hscale, ?_, ?_, ?_, sheet, hsize, ?_, ?_, hsaved⟩
  · rw [hpixel 0 0 (by decide) (by decide)]
    decide +kernel
  · rw [hpixel 18 5 (by decide) (by decide)]
    decide +kernel
  · rw [hpixel 511 383 (by decide) (by decide)]
    decide +kernel
  · rw [hshade 0 0 (by decide) (by decide)]
    decide +kernel
  · rw [hshade 511 383 (by decide) (by decide)]
    decide +kernel

end TapeBasic.Picture
