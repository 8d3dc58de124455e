import TapeBasic.Display

/-!
# Pictures of the screen (`screen_pixels`)

The screen shows 32 by 24 characters of 8 by 8 pixels. The low seven bits of a byte choose one of 64
glyphs, the top bit exchanges ink and paper; codes without a glyph are blank. A picture shows every
pixel of the screen as a square.

* `Picture.screen` is the picture of a display file at scale one.
* `Picture.scaled` enlarges a picture.
-/
namespace TapeBasic

/-- Rows of pixels from top to bottom, each from left to right; ink is `true`. -/
structure Picture where
  width : Nat
  rows : List (List Bool)
deriving DecidableEq, Repr

namespace Picture

/-- The glyphs of the machine, eight bytes each, one byte for each row of pixels (`ROM_CHARSET`). -/
def glyphs : Array UInt8 :=
  #[ 0x00, 0x00, 0x00, 0x00, 0x00, 0x00, 0x00, 0x00, 0xF0, 0xF0, 0xF0, 0xF0, 0x00, 0x00, 0x00, 0x00,
    0x0F, 0x0F, 0x0F, 0x0F, 0x00, 0x00, 0x00, 0x00, 0xFF, 0xFF, 0xFF, 0xFF, 0x00, 0x00, 0x00, 0x00,
    0x00, 0x00, 0x00, 0x00, 0xF0, 0xF0, 0xF0, 0xF0, 0xF0, 0xF0, 0xF0, 0xF0, 0xF0, 0xF0, 0xF0, 0xF0,
    0x0F, 0x0F, 0x0F, 0x0F, 0xF0, 0xF0, 0xF0, 0xF0, 0xFF, 0xFF, 0xFF, 0xFF, 0xF0, 0xF0, 0xF0, 0xF0,
    0xAA, 0x55, 0xAA, 0x55, 0xAA, 0x55, 0xAA, 0x55, 0x00, 0x00, 0x00, 0x00, 0xAA, 0x55, 0xAA, 0x55,
    0xAA, 0x55, 0xAA, 0x55, 0x00, 0x00, 0x00, 0x00, 0x00, 0x24, 0x24, 0x00, 0x00, 0x00, 0x00, 0x00,
    0x00, 0x1C, 0x22, 0x78, 0x20, 0x20, 0x7E, 0x00, 0x00, 0x08, 0x3E, 0x28, 0x3E, 0x0A, 0x3E, 0x08,
    0x00, 0x00, 0x00, 0x10, 0x00, 0x00, 0x10, 0x00, 0x00, 0x3C, 0x42, 0x04, 0x08, 0x00, 0x08, 0x00,
    0x00, 0x04, 0x08, 0x08, 0x08, 0x08, 0x04, 0x00, 0x00, 0x20, 0x10, 0x10, 0x10, 0x10, 0x20, 0x00,
    0x00, 0x00, 0x10, 0x08, 0x04, 0x08, 0x10, 0x00, 0x00, 0x00, 0x04, 0x08, 0x10, 0x08, 0x04, 0x00,
    0x00, 0x00, 0x00, 0x3E, 0x00, 0x3E, 0x00, 0x00, 0x00, 0x00, 0x08, 0x08, 0x3E, 0x08, 0x08, 0x00,
    0x00, 0x00, 0x00, 0x00, 0x3E, 0x00, 0x00, 0x00, 0x00, 0x00, 0x14, 0x08, 0x3E, 0x08, 0x14, 0x00,
    0x00, 0x00, 0x02, 0x04, 0x08, 0x10, 0x20, 0x00, 0x00, 0x00, 0x10, 0x00, 0x00, 0x10, 0x10, 0x20,
    0x00, 0x00, 0x00, 0x00, 0x00, 0x08, 0x08, 0x10, 0x00, 0x00, 0x00, 0x00, 0x00, 0x18, 0x18, 0x00,
    0x00, 0x3C, 0x46, 0x4A, 0x52, 0x62, 0x3C, 0x00, 0x00, 0x18, 0x28, 0x08, 0x08, 0x08, 0x3E, 0x00,
    0x00, 0x3C, 0x42, 0x02, 0x3C, 0x40, 0x7E, 0x00, 0x00, 0x3C, 0x42, 0x0C, 0x02, 0x42, 0x3C, 0x00,
    0x00, 0x08, 0x18, 0x28, 0x48, 0x7E, 0x08, 0x00, 0x00, 0x7E, 0x40, 0x7C, 0x02, 0x42, 0x3C, 0x00,
    0x00, 0x3C, 0x40, 0x7C, 0x42, 0x42, 0x3C, 0x00, 0x00, 0x7E, 0x02, 0x04, 0x08, 0x10, 0x10, 0x00,
    0x00, 0x3C, 0x42, 0x3C, 0x42, 0x42, 0x3C, 0x00, 0x00, 0x3C, 0x42, 0x42, 0x3E, 0x02, 0x3C, 0x00,
    0x00, 0x3C, 0x42, 0x42, 0x7E, 0x42, 0x42, 0x00, 0x00, 0x7C, 0x42, 0x7C, 0x42, 0x42, 0x7C, 0x00,
    0x00, 0x3C, 0x42, 0x40, 0x40, 0x42, 0x3C, 0x00, 0x00, 0x78, 0x44, 0x42, 0x42, 0x44, 0x78, 0x00,
    0x00, 0x7E, 0x40, 0x7C, 0x40, 0x40, 0x7E, 0x00, 0x00, 0x7E, 0x40, 0x7C, 0x40, 0x40, 0x40, 0x00,
    0x00, 0x3C, 0x42, 0x40, 0x4E, 0x42, 0x3C, 0x00, 0x00, 0x42, 0x42, 0x7E, 0x42, 0x42, 0x42, 0x00,
    0x00, 0x3E, 0x08, 0x08, 0x08, 0x08, 0x3E, 0x00, 0x00, 0x02, 0x02, 0x02, 0x42, 0x42, 0x3C, 0x00,
    0x00, 0x44, 0x48, 0x70, 0x48, 0x44, 0x42, 0x00, 0x00, 0x40, 0x40, 0x40, 0x40, 0x40, 0x7E, 0x00,
    0x00, 0x42, 0x66, 0x5A, 0x42, 0x42, 0x42, 0x00, 0x00, 0x42, 0x62, 0x52, 0x4A, 0x46, 0x42, 0x00,
    0x00, 0x3C, 0x42, 0x42, 0x42, 0x42, 0x3C, 0x00, 0x00, 0x7C, 0x42, 0x42, 0x7C, 0x40, 0x40, 0x00,
    0x00, 0x3C, 0x42, 0x42, 0x52, 0x4A, 0x3C, 0x00, 0x00, 0x7C, 0x42, 0x42, 0x7C, 0x44, 0x42, 0x00,
    0x00, 0x3C, 0x40, 0x3C, 0x02, 0x42, 0x3C, 0x00, 0x00, 0xFE, 0x10, 0x10, 0x10, 0x10, 0x10, 0x00,
    0x00, 0x42, 0x42, 0x42, 0x42, 0x42, 0x3C, 0x00, 0x00, 0x42, 0x42, 0x42, 0x42, 0x24, 0x18, 0x00,
    0x00, 0x42, 0x42, 0x42, 0x42, 0x5A, 0x24, 0x00, 0x00, 0x42, 0x24, 0x18, 0x18, 0x24, 0x42, 0x00,
    0x00, 0x82, 0x44, 0x28, 0x10, 0x10, 0x10, 0x00, 0x00, 0x7E, 0x04, 0x08, 0x10, 0x20, 0x7E, 0x00 ]

/-- The width and height of a character in pixels (`CHAR_SIZE`). -/
def cellSize : Nat := 8

/-- The width of the screen in pixels (`SCREEN_WIDTH`). -/
def screenWidth : Nat := Display.columnCount * cellSize

/-- The height of the screen in pixels (`SCREEN_HEIGHT`). -/
def screenHeight : Nat := Display.rowCount * cellSize

/-- One row of pixels of a character, as the bits of a byte. -/
def cellBits (code : UInt8) (y : Nat) : UInt8 :=
  let shape := glyphs[(code &&& 0x7F).toNat * cellSize + y]?.getD 0
  if code &&& 0x80 == 0 then shape else shape ^^^ 0xFF

/-- The bits of a byte from the top one down. -/
def bits (b : UInt8) : List Bool := (List.range 8).map fun x => b.toNat.testBit (7 - x)

/-- One row of pixels of a screen row. -/
def pixelRow (row : List UInt8) (y : Nat) : List Bool :=
  let shown := row.take Display.columnCount
  shown.flatMap (fun code => bits (cellBits code y)) ++
    List.replicate ((Display.columnCount - shown.length) * cellSize) false

/-- The rows of pixels of a screen row. -/
def pixelRows (row : List UInt8) : List (List Bool) := (List.range cellSize).map (pixelRow row)

/-- The rows of a display file that are on the screen; a line end at its start is skipped. -/
def shownRows (display : List UInt8) : List (List UInt8) :=
  let body := if display.head? == some Token.lineEnd then display.tail else display
  let rows := (Display.splitRows body).take Display.rowCount
  rows ++ List.replicate (Display.rowCount - rows.length) []

/-- The picture of a display file (`screen_pixels`). -/
def screen (display : List UInt8) : Picture :=
  ⟨screenWidth, (shownRows display).flatMap pixelRows⟩

/-- The picture with every pixel as a square of `scale` by `scale` pixels. -/
def scaled (scale : Nat) (p : Picture) : Picture :=
  ⟨p.width * scale, p.rows.flatMap fun row =>
    List.replicate scale (row.flatMap (List.replicate scale))⟩

/-- The picture of a display file at a scale. -/
def ofDisplay (display : List UInt8) (scale : Nat) : Picture := (screen display).scaled scale

/-- The height of a picture. -/
def height (p : Picture) : Nat := p.rows.length

end Picture

end TapeBasic
