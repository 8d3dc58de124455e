import TapeBasic.Host
import TapeBasic.Picture

/-!
# Painting pictures (`render_screen`)

A picture is painted on a sheet of an image library, pixel by pixel, and saved as a file. The library is a parameter:
it is known by its operations only, each of which may fail.
-/
namespace TapeBasic

/-- An image library for pictures in shades of gray, from black to white. `γ` is a sheet of pixels; they are counted
from the left and from the top. -/
structure Painter (γ : Type) where
  /-- A sheet of some width and height in one shade (`Image.new`). -/
  create : Int → Int → UInt8 → Except HostError γ
  /-- Gives a pixel of a sheet a shade (`putpixel`). -/
  put : γ → Nat → Nat → UInt8 → Except HostError γ
  /-- The file of a sheet (`save`). -/
  save : γ → Except HostError (List UInt8)

namespace Picture

/-- The shade of ink. -/
def inkShade : UInt8 := 0

/-- The shade of paper. -/
def paperShade : UInt8 := 255

variable {γ : Type}

/-- One step of a painting for each element, in a row. -/
def each {m : Type → Type} [Monad m] {α : Type} (list : List α) (step : α → γ → m γ) (sheet : γ) : m γ :=
  list.foldlM (fun sheet a => step a sheet) sheet

/-- Paints a pixel of the screen as a square. -/
def paintSquare (painter : Painter γ) (scale x y : Nat) : γ → Except HostError γ :=
  each (List.range scale) fun dy => each (List.range scale) fun dx sheet =>
    painter.put sheet (x * scale + dx) (y * scale + dy) inkShade

/-- Paints the pixels of ink of some rows. -/
def paintRows (painter : Painter γ) (scale : Nat) (rows : List (List Bool)) : γ → Except HostError γ :=
  each rows.zipIdx fun row => each row.1.zipIdx fun pixel =>
    if pixel.1 then paintSquare painter scale pixel.2 row.2 else pure

/-- The file of the picture of a display file at a scale (`render_screen`). -/
def render (painter : Painter γ) (display : List UInt8) (scale : Int) : Except HostError (List UInt8) := do
  let blank ← painter.create (screenWidth * scale) (screenHeight * scale) paperShade
  let sheet ← paintRows painter scale.toNat (screen display).rows blank
  painter.save sheet

end Picture

end TapeBasic
