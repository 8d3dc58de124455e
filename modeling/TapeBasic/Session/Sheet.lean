import TapeBasic.Picture.Painter
import TapeBasic.Session.Png

/-!
# Sheets of pixels

A simple image library: a sheet is one long row of shades.
-/
namespace TapeBasic

/-- A sheet of pixels, row by row. -/
structure Sheet where
  width : Nat
  height : Nat
  pixels : Array UInt8
  size_eq : pixels.size = width * height

namespace Sheet

/-- The shade of a pixel. -/
def pixel (sheet : Sheet) (x y : Nat) : UInt8 := sheet.pixels[y * sheet.width + x]?.getD 0

/-- The rows of a sheet. -/
def rows (sheet : Sheet) : List (List UInt8) := chunks sheet.width sheet.pixels.toList

/-- A sheet of one shade. -/
def blank (width height : Nat) (shade : UInt8) : Sheet :=
  ⟨width, height, Array.replicate (width * height) shade, Array.size_replicate⟩

/-- Gives a pixel a shade. -/
def set : Sheet → Nat → Nat → UInt8 → Sheet
  | ⟨width, height, pixels, hsize⟩, x, y, shade =>
    ⟨width, height, pixels.setIfInBounds (y * width + x) shade, by rw [Array.size_setIfInBounds, hsize]⟩

/-- Sheets as an image library. -/
def painter : Painter Sheet where
  create width height shade :=
    if width < 0 || height < 0 then .error ⟨.other, "Width and height must be >= 0".toList⟩
    else .ok (blank width.toNat height.toNat shade)
  put sheet x y shade :=
    if x < sheet.width ∧ y < sheet.height then .ok (sheet.set x y shade)
    else .error ⟨.other, "image index out of range".toList⟩
  save sheet := .ok (Png.file sheet.width sheet.height sheet.rows)

end Sheet

end TapeBasic
