import TapeBasic.Chunks
import TapeBasic.Display
import TapeBasic.Journal
import TapeBasic.Listing

/-!
# Tape images (`PfileDecoder`)

A tape image is a copy of the memory from the system variables on. Its pointers say where the program,
the display file and the variables lie; whatever they hold, the areas come in this order, do not
overlap and stay inside the image.

* `Image.split` takes an image apart.
* `Image.text` shows it as a listing from which it can be built again.
-/
namespace TapeBasic

/-- A tape image taken apart (`PfileDecoder`). -/
structure Image where
  data : List UInt8
  system : SystemVariables
  program : List UInt8
  display : List UInt8
  variableArea : List UInt8

namespace Image

/-- An image that is too short to hold the system variables. -/
structure TooShort where
  size : Nat
deriving DecidableEq, Repr

/-- What the failure says. -/
def TooShort.message (failure : TooShort) : List Char :=
  "P-file too short: ".toList ++ Text.decimal failure.size ++ " bytes, system variables need ".toList ++
    Text.decimal SystemVariables.blockSize

/-- The place of an address in an image of some size: no earlier than `least`, no later than its end (`_index`). -/
def place (size address least : Nat) : Nat := min (max (address - SystemVariables.baseAddress) least) size

/-- Takes an image apart (`PfileDecoder`). -/
def split (data : List UInt8) : Except TooShort Image :=
  match SystemVariables.ofImageStart data with
  | .error _ => .error ⟨data.length⟩
  | .ok system =>
    let size := data.length
    let display := place size (system.pointer "D_FILE") SystemVariables.blockSize
    let variablePlace := place size (system.pointer "VARS") display
    let editLine := place size (system.pointer "E_LINE") variablePlace
    let area (first last : Nat) : List UInt8 := (data.drop first).take (last - first)
    .ok
      { data, system
        program := area SystemVariables.blockSize display
        display := area display variablePlace
        variableArea := area variablePlace editLine }

/-- The address of the display file. -/
def displayAddress (i : Image) : Nat := i.system.pointer "D_FILE"

/-- The address of the variables. -/
def variablesAddress (i : Image) : Nat := i.system.pointer "VARS"

/-- The address behind the variables. -/
def editLineAddress (i : Image) : Nat := i.system.pointer "E_LINE"

/-- The address of the line to run next. -/
def nextLineAddress (i : Image) : Nat := i.system.pointer "NXTLIN"

/-- The sizes of the areas. -/
def areas (i : Image) : AreaSizes := ⟨i.program.length, i.display.length, i.variableArea.length⟩

/-- Whether the display file is smaller than one with full rows (`dfile_collapsed`). -/
def isCollapsed (i : Image) : Bool := i.display.length < Display.expandedSize

/-- The rows of the screen without their line ends (`screen_rows`). -/
def screenRows (i : Image) : List (List UInt8) :=
  let body := i.display.drop 1
  let rows := if body.getLast? == some Token.lineEnd then body.dropLast else body
  if rows.isEmpty && i.display.length ≤ 1 then [] else Display.splitRows rows

/-- The bytes from the line to run next on, if it lies behind the start of the display file (`outside_program`). -/
def outside (i : Image) : List UInt8 :=
  if i.nextLineAddress ≤ i.displayAddress then []
  else i.data.drop (place i.data.length i.nextLineAddress SystemVariables.blockSize)

/-- The fields, other than pointers, that differ from a reset machine. -/
def changedVariables (i : Image) : List (SystemVariables.Field × List UInt8) :=
  SystemVariables.reset.diff i.system

/-! ## The directives of an image -/

/-- How an image is shown. -/
structure Style where
  /-- Whether keywords are written in brackets everywhere. -/
  bracketed : Bool := false
  /-- How many bytes of the variables a directive holds, at least one. -/
  bytesPerLine : Int := 20

/-- Bytes as a list of numbers in brackets (`_format_byte_list`). -/
def byteList (bytes : List UInt8) : List Char :=
  '[' :: (List.intercalate [','] (bytes.map fun b => Text.decimal b.toNat) ++ [']'])

/-- An address in hexadecimal digits. -/
def addressText (n : Nat) : List Char := "0x".toList ++ Text.capitalHex 4 n

/-- The number of the line whose record starts at a place of the program (`_line_at`). -/
def lineNumberAt? (program : List UInt8) (offset : Int) : Option Nat :=
  if 0 ≤ offset && (Listing.recordOffsets program 0).contains offset.toNat then
    match program.drop offset.toNat with
    | high :: low :: _ => some (word high low)
    | _ => none
  else none

/-- The place in the program of the line to run next. -/
def nextLineOffset (i : Image) : Int := (i.nextLineAddress : Int) - SystemVariables.programAddress

/-- The directive that names the line to start with, or a note about it (`_basic_start_header`). -/
def startDirective (i : Image) : List Char :=
  if i.nextLineAddress == i.displayAddress then []
  else
    match lineNumberAt? i.program i.nextLineOffset with
    | some number => "#!basic-start=".toList ++ Text.decimal number ++ ['\n']
    | none =>
      "# Note: NXTLIN (".toList ++ addressText i.nextLineAddress ++
        (if i.displayAddress < i.nextLineAddress then
          ") points past the display file; program continues outside the BASIC area.\n".toList
        else ") does not point to a line start.\n".toList)

/-- The text of a screen row (`_render_screen_row`). A space at its end is written with its number
if it would be lost. -/
def rowText (marksLastSpace : Bool) (row : List UInt8) : List Char :=
  let glyph (b : UInt8) : List Char := if Token.isAmbiguous b then Token.bracketed b else Token.text b
  if marksLastSpace && row.getLast? == some Token.space then
    row.dropLast.flatMap glyph ++ Token.code Token.space
  else row.flatMap glyph

/-- The directives that build the screen (`_dfile_header`). -/
def displayDirectives (i : Image) : List Char :=
  let collapsed := i.isCollapsed
  let stored := i.screenRows
  let note :=
    if !i.display.isEmpty && stored.length != Display.rowCount then
      "# Note: Display file has ".toList ++ Text.decimal stored.length ++ " rows instead of ".toList ++
        Text.decimal Display.rowCount ++ ".\n".toList
    else []
  let rows := if collapsed then stored else stored.map (dropRightWhile (· == Token.space))
  let shown := dropRightWhile List.isEmpty rows
  let lines := (if collapsed then ["#!dfile-collapsed".toList] else []) ++
    shown.map fun row => "#!dfile:".toList ++ rowText collapsed row
  note ++ lines.flatMap (· ++ ['\n'])

/-- The directives that fill the variables (`_variables_header`). -/
def variablesDirectives (style : Style) (i : Image) : List Char :=
  let closed := i.variableArea.getLast? == some 0x80
  let bytes := if closed then i.variableArea.dropLast else i.variableArea
  let note := if closed then [] else "# Note: Variables area does not end with 128.\n".toList
  note ++ (chunks (max 1 style.bytesPerLine).toNat bytes).flatMap fun part =>
    "#!basic-vars:".toList ++ byteList part ++ ['\n']

/-- The value of a field in a directive: a number, or the bytes of a long field. -/
def valueText (f : SystemVariables.Field) (bytes : List UInt8) : List Char :=
  if f.size ≤ 2 then Text.decimal (SystemVariables.littleEndian bytes) else byteList bytes

/-- The directives that set the system variables (`_system_variables_header`). -/
def systemDirectives (i : Image) : List Char :=
  i.changedVariables.flatMap fun (f, bytes) =>
    "#!system-vars:".toList ++ f.name.toList ++ '=' :: (valueText f bytes ++ ['\n'])

/-- All directives, each kind with an empty line behind it (`header`). -/
def header (style : Style) (i : Image) : List Char :=
  let kinds :=
    [i.startDirective, i.displayDirectives, i.variablesDirectives style, i.systemDirectives]
  (kinds.filter (!·.isEmpty)).flatMap (· ++ ['\n'])

/-! ## The listing of an image -/

/-- The lines of a text; a line end at its end starts no further line. -/
def lines (text : List Char) : List (List Char) :=
  let parts := text.splitOn '\n'
  if parts.getLast? == some [] then parts.dropLast else parts

/-- The listing of the bytes outside the program, as comments. -/
def outsideText (i : Image) (entries : List Listing.Entry) : List Char :=
  "\n# BASIC program outside BASIC area at ".toList ++ addressText i.nextLineAddress ++ ":\n".toList ++
    (lines (Listing.text entries)).flatMap fun line => "# ".toList ++ line ++ ['\n']

/-- The program and what lies outside it: the text and the events (`program_text`). -/
def programListing (style : Style) (i : Image) : List Char × Journal :=
  let entries := Listing.ofProgram style.bracketed i.program
  if i.outside.isEmpty then (Listing.text entries, Listing.events entries)
  else
    let others := Listing.ofProgram style.bracketed i.outside
    (Listing.text entries ++ i.outsideText others, Listing.events entries ++ Listing.events others)

/-- The text of the program and of what lies outside it. -/
def programText (style : Style) (i : Image) : List Char := (i.programListing style).1

/-- The directives and the listing: the text and the events (`to_text`). -/
def listing (style : Style) (i : Image) : List Char × Journal :=
  let (program, events) := i.programListing style
  (i.header style ++ program, events)

/-- The directives and the listing. -/
def text (style : Style) (i : Image) : List Char := (i.listing style).1

/-! ## Showing any bytes -/

/-- The comment that stands for an image that is too short. -/
def TooShort.comment (failure : TooShort) : List Char :=
  "# Error: ".toList ++ failure.message ++ ['\n']

/-- The directives of an image, or a comment (`decode_header`). -/
def decodeHeader (style : Style) (data : List UInt8) : List Char :=
  match split data with
  | .error failure => failure.comment
  | .ok i => i.header style

/-- The directives and the listing of an image, or a comment (`decode_pfile`). -/
def decode (style : Style) (data : List UInt8) : List Char :=
  match split data with
  | .error failure => failure.comment
  | .ok i => i.text style

end Image

end TapeBasic
