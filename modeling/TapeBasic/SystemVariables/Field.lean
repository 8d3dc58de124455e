import TapeBasic.Text.Case
import TapeBasic.Text.Numeral

/-!
# The fields of the system variables (`get_variable`)

The machine keeps its state in 116 bytes from address 16393 on, and a tape image starts with a copy of
them. *Structural* fields are pointers into the memory that follows and are worked out anew for every
image; all others are free state.

* `fields` lists the fields in the order of their addresses; together they fill the 116 bytes.
* `Field.find` looks one up by name, in either case, or by address.
-/
namespace TapeBasic.SystemVariables

/-- The address of the first system variable, which is the first byte of a tape image (`SYSVARS_ADDRESS`). -/
def baseAddress : Nat := 0x4009

/-- The number of bytes of the system variables (`SYSVARS_SIZE`). -/
def blockSize : Nat := 116

/-- The address of the first byte of the program, right behind the system variables (`PROGRAM_ADDRESS`). -/
def programAddress : Nat := 0x407D

/-- A system variable (`SystemVariable`). -/
structure Field where
  /-- The name in the manual; unused bytes are named after their address. -/
  name : String
  address : Nat
  size : Nat
  description : String
  /-- Whether the field is a pointer that follows from the sizes of the memory areas. -/
  structural : Bool
  /-- Its bytes after a reset. -/
  initial : List UInt8
  above : baseAddress ≤ address := by decide
  inside : address - baseAddress + size ≤ blockSize := by decide

/-- The place of the field inside the block. -/
def Field.offset (f : Field) : Nat := f.address - baseAddress

theorem Field.offset_add_size_le (f : Field) : f.offset + f.size ≤ blockSize := f.inside

/-- All fields in the order of their addresses (`SYSTEM_VARIABLES`). -/
def fields : List Field :=
  [ { name := "VERSN", address := 16393, size := 1, structural := false, initial := [0],
      description := "0 identifies ZX81 BASIC in saved programs" },
    { name := "E_PPC", address := 16394, size := 2, structural := false, initial := [0x01, 0x00],
      description := "Number of current line (with program cursor)" },
    { name := "D_FILE", address := 16396, size := 2, structural := true, initial := [0, 0],
      description := "Address of the display file" },
    { name := "DF_CC", address := 16398, size := 2, structural := true, initial := [0, 0],
      description := "Print position in display file" },
    { name := "VARS", address := 16400, size := 2, structural := true, initial := [0, 0],
      description := "Address of the variables area" },
    { name := "DEST", address := 16402, size := 2, structural := false, initial := [0, 0],
      description := "Address of variable in assignment" },
    { name := "E_LINE", address := 16404, size := 2, structural := true, initial := [0, 0],
      description := "Address of the edit line" },
    { name := "CH_ADD", address := 16406, size := 2, structural := true, initial := [0, 0],
      description := "Address of the next character to interpret" },
    { name := "X_PTR", address := 16408, size := 2, structural := false, initial := [0, 0],
      description := "Address of the character preceding the syntax error marker" },
    { name := "STKBOT", address := 16410, size := 2, structural := true, initial := [0, 0],
      description := "Bottom of the calculator stack" },
    { name := "STKEND", address := 16412, size := 2, structural := true, initial := [0, 0],
      description := "End of the calculator stack" },
    { name := "BREG", address := 16414, size := 1, structural := false, initial := [0],
      description := "Calculator's b register" },
    { name := "MEM", address := 16415, size := 2, structural := false, initial := [0x3D, 0x40],
      description := "Address of area used for calculator's memory" },
    { name := "16417", address := 16417, size := 1, structural := false, initial := [0],
      description := "Not used" },
    { name := "DF_SZ", address := 16418, size := 1, structural := false, initial := [0x02],
      description := "Number of lines in the lower part of the screen" },
    { name := "S_TOP", address := 16419, size := 2, structural := false, initial := [0x02, 0x00],
      description := "Number of the top program line in automatic listings" },
    { name := "LAST_K", address := 16421, size := 2, structural := false, initial := [0xBF, 0xFD],
      description := "Shows which keys pressed" },
    { name := "DEBOUNCE", address := 16423, size := 1, structural := false, initial := [0x0F],
      description := "Debounce status of keyboard" },
    { name := "MARGIN", address := 16424, size := 1, structural := false, initial := [0x37],
      description := "Number of blank lines above or below picture" },
    { name := "NXTLIN", address := 16425, size := 2, structural := true, initial := [0, 0],
      description := "Address of next program line to be executed" },
    { name := "OLDPPC", address := 16427, size := 2, structural := false, initial := [0, 0],
      description := "Line number to which CONT jumps" },
    { name := "FLAGX", address := 16429, size := 1, structural := false, initial := [0],
      description := "Various flags" },
    { name := "STRLEN", address := 16430, size := 2, structural := false, initial := [0, 0],
      description := "Length of string type destination in assignment" },
    { name := "T_ADDR", address := 16432, size := 2, structural := false, initial := [0x8D, 0x0C],
      description := "Address of next item in syntax table" },
    { name := "SEED", address := 16434, size := 2, structural := false, initial := [0, 0],
      description := "The seed for RND" },
    { name := "FRAMES", address := 16436, size := 2, structural := false, initial := [0xA3, 0xF5],
      description := "Counts the frames displayed on the television" },
    { name := "COORDS", address := 16438, size := 2, structural := false, initial := [0, 0],
      description := "Coordinates of last point PLOTted" },
    { name := "PR_CC", address := 16440, size := 1, structural := false, initial := [0xBC],
      description := "Less significant byte of LPRINT position in PRBUFF" },
    { name := "S_POSN", address := 16441, size := 2, structural := false, initial := [0x21, 0x18],
      description := "Column and line number for PRINT position" },
    { name := "CDFLAG", address := 16443, size := 1, structural := false, initial := [0x40],
      description := "Various flags, bit 7 is on during compute and display mode" },
    { name := "PRBUFF", address := 16444, size := 33, structural := false,
      initial := List.replicate 32 0 ++ [0x76],
      description := "Printer buffer (33rd character is NEWLINE)" },
    { name := "MEMBOT", address := 16477, size := 30, structural := false,
      initial := List.replicate 30 0,
      description := "Calculator's memory area" },
    { name := "16507", address := 16507, size := 2, structural := false, initial := [0, 0],
      description := "Not used" } ]

/-! ## Looking fields up -/

/-- How a field is named. -/
inductive Key where
  | name (text : List Char)
  | address (n : Int)
deriving DecidableEq, Repr

/-- The key as it was given. -/
def Key.text : Key → List Char
  | .name text => text
  | .address n => Text.signedDecimal n

/-- Why a key names no field. -/
inductive Unresolved where
  /-- No field has this name or starts at this address. -/
  | unknown (key : Key)
  /-- The name consists of digits that are no number, or of too many. -/
  | badAddress
deriving DecidableEq, Repr

/-- Another spelling in use for a name (`_ALIASES`). -/
def aliasOf (name : List Char) : List Char := if name == "BERG".toList then "BREG".toList else name

/-- The field that starts at an address (`_VARIABLES_BY_ADDRESS`). -/
def Field.atAddress? (n : Int) : Option Field := fields.find? fun f => (f.address : Int) == n

/-- The field with a name in capitals (`_VARIABLES_BY_NAME`). -/
def Field.named? (name : List Char) : Option Field :=
  fields.find? fun f => f.name.toList == aliasOf name

/-- The field that a key names (`get_variable`). -/
def Field.find (key : Key) : Except Unresolved Field :=
  let found (f? : Option Field) : Except Unresolved Field :=
    match f? with
    | some f => .ok f
    | none => .error (.unknown key)
  match key with
  | .address n => found (Field.atAddress? n)
  | .name text =>
    let word := Text.trim text
    if !word.isEmpty && word.all Text.isDigit then
      match Text.integer? text with
      | some n => found (Field.atAddress? n)
      | none => .error .badAddress
    else found (Field.named? (Text.upper word))

end TapeBasic.SystemVariables
