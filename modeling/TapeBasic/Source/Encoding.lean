import TapeBasic.Source.Assembly

/-!
# From a listing to a tape image (`create_pfile`)

A tape image is the system variables, the program, the display file and the variables, in this order,
as they lie in memory. `Source.encodeProgram` gives the program alone, `Source.encodeImage` the whole
image.
-/
namespace TapeBasic

/-! ## Listings -/

/-- A listing with the name that messages give it (`BasicEncoder`). -/
structure Source where
  filename : List Char
  text : List Char

namespace Source

/-- The name of a listing that comes from no file. -/
def defaultName : List Char := "<input>".toList

/-- A listing without carriage returns, with a line end behind its last line. -/
def ofText (filename text : List Char) : Source :=
  let lines := text.filter (· != '\r')
  ⟨filename, if lines.getLast? == some '\n' then lines else lines ++ ['\n']⟩

/-- A line of the listing, counted from zero. -/
def line? (s : Source) (n : Nat) : Option (List Char) := (s.text.splitOn '\n')[n]?

end Source

/-! ## Failures -/

/-- Why a listing has no tape image. -/
inductive EncodingFailure where
  /-- The listing is wrong at some place. -/
  | invalid (error : SourceError)
  /-- A file could not be included. -/
  | unreadable (error : SourceError)
  /-- A character that is read like another one has no token. -/
  | unknownSymbol
  /-- A numeral has too many digits. -/
  | numeralTooLong
  /-- The image would not fit into the memory, where it would end at this address. -/
  | tooLarge (address : Nat)
  /-- The pointers to the memory areas do not fit their fields. -/
  | layout (failure : SystemVariables.Failure)
deriving DecidableEq, Repr

/-- What the failure says. -/
def EncodingFailure.message : EncodingFailure → List Char
  | .invalid error => error.text
  | .unreadable error => error.text
  | .unknownSymbol => "A character has no token".toList
  | .numeralTooLong => "A numeral has too many digits".toList
  | .tooLarge address =>
    "P-file too large: memory would end at ".toList ++ Text.decimal address
  | .layout failure => failure.message

/-- The failure that a fault in a listing is, with the line in which it lies. -/
def Source.failure (s : Source) : Fault → EncodingFailure
  | .complaint what snippet p =>
    .invalid
      { message := Fault.messageWith what snippet
        location := ⟨s.filename, p.line, p.column⟩
        sourceLine := s.line? p.line }
  | .unreadable path cause p =>
    .unreadable
      { message := unreadableMessage path cause
        location := ⟨s.filename, p.line, p.column⟩
        sourceLine := s.line? p.line }
  | .unknownSymbol => .unknownSymbol
  | .numeralTooLong => .numeralTooLong

/-! ## Images -/

/-- The byte behind the last variable (`VARIABLES_END`). -/
def variablesEnd : UInt8 := 0x80

namespace Assembly

/-- The display file. -/
def displayFile (a : Assembly) : List UInt8 := Display.file a.rows.toList a.collapsed

/-- The variables with their end mark. -/
def variableArea (a : Assembly) : List UInt8 := a.variableBytes.toList ++ [variablesEnd]

/-- Where the memory areas lie. The program starts with the line to start with, or not at all. -/
def layout (a : Assembly) (programSize displaySize variableSize : Nat) : SystemVariables.Layout :=
  let display := SystemVariables.programAddress + programSize
  { displayFile := display
    variableArea := display + displaySize
    editLine := display + displaySize + variableSize
    nextLine :=
      match a.startOffset with
      | some offset => SystemVariables.programAddress + offset
      | none => display }

/-- The last address that a pointer can hold. -/
def maxAddress : Nat := 0xFFFF

/-- The image, the system variables in it and the sizes of its areas (`create_pfile`). -/
def image (a : Assembly) : Except EncodingFailure (SystemVariables × List UInt8 × AreaSizes) :=
  let program := a.program
  let display := a.displayFile
  let variableArea := a.variableArea
  let layout := a.layout program.length display.length variableArea.length
  if maxAddress < layout.editLine + 5 then .error (.tooLarge layout.editLine.toNat)
  else
    match a.system.setLayout layout with
    | (_, some failure) => .error (.layout failure)
    | (system, none) =>
      .ok (system, system.image ++ program ++ display ++ variableArea,
        ⟨program.length, display.length, variableArea.length⟩)

end Assembly

/-! ## Encodings -/

/-- What became of a listing: bytes or a failure, the system variables as its directives left them, and
the events on the way. -/
structure Encoding where
  result : Except EncodingFailure (List UInt8)
  system : SystemVariables
  events : Journal

/-- The warnings about the listing. -/
def Encoding.warnings (e : Encoding) : List Diagnostic := e.events.warnings

namespace Source

/-- Reads the whole listing. -/
def collect (files : FileReader) (s : Source) : Pass :=
  Assembly.run files s.filename {} (Cursor.start s.text) []

/-- The program of a listing (`encode_program`). -/
def encodeProgram (files : FileReader) (s : Source) : Encoding :=
  let pass := s.collect files
  let result :=
    match pass.fault with
    | some fault => .error (s.failure fault)
    | none => .ok pass.assembly.program
  ⟨result, pass.assembly.system, pass.events⟩

/-- The tape image of a listing (`encode_pfile`). -/
def encodeImage (files : FileReader) (s : Source) : Encoding :=
  let pass := s.collect files
  match pass.fault with
  | some fault => ⟨.error (s.failure fault), pass.assembly.system, pass.events⟩
  | none =>
    match pass.assembly.image with
    | .error failure => ⟨.error failure, pass.assembly.system, pass.events⟩
    | .ok (system, bytes, areas) =>
      ⟨.ok bytes, system, pass.events ++ [.imageCreated bytes.length areas]⟩

end Source

end TapeBasic
