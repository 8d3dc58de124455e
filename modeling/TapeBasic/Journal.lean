import TapeBasic.Decimal.Shortest
import TapeBasic.Extent
import TapeBasic.SystemVariables
import TapeBasic.Text.Quoted

/-!
# Diagnostics and the journal (`Diagnostic`, `BasicSyntaxError`)

Errors and warnings about a listing carry a place in it, counted from zero and shown from one. The
journal is the row of events of a conversion, in the order in which they happened: an event is either
a warning for the user or a line for the log.
-/
namespace TapeBasic

/-! ## Places and diagnostics -/

/-- A place in a listing (`SourceLocation`). A place that does not come from reading one may be anything. -/
structure Location where
  filename : List Char
  line : Int
  column : Int
deriving DecidableEq, Repr

/-- The place with line and column counted from one. -/
def Location.text (l : Location) : List Char :=
  l.filename ++ ':' :: (Text.signedDecimal (l.line + 1) ++ ':' :: Text.signedDecimal (l.column + 1))

/-- Whether the numbers of a place, as they are shown, have few enough digits to be written. -/
def Location.isWritable (l : Location) : Bool :=
  !Text.isUnwritable (l.line + 1).natAbs && !Text.isUnwritable (l.column + 1).natAbs

/-- Why the text about a place cannot be written. -/
inductive Unwritable where
  /-- The line or the column has too many digits. -/
  | place
  /-- The caret under the place would be too far away. -/
  | caret (why : TooLarge)
deriving DecidableEq, Repr

/-- Refuses a place whose numbers cannot be written. -/
def Location.check (l : Location) : Except Unwritable Unit :=
  if l.isWritable then .ok () else .error .place

/-- A finding that does not stop a conversion. -/
structure Diagnostic where
  message : List Char
  location : Location
  severity : List Char := "warning".toList
deriving DecidableEq, Repr

/-- The diagnostic in one line. -/
def Diagnostic.text (d : Diagnostic) : List Char :=
  d.location.text ++ ": ".toList ++ d.severity ++ ": ".toList ++ d.message

/-- The text of a diagnostic, unless its place cannot be written. -/
def Diagnostic.text? (d : Diagnostic) : Except Unwritable (List Char) :=
  match d.location.check with
  | .error why => .error why
  | .ok () => .ok d.text

/-- An error in a listing (`BasicSyntaxError`). -/
structure SourceError where
  message : List Char
  location : Location
  /-- The whole line of the listing. -/
  sourceLine : Option (List Char) := none
  hint : Option (List Char) := none
deriving DecidableEq, Repr

/-- How far a caret under the place of an error is from the margin, which is four characters wide. -/
def SourceError.caretIndent (e : SourceError) : Int := 4 + e.location.column

/-- The error, its line and a caret under its place, and the hint if there is one
(`_format_message`). A place in front of the margin has its caret at the margin's edge. -/
def SourceError.text (e : SourceError) : List Char :=
  let head := e.location.text ++ ": error: ".toList ++ e.message
  let context :=
    match e.sourceLine with
    | none => []
    | some line =>
      '\n' :: (List.replicate 4 ' ' ++ line) ++
        '\n' :: (List.replicate e.caretIndent.toNat ' ' ++ ['^'])
  let advice :=
    match e.hint with
    | none => []
    | some [] => []
    | some hint => "\nhint: ".toList ++ hint
  head ++ context ++ advice

/-- Refuses a caret that would be too far away. Without a line there is no caret. -/
def SourceError.checkCaret (e : SourceError) : Except Unwritable Unit :=
  match e.sourceLine with
  | none => .ok ()
  | some _ =>
    match checkSize e.caretIndent with
    | .error why => .error (.caret why)
    | .ok () => .ok ()

/-- The text of an error, unless its place or its caret cannot be written. The place comes first. -/
def SourceError.text? (e : SourceError) : Except Unwritable (List Char) :=
  match e.location.check with
  | .error why => .error why
  | .ok () =>
    match e.checkCaret with
    | .error why => .error why
    | .ok () => .ok e.text

/-- The message about a file that could not be included (`IncludeError`). -/
def unreadableMessage (path cause : List Char) : List Char :=
  "Failed to read file '".toList ++ path ++ "': ".toList ++ cause

/-! ## The journal -/

/-- How much an event of the log matters. -/
inductive Level where
  | debug
  | info
  | warning
deriving DecidableEq, Repr

/-- The level in capitals. -/
def Level.text : Level → List Char
  | .debug => "DEBUG".toList
  | .info => "INFO".toList
  | .warning => "WARNING".toList

/-- The sizes of the three memory areas behind the system variables. -/
structure AreaSizes where
  program : Nat
  display : Nat
  variableArea : Nat
deriving DecidableEq, Repr

/-- Something that happened during a conversion. -/
inductive Event where
  /-- A warning about the listing. -/
  | warned (diagnostic : Diagnostic)
  /-- A directive named the line to start with. -/
  | startNamed (number : Nat)
  /-- A directive set a system variable. -/
  | variableSet (name : List Char) (setting : SystemVariables.Setting)
  /-- A file was included. -/
  | fileIncluded (path : List Char) (size : Nat)
  /-- A listing was converted. -/
  | programEncoded (size warnings : Nat)
  /-- A tape image was put together. -/
  | imageCreated (size : Nat) (areas : AreaSizes)
  /-- A tape image was taken apart. -/
  | imageSplit (areas : AreaSizes)
  /-- The program name in front of a tape image was read. -/
  | nameRead (name : List Char) (length : Nat)
  /-- A stored number differs from the literal in front of it. -/
  | numberDiffers (value : Magnitude) (literal : List Char)
  /-- A line record reaches beyond the end of the program. -/
  | recordOverruns (number length remaining : Nat)
  /-- A line record could not be converted. -/
  | recordBroken (number : Nat) (reason : List Char)
  /-- A tape image could not be converted. -/
  | imageBroken (reason : List Char)
  /-- A screen was drawn. -/
  | screenDrawn (scale : Int) (size : Nat)
deriving DecidableEq, Repr

namespace Event

/-- How much the event matters. -/
def level : Event → Level
  | .imageCreated .. => .info
  | .recordOverruns .. => .warning
  | .recordBroken .. => .warning
  | .imageBroken .. => .warning
  | _ => .debug

/-- A setting as the log shows it. -/
def settingText : SystemVariables.Setting → List Char
  | .number n => Text.signedDecimal n
  | .list values => Text.quotedBytes (values.map fun v => UInt8.ofNat v.toNat)

/-- The sizes of the areas as the log shows them. -/
def areasText (areas : AreaSizes) : List Char :=
  "program ".toList ++ Text.decimal areas.program ++ ", display ".toList ++
    Text.decimal areas.display ++ ", variables ".toList ++ Text.decimal areas.variableArea

/-- The event as a line of the log. -/
def text : Event → List Char
  | .warned d => "Warning: ".toList ++ d.text
  | .startNamed n => "basic-start: ".toList ++ Text.decimal n
  | .variableSet name setting =>
    "system-vars: ".toList ++ Text.upper name ++ " = ".toList ++ settingText setting
  | .fileIncluded path size =>
    "Included '".toList ++ path ++ "' (".toList ++ Text.decimal size ++ " bytes)".toList
  | .programEncoded size warnings =>
    "Encoded ".toList ++ Text.decimal size ++ " program bytes, ".toList ++ Text.decimal warnings ++
      " warning(s)".toList
  | .imageCreated size areas =>
    "Created P-file: ".toList ++ Text.decimal size ++ " bytes (".toList ++ areasText areas ++
      ")".toList
  | .imageSplit areas => "P-file regions: ".toList ++ areasText areas ++ " bytes".toList
  | .nameRead name length =>
    "P81 filename '".toList ++ name ++ "' (".toList ++ Text.decimal length ++ " bytes)".toList
  | .numberDiffers value literal =>
    "Hidden number ".toList ++ Decimal.exactMagnitude value ++ " does not match literal '".toList ++
      literal ++ "'".toList
  | .recordOverruns number length remaining =>
    "Line ".toList ++ Text.decimal number ++ ": length ".toList ++ Text.decimal length ++
      " exceeds remaining ".toList ++ Text.decimal remaining ++ " bytes".toList
  | .recordBroken number reason =>
    "Line ".toList ++ Text.decimal number ++ ": ".toList ++ reason
  | .imageBroken reason => "Cannot decode P-file: ".toList ++ reason
  | .screenDrawn scale size =>
    "Rendered screen at scale ".toList ++ Text.signedDecimal scale ++ " (".toList ++ Text.decimal size ++
      " bytes PNG)".toList

/-- The warning that the event is, if it is one. -/
def diagnostic? : Event → Option Diagnostic
  | .warned d => some d
  | _ => none

end Event

/-- The events of a conversion in their order. -/
abbrev Journal := List Event

/-- The warnings among the events. -/
def Journal.warnings (journal : Journal) : List Diagnostic := journal.filterMap Event.diagnostic?

namespace Journal

variable {first later : Journal}

theorem warnings_append (first later : Journal) : warnings (first ++ later) = first.warnings ++ later.warnings :=
  List.filterMap_append

theorem warnings_append_eq_nil (hfirst : first.warnings = []) (hlater : later.warnings = []) :
    warnings (first ++ later) = [] := by
  rw [warnings_append, hfirst, hlater]
  rfl

end Journal

end TapeBasic
