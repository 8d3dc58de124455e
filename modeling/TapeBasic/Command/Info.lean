import TapeBasic.Command.Load

/-!
# Showing what is in a tape image (`cmd_info`)
-/
namespace TapeBasic.Command

/-- The number of the line that starts at a place of the program, found by going from record to
record (`_line_at`). -/
def lineAt? (program : List UInt8) (offset : Int) : Option Nat :=
  match program with
  | high :: low :: lengthLow :: lengthHigh :: rest =>
    if offset == 0 then some (word high low)
    else
      let length := word lengthHigh lengthLow
      lineAt? (rest.drop length) (offset - (4 + length : Nat))
  | _ => none
termination_by program.length
decreasing_by simp only [List.length_cons, List.length_drop]; omega

/-- A row of the table of areas. -/
def areaRow (name address size : List Char) : List Char :=
  Text.padRight 12 ' ' name ++ ' ' :: (Text.padLeft 7 ' ' address ++ ' ' :: Text.padLeft 9 ' ' size)

/-- A memory area of an image. -/
def areaLine (name : String) (address size : Nat) : List Char :=
  areaRow name.toList (Text.decimal address) (Text.decimal size) ++ " bytes".toList

/-- Whether the program starts by itself, and with which line. -/
def autostartLine (image : Image) : List Char :=
  "Autostart: ".toList ++
    if image.nextLineAddress == image.displayAddress then "none".toList
    else
      match lineAt? image.program image.nextLineOffset with
      | some number => "line ".toList ++ Text.decimal number
      | none =>
        "NXTLIN = ".toList ++ Image.addressText image.nextLineAddress ++ " (not a line start)".toList

/-- A changed system variable: its name, its value and what it is for. -/
def variableLine (f : SystemVariables.Field) (bytes : List UInt8) : List Char :=
  let value :=
    if f.size ≤ 2 then Text.decimal (SystemVariables.littleEndian bytes)
    else List.intercalate [' '] (bytes.map fun b => Text.capitalHex 2 b.toNat)
  "  ".toList ++ Text.padRight 10 ' ' f.name.toList ++ ' ' ::
    (Text.padRight 12 ' ' value ++ ' ' :: f.description.toList)

/-- The lines about an image. -/
def infoLines (path : Path) (image : Image) : List (List Char) :=
  let changed := image.changedVariables
  [ "P-file: ".toList ++ path.text,
    "Total size: ".toList ++ Text.decimal image.data.length ++ " bytes".toList,
    [],
    areaRow "Area".toList "Address".toList "Size".toList,
    List.replicate 34 '-',
    areaLine "Sysvars" SystemVariables.baseAddress SystemVariables.blockSize,
    areaLine "Program" SystemVariables.programAddress image.program.length,
    areaLine "Display" image.displayAddress image.display.length,
    areaLine "Variables" image.variablesAddress image.variableArea.length,
    [],
    "Display file: ".toList ++ (if image.isCollapsed then "collapsed" else "expanded").toList,
    autostartLine image ] ++
  if changed.isEmpty then []
  else [[], "Changed system variables:".toList] ++ changed.map fun (f, bytes) => variableLine f bytes

/-- Shows what is in an image (`cmd_info`). -/
def describeImage (read : Path → Except HostError (List UInt8)) (args : InfoArguments) : Progress :=
  match loadImage read args.image with
  | (events, .error failure) => ⟨events, .error failure⟩
  | (events, .ok image) => ⟨events, .ok ⟨none, (infoLines args.image image).map line⟩⟩

end TapeBasic.Command
