import TapeBasic.Session

/-!
# The command line

Looks at the files that the arguments and the listings among them name, carries the command out in a session, and then
prints what it printed and writes what it wrote.
-/
namespace TapeBasic.Main

/-- A text as the machine prints it. -/
def printable (text : List Char) : String := String.ofList text

/-- The place that names lead to from a folder, if all folders on the way exist. -/
def spotOf (folder : Spot) (text : List Char) : Spot :=
  let start := if text.head? == some '/' then [] else folder
  (Path.components text).foldl (fun spot name =>
    if name.isEmpty || name == ['.'] then spot
    else if name == ['.', '.'] then Directory.above spot
    else spot ++ [name]) start

/-- The absolute text of a place. -/
def spotText (spot : Spot) : String := printable ('/' :: List.intercalate ['/'] spot)

/-- What is at a place. -/
def look (spot : Spot) : IO (Option (Spot × Entry)) := do
  let here ← IO.currentDir
  if ← (here / spotText spot).isDir then return some (spot, .folder)
  try
    let bytes ← IO.FS.readBinFile (spotText spot)
    return some (spot, .file bytes.toList)
  catch _ => return none

/-- What is at some places and in the folders around them. -/
def lookAll (spots : List Spot) : IO (List (Spot × Entry)) := do
  let found ← (spots ++ spots.map Directory.above).eraseDups.mapM look
  return found.filterMap id

/-- The texts in an argument that may name a file: the whole, behind a short option, or behind an equals
sign. -/
def candidates (arg : List Char) : List (List Char) :=
  [arg, arg.drop 2, (arg.dropWhile (· != '=')).drop 1].filter (!·.isEmpty)

/-- The paths that the text files among some entries may include. -/
def included (entries : List (Spot × Entry)) : List (List Char) :=
  entries.flatMap fun (_, entry) =>
    match entry with
    | .file bytes => ((decodeText? bytes).map SpecialCode.paths).getD []
    | .folder => []

/-- The folders among some entries. -/
def folders (entries : List (Spot × Entry)) : List Spot :=
  entries.filterMap fun (spot, entry) => if entry = .folder then some spot else none

/-- The variables of the environment that the tool knows. -/
def environment : IO Settings.Environment := do
  let names := ["ZX81_INCLUDE_DIR", "ZX81_BRACKETIZED", "ZX81_VARS_PER_LINE", "ZX81_SCREEN_SCALE"]
  let values ← names.mapM fun name => return (← IO.getEnv name).map fun v => (name.toList, v.toList)
  return values.filterMap id

/-- Everything that a command with these arguments can look at. -/
def directory (env : Settings.Environment) (args : List (List Char)) : IO Directory := do
  let working := spotOf [] (← IO.currentDir).toString.toList
  let named := args.flatMap candidates ++ env.map Prod.snd
  let entries ← lookAll (working :: named.map (spotOf working))
  let more ← lookAll <| (folders entries).flatMap fun folder =>
    (included entries).map (spotOf folder)
  return ⟨entries ++ more, working⟩

/-- Writes the files that a command has written in its session. -/
def writeFiles (entries : List (Spot × Entry)) : IO Unit := do
  for (spot, entry) in entries do
    if let .file bytes := entry then
      IO.FS.writeBinFile (spotText spot) (ByteArray.mk bytes.toArray)

/-- Carries a command out and gives its exit code. -/
def run (args : List String) : IO UInt32 := do
  let args := args.map String.toList
  let env ← environment
  let d ← directory env args
  let ending := Session.host.perform env args d {}
  (← IO.getStderr).putStr (printable (ending.console.text .err))
  writeFiles (ending.files.writtenSince d)
  (← IO.getStdout).putStr (printable (ending.console.text .out))
  return UInt32.ofNat ending.exitCode

end TapeBasic.Main

/-- The command line of the tool. -/
def main (args : List String) : IO UInt32 := TapeBasic.Main.run args
