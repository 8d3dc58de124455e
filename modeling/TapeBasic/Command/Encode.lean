import TapeBasic.Command.Load

/-!
# Making tape images of listings (`cmd_encode`)
-/
namespace TapeBasic.Command

/-- The image that is written: a cassette image if a name was given or the output is named as one. -/
def wrapped (programName : Option (List Char)) (output : Path) (image : List UInt8) :
    Except Cassette.NameFailure (List UInt8) :=
  match programName.filter (!·.isEmpty) with
  | some name => Cassette.build name image
  | none =>
    if output.hasEnding cassetteEnding then Cassette.build (Text.upper output.stem) image
    else .ok image

/-- The output of `encode`: the given one, or the listing with the ending of its image. -/
def imagePath (args : EncodeArguments) : Except CommandFailure Path :=
  match args.output with
  | some output => .ok output
  | none =>
    let named := (args.programName.filter (!·.isEmpty)).isSome
    renamed args.source (if named then cassetteEnding else ".p".toList)

/-- The folder of the files that the listing includes: the given one, the one in the settings, or the folder of the
listing. -/
def includeFolder (settings : Settings) (args : EncodeArguments) : Path :=
  (args.includeFolder <|> settings.includeFolder).getD args.source.parent

/-- What `encode` prints. -/
def encodeTexts (verbose : Bool) (output : Path) (size warnings : Nat) : List (List Char) :=
  let created := "Created ".toList ++ output.text
  if verbose then
    [created, "  Size: ".toList ++ Text.decimal size ++ " bytes".toList,
      "  Warnings: ".toList ++ Text.decimal warnings].map line
  else [line (created ++ " (".toList ++ Text.decimal size ++ " bytes)".toList)]

/-- Makes a tape image of a listing (`cmd_encode`). -/
def encodeListing (settings : Settings) (read : Path → Except HostError (List UInt8)) (args : EncodeArguments) :
    Progress :=
  match imagePath args with
  | .error failure => ⟨[], .error failure⟩
  | .ok output =>
    match Source.load read args.source with
    | .error failure => ⟨[], .error (.ofLoad failure)⟩
    | .ok source =>
      let encoding := source.encodeImage (FileReader.inFolder read (includeFolder settings args))
      match encoding.result with
      | .error failure => ⟨encoding.events, .error (.listing failure)⟩
      | .ok image =>
        match wrapped args.programName output image with
        | .error failure => ⟨encoding.events, .error (.programName failure)⟩
        | .ok bytes =>
          ⟨encoding.events,
            .ok ⟨some (output, bytes), encodeTexts args.verbose output bytes.length encoding.warnings.length⟩⟩

end TapeBasic.Command
