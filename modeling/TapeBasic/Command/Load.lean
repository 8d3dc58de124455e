import TapeBasic.Command.Report
import TapeBasic.Image

/-!
# Loading tape images
-/
namespace TapeBasic.Command

/-- The ending of cassette images. -/
def cassetteEnding : List Char := ".p81".toList

/-- The tape image in a file of this name: a cassette image is known by its ending. -/
def imageBytes (path : Path) (bytes : List UInt8) : List UInt8 :=
  if path.hasEnding cassetteEnding then Cassette.image bytes else bytes

/-- The image in a file (`PfileDecoder.from_file`). -/
def loadImage (read : Path → Except HostError (List UInt8)) (path : Path) : Journal × Except CommandFailure Image :=
  match read path with
  | .error error => ([], .error (.host error))
  | .ok bytes =>
    let opened : Journal :=
      if path.hasEnding cassetteEnding then [.nameRead (Cassette.name bytes) (Cassette.nameLength bytes)] else []
    match Image.split (imageBytes path bytes) with
    | .error failure => (opened, .error (.image failure))
    | .ok image => (opened ++ [.imageSplit image.areas], .ok image)

/-- The path with another ending (`with_suffix`), which a path without a name cannot have. -/
def renamed (path : Path) (ending : List Char) : Except CommandFailure Path :=
  if path.name.isEmpty then .error (.unnamed path) else .ok (path.withEnding ending)

end TapeBasic.Command
