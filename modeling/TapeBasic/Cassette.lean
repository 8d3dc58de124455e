import TapeBasic.Grammar
import TapeBasic.Image

/-!
# Cassette images (`build_p81`, `split_p81`)

A cassette image is a tape image behind the name under which the program was saved. The name is stored
in the machine's characters; the last one has its top bit set.
-/
namespace TapeBasic.Cassette

/-- The longest name (`MAX_FILENAME_LENGTH`). -/
def maxNameLength : Nat := 128

/-- Why a name cannot be stored. -/
inductive NameFailure where
  | empty
  | tooLong (length : Nat)
  | notAllowed (character : Char)
deriving DecidableEq, Repr

/-- What the failure says. -/
def NameFailure.message : NameFailure → List Char
  | .empty => "Program name must not be empty".toList
  | .tooLong length =>
    "Program name too long (".toList ++ Text.decimal length ++ " > ".toList ++
      Text.decimal maxNameLength ++ " characters)".toList
  | .notAllowed character =>
    "Character '".toList ++ character :: "' not allowed in program name".toList

/-- The byte of a character of a name. -/
def nameByte (c : Char) : Except NameFailure UInt8 :=
  match Token.ofCharacter? [c] with
  | some b => if b < 0x40 then .ok b else .error (.notAllowed c)
  | none => .error (.notAllowed c)

/-- The bytes with the top bit of the last one set. -/
def markLast : List UInt8 → List UInt8
  | [] => []
  | [b] => [b ||| 0x80]
  | b :: rest => b :: markLast rest

/-- The bytes of a name (`encode_p81_filename`). -/
def encodeName (name : List Char) : Except NameFailure (List UInt8) :=
  if name.isEmpty then .error .empty
  else if maxNameLength < name.length then .error (.tooLong name.length)
  else
    match name.mapM nameByte with
    | .error failure => .error failure
    | .ok bytes => .ok (markLast bytes)

/-- A tape image behind its name (`build_p81`). -/
def build (name : List Char) (image : List UInt8) : Except NameFailure (List UInt8) :=
  match encodeName name with
  | .error failure => .error failure
  | .ok bytes => .ok (bytes ++ image)

/-- The number of bytes of a name: up to the first one with its top bit set, at most `limit`. -/
def nameLengthWithin : (limit : Nat) → List UInt8 → Nat
  | 0, _ => 0
  | _ + 1, [] => 0
  | limit + 1, b :: rest => if 0x80 ≤ b then 1 else nameLengthWithin limit rest + 1

/-- The number of bytes of the name (`read_p81_filename`). -/
def nameLength (data : List UInt8) : Nat := nameLengthWithin maxNameLength data

/-- The name in front of a tape image (`read_p81_filename`). -/
def name (data : List UInt8) : List Char :=
  (data.take (nameLength data)).flatMap fun b => Token.text (b &&& 0x7F)

/-- The tape image behind the name (`split_p81`). -/
def image (data : List UInt8) : List UInt8 := data.drop (nameLength data)

/-- The directives and the listing of the image behind the name (`decode_p81`). -/
def decode (style : Image.Style) (data : List UInt8) : List Char := Image.decode style (image data)

end TapeBasic.Cassette
