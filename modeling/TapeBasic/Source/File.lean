import TapeBasic.Host
import TapeBasic.Source.Encoding

/-!
# Listings in files (`from_file`, `file_reader`)

A listing is read from a text file, and the files that it includes from a folder.
-/
namespace TapeBasic

/-- Gives the files that a listing includes, with paths seen from a folder (`file_reader`). -/
def FileReader.inFolder (read : Path → Except HostError (List UInt8)) (folder : Path) : FileReader := fun text =>
  match read (folder.join (Path.ofText text)) with
  | .ok bytes => .ok bytes
  | .error error => .error error.message

/-- The bytes of a text file as text: strict UTF-8, every kind of line end as one line feed. -/
def decodeText? (bytes : List UInt8) : Option (List Char) :=
  (ByteArray.mk bytes.toArray).utf8Decode?.map fun text => lineFeeds text.toList []
where
  /-- Carriage returns, alone or in front of a line feed, as line feeds. -/
  lineFeeds : List Char → List Char → List Char
    | [], done => done.reverse
    | '\r' :: '\n' :: rest, done => lineFeeds rest ('\n' :: done)
    | '\r' :: rest, done => lineFeeds rest ('\n' :: done)
    | c :: rest, done => lineFeeds rest (c :: done)

/-- Why a listing cannot be read from a file, with the error of the one who reads. -/
inductive LoadFailure (ε : Type) where
  | file (error : ε)
  | notText
deriving DecidableEq, Repr

/-- The listing in a file (`BasicEncoder.from_file`). -/
def Source.load {ε : Type} (read : Path → Except ε (List UInt8)) (path : Path) : Except (LoadFailure ε) Source :=
  match read path with
  | .error error => .error (.file error)
  | .ok bytes =>
    match decodeText? bytes with
    | none => .error .notText
    | some text => .ok (Source.ofText path.text text)

end TapeBasic
