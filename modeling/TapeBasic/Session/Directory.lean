import TapeBasic.Host

/-!
# Files and folders

A simple file system: a picture of some files and folders, without links, devices and permissions. Paths are followed
name by name from the root or from the working folder; every name but the last must be a folder. Names and whole paths
have a greatest length.

* `Directory.find` follows a path, `Directory.read` gives the bytes of a file.
* `Directory.place` says where a file would be written, `Directory.write` writes one.
* `Directory.files` is the file system.
-/
namespace TapeBasic

/-- Why a file cannot be read or written. -/
inductive FileError where
  | notFound
  | notAFolder
  | isAFolder
  | nameTooLong
  | nullCharacter
deriving DecidableEq, Repr

/-- What the error says about a path. -/
def FileError.message (e : FileError) (path : Path) : List Char :=
  let numbered (text : String) : List Char := text.toList ++ ": ".toList ++ Text.quoted path.text
  match e with
  | .notFound => numbered "[Errno 2] No such file or directory"
  | .notAFolder => numbered "[Errno 20] Not a directory"
  | .isAFolder => numbered "[Errno 21] Is a directory"
  | .nameTooLong => numbered "[Errno 36] File name too long"
  | .nullCharacter => "embedded null byte".toList

/-- The error as an error of the host. -/
def FileError.toHost (e : FileError) (path : Path) : HostError :=
  { kind := if e = .notFound then .notFound else .other, message := e.message path }

/-- A place in the tree of folders: the names from the root on. -/
abbrev Spot := List (List Char)

/-- A file or a folder. -/
inductive Entry where
  | file (bytes : List UInt8)
  | folder
deriving DecidableEq, Repr

/-- The files and folders that can be seen, and the working folder. The folders around a file or a
folder need not be listed. -/
structure Directory where
  entries : List (Spot × Entry)
  working : Spot

namespace Directory

/-- The folder above a place; the root is its own. -/
def above (spot : Spot) : Spot := spot.dropLast

/-- What is at a place. -/
def entryAt? (d : Directory) (spot : Spot) : Option Entry :=
  match d.entries.lookup spot with
  | some entry => some entry
  | none =>
    if spot.isPrefixOf d.working || d.entries.any fun entry => spot.isPrefixOf entry.1 then some .folder
    else none

/-- What a path leads to. -/
inductive Found where
  | file (spot : Spot) (bytes : List UInt8)
  | folder (spot : Spot)
  /-- Nothing, in a folder that exists. -/
  | nothing (spot : Spot)
deriving DecidableEq, Repr

/-- The longest name in bytes. -/
def maxNameBytes : Nat := 255

/-- The longest path in bytes. -/
def maxPathBytes : Nat := 4095

/-- The size of a text in a file name. -/
def byteCount (text : List Char) : Nat := (String.ofList text).utf8ByteSize

/-- Follows names from a folder on. -/
def follow (d : Directory) (spot : Spot) : List (List Char) → Except FileError Found
  | [] => .ok (.folder spot)
  | name :: rest =>
    if name.isEmpty || name == ['.'] then d.follow spot rest
    else if name == ['.', '.'] then d.follow (above spot) rest
    else if maxNameBytes < byteCount name then .error .nameTooLong
    else
      let here := spot ++ [name]
      match d.entryAt? here with
      | some .folder => d.follow here rest
      | some (.file bytes) => if rest.isEmpty then .ok (.file here bytes) else .error .notAFolder
      | none => if rest.isEmpty then .ok (.nothing here) else .error .notFound

/-- Follows a path. -/
def find (d : Directory) (path : Path) : Except FileError Found :=
  if path.text.contains '\x00' then .error .nullCharacter
  else if maxPathBytes < byteCount path.text then .error .nameTooLong
  else d.follow (if path.root.isEmpty then d.working else []) path.names

/-- What a text as it was typed leads to. A slash at its end asks for a folder. -/
def findTyped (d : Directory) (text : List Char) : Except FileError Found :=
  if text.isEmpty then .error .notFound
  else if text.contains '\x00' then .error .nullCharacter
  else if maxPathBytes < byteCount text then .error .nameTooLong
  else d.follow (if text.head? == some '/' then [] else d.working) (Path.components text)

/-- The bytes of a file. -/
def read (d : Directory) (path : Path) : Except FileError (List UInt8) :=
  match d.find path with
  | .error e => .error e
  | .ok (.file _ bytes) => .ok bytes
  | .ok (.folder _) => .error .isAFolder
  | .ok (.nothing _) => .error .notFound

/-- The place at which a file would be written. -/
def place (d : Directory) (path : Path) : Except FileError Spot :=
  match d.find path with
  | .error e => .error e
  | .ok (.file spot _) => .ok spot
  | .ok (.folder _) => .error .isAFolder
  | .ok (.nothing spot) => .ok spot

/-- Whether the text that was typed leads to a file. -/
def isFile (d : Directory) (text : List Char) : Bool :=
  match d.findTyped text with
  | .ok (.file ..) => true
  | _ => false

/-- Whether the text that was typed leads to a folder. -/
def isFolder (d : Directory) (text : List Char) : Bool :=
  match d.findTyped text with
  | .ok (.folder _) => true
  | _ => false

/-- The directory with a file written at a place. -/
def write (d : Directory) (spot : Spot) (bytes : List UInt8) : Directory :=
  { d with entries := (spot, .file bytes) :: d.entries }

/-- The files that were written since the directory was another one. -/
def writtenSince (d before : Directory) : List (Spot × Entry) :=
  d.entries.take (d.entries.length - before.entries.length)

/-- A directory as a file system. -/
def files : FileSystem Directory where
  read d path :=
    match d.read path with
    | .error e => .error (e.toHost path)
    | .ok bytes => .ok bytes
  write d path bytes :=
    match d.place path with
    | .error e => (some (e.toHost path), d)
    | .ok spot => (none, d.write spot bytes)

end Directory

end TapeBasic
