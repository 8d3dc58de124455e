import TapeBasic.Path

/-!
# The host

A command works on a host. The host is a parameter of the commands: a file system and a console are known by their
operations only, each of which may fail and may change what the host keeps of itself. Files and console are kept apart,
so printing changes no file, and reading a file changes nothing at all.

* `FileSystem φ`: files are read and written; `φ` is all that the file system keeps.
* `Console κ`: texts are printed and lines are logged; `κ` is all that the console keeps.
-/
namespace TapeBasic

/-- What an error of the host says about whose fault it is. -/
inductive HostError.Kind where
  /-- There is no such file or folder. -/
  | notFound
  /-- The user may not do this. -/
  | notPermitted
  /-- Anything else. -/
  | other
deriving DecidableEq, Repr

/-- An error of the host. -/
structure HostError where
  kind : HostError.Kind
  message : List Char
deriving DecidableEq, Repr

/-- A file system. -/
structure FileSystem (φ : Type) where
  /-- The bytes of a file (`read_bytes`). -/
  read : φ → Path → Except HostError (List UInt8)
  /-- Writes a file (`write_bytes`). A write that fails may have changed the file all the same. -/
  write : φ → Path → List UInt8 → Option HostError × φ

/-- Where a text is printed. -/
inductive Channel where
  | out
  | err
deriving DecidableEq, Repr

/-- A console. -/
structure Console (κ : Type) where
  /-- Prints a text (`click.echo`). -/
  print : κ → Channel → List Char → Option HostError × κ
  /-- Adds a line to the log. What goes wrong with the log stops nothing. -/
  log : κ → List Char → κ
  /-- Prints where the error with this message has come from (`print_exc`). -/
  trace : κ → List Char → Option HostError × κ

end TapeBasic
