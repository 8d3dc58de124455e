import TapeBasic.Text.Case
import TapeBasic.Text.Quoted

/-!
# Paths

A path is a row of names behind a root or none. Empty names and single dots are dropped, double dots
are kept. A root of exactly two slashes differs from one of one slash; more are one.
-/
namespace TapeBasic

/-- A path. -/
structure Path where
  root : List Char
  names : List (List Char)
deriving DecidableEq, Repr

namespace Path

/-- The parts of a text between slashes. -/
def components (text : List Char) : List (List Char) := text.splitOn '/'

/-- The path that a text spells. -/
def ofText (text : List Char) : Path :=
  let slashes := Text.countWhile (· == '/') text
  let root := if slashes == 2 then ['/', '/'] else if slashes == 0 then [] else ['/']
  ⟨root, (components text).filter fun name => !name.isEmpty && name != ['.']⟩

/-- The text of a path; an empty path is a dot. -/
def text (p : Path) : List Char :=
  match p.root ++ List.intercalate ['/'] p.names with
  | [] => ['.']
  | text => text

/-- The other path seen from this one; a path with a root stays as it is. -/
def join (p other : Path) : Path :=
  if other.root.isEmpty then ⟨p.root, p.names ++ other.names⟩ else other

/-- The path without its last name. -/
def parent (p : Path) : Path := ⟨p.root, p.names.dropLast⟩

/-- The last name. -/
def name (p : Path) : List Char := p.names.getLast?.getD []

/-- The length of the ending of a name: from its last point, which neither starts nor ends the name. -/
def endingLength (name : List Char) : Nat :=
  let behind := Text.countWhile (· != '.') name.reverse
  if 0 < behind && behind + 1 < name.length then behind + 1 else 0

/-- The ending of the last name with its point; empty if there is none. -/
def ending (p : Path) : List Char := p.name.drop (p.name.length - endingLength p.name)

/-- The last name without its ending. -/
def stem (p : Path) : List Char := p.name.take (p.name.length - endingLength p.name)

/-- The path with another ending. -/
def withEnding (p : Path) (ending : List Char) : Path :=
  ⟨p.root, p.names.dropLast ++ [p.stem ++ ending]⟩

/-- Whether the last name has this ending, in either case. -/
def hasEnding (p : Path) (ending : List Char) : Bool := Text.lower p.ending == ending

end Path

end TapeBasic
