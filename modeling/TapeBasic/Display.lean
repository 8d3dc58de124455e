import TapeBasic.Token

/-!
# The display file (`create_dfile`)

The screen is 24 rows of 32 characters. In memory it is a line end followed by the rows, each with a
line end behind it. Rows are filled up with spaces, or, in a collapsed display file, stored without.
-/
namespace TapeBasic.Display

/-- The number of rows of the screen (`DFILE_ROWS`). -/
def rowCount : Nat := 24

/-- The number of characters of a row (`DFILE_COLUMNS`). -/
def columnCount : Nat := 32

/-- The size of a display file with full rows (`DFILE_EXPANDED_SIZE`). -/
def expandedSize : Nat := 1 + rowCount * (columnCount + 1)

/-- A row as it is stored: cut to the width of the screen, filled up unless collapsed, and ended. -/
def storedRow (collapsed : Bool) (row : List UInt8) : List UInt8 :=
  let cut := row.take columnCount
  let filler := if collapsed then [] else List.replicate (columnCount - cut.length) Token.space
  cut ++ filler ++ [Token.lineEnd]

/-- The display file of some rows; rows beyond the last of the screen are dropped, missing rows are
empty (`create_dfile`). -/
def file (rows : List (List UInt8)) (collapsed : Bool) : List UInt8 :=
  let all := rows.take rowCount ++ List.replicate (rowCount - rows.length) []
  Token.lineEnd :: all.flatMap (storedRow collapsed)

/-- The parts of a row of bytes between the line ends; a row without line ends is one part. -/
def splitRows (bytes : List UInt8) : List (List UInt8) := bytes.splitOn Token.lineEnd

end TapeBasic.Display
