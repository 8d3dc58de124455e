import TapeBasic.Command
import TapeBasic.Session.Request
import TapeBasic.Session.Sheet

/-!
# Sessions

A session is one host on which commands can be carried out: a directory, a terminal and sheets of pixels.
-/
namespace TapeBasic.Session

/-- The host of a session. -/
def host : Host Directory Terminal Sheet where
  files := Directory.files
  console := Terminal.console
  painter := some Sheet.painter
  arguments

end TapeBasic.Session
