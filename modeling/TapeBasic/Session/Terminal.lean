import TapeBasic.Host
import TapeBasic.Text.Plain

/-!
# Terminals

A simple console that takes everything: texts for the user as plain text, the log as it is.
-/
namespace TapeBasic

/-- What a terminal has shown, the latest first. -/
structure Terminal where
  shown : List (Channel × List Char) := []

namespace Terminal

/-- The terminal with a text shown. -/
def add (t : Terminal) (channel : Channel) (text : List Char) : Terminal := ⟨(channel, text) :: t.shown⟩

/-- All that a terminal has shown on a channel. -/
def text (t : Terminal) (channel : Channel) : List Char :=
  t.shown.reverse.flatMap fun (other, text) => if other = channel then text else []

/-- A terminal as a console. -/
def console : Console Terminal where
  print t channel text := (none, t.add channel (Text.plain text))
  log t text := t.add .err (text ++ ['\n'])
  trace t _ := (none, t)

end Terminal

end TapeBasic
