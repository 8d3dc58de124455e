import TapeBasic.Path
import TapeBasic.Text.Numeral

/-!
# Settings from the environment (`CodecConfig`)

Four variables of the environment change the defaults of a command. A value that makes no sense is
ignored, as is an empty one.
-/
namespace TapeBasic

/-- What the environment can set (`CodecConfig`). -/
structure Settings where
  /-- The folder from which included files are read; the folder of the listing if there is none. -/
  includeFolder : Option Path := none
  bracketed : Bool := false
  bytesPerLine : Int := 20
  scale : Int := 2

namespace Settings

/-- The variables of the environment. -/
abbrev Environment := List (List Char × List Char)

/-- The value of a variable that is set and not empty. -/
def value? (env : Environment) (name : String) : Option (List Char) :=
  (env.lookup name.toList).filter (!·.isEmpty)

/-- The words that mean yes (`_TRUE_VALUES`). -/
def yesWords : List (List Char) := ["1", "true", "yes", "on"].map String.toList

/-- The whole number in a variable, if it has one that is acceptable. -/
def number? (env : Environment) (name : String) (accepts : Int → Bool) : Option Int :=
  ((value? env name).bind Text.integer?).filter accepts

/-- The least and the greatest scale of a picture. -/
def isScale (n : Int) : Bool := 1 ≤ n && n ≤ 8

/-- The settings of an environment (`from_env`). -/
def ofEnvironment (env : Environment) : Settings where
  includeFolder := (value? env "ZX81_INCLUDE_DIR").map Path.ofText
  bracketed := (value? env "ZX81_BRACKETIZED").any fun text =>
    yesWords.contains (Text.lower (Text.trim text))
  bytesPerLine := (number? env "ZX81_VARS_PER_LINE" (0 < ·)).getD 20
  scale := (number? env "ZX81_SCREEN_SCALE" isScale).getD 2

end Settings

end TapeBasic
