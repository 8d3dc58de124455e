import TapeBasic.Powers

/-!
# How large a thing can be

Places in a text and sizes of a text are signed words of 64 bits, and what is made has to fit into the
memory. A place or a size beyond that is refused before anything is made.
-/
namespace TapeBasic

/-- Why something is too large to be made. -/
inductive TooLarge where
  /-- Its size or its place is no word. -/
  | noAddress
  /-- It does not fit into the memory. -/
  | noMemory
deriving DecidableEq, Repr

/-- Whether a place or a size is a word of 64 bits. -/
def isAddress (n : Int) : Bool := -(twoTo 63 : Nat) ≤ n && n < (twoTo 63 : Nat)

/-- The size of the memory in bytes. -/
def memorySize : Nat := twoTo 32

/-- Refuses a size that is no word or that does not fit into the memory. -/
def checkSize (n : Int) : Except TooLarge Unit :=
  if !isAddress n then .error .noAddress
  else if (memorySize : Int) < n then .error .noMemory
  else .ok ()

/-- The text from a place on; a place in front of the text is its start. -/
def textFrom (text : List Char) (place : Int) : Except TooLarge (List Char) :=
  if isAddress place then .ok (text.drop place.toNat) else .error .noAddress

end TapeBasic
