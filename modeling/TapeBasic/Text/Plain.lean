/-!
# Plain text

What the tool prints is plain: control sequences, by which a terminal changes colours or moves its
cursor, are left out. A control sequence is the escape character, an opening bracket, a row of
parameters, a row of intermediate characters and one final character. The three classes are apart from
each other, so a text has at most one way to be read as a sequence, and none of them holds the escape
character, so every escape character of a text is judged by what stands between it and the next one.
-/
namespace TapeBasic.Text

/-- The character that opens a control sequence. -/
def escapeCharacter : Char := '\x1b'

/-- A parameter of a control sequence: a digit or a mark of punctuation next to the digits. -/
def isParameter (c : Char) : Bool := '0' ≤ c && c ≤ '?'

/-- A character between the parameters and the end of a control sequence. -/
def isIntermediate (c : Char) : Bool := ' ' ≤ c && c ≤ '/'

/-- The last character of a control sequence. -/
def isFinal (c : Char) : Bool := '@' ≤ c && c ≤ '~'

/-- What follows the control sequence whose escape character stands right in front of the text; `none`
if there is no complete sequence. -/
def afterSequence? : List Char → Option (List Char)
  | '[' :: body =>
    match (body.dropWhile isParameter).dropWhile isIntermediate with
    | [] => none
    | last :: rest => if isFinal last then some rest else none
  | _ => none

/-- The text behind an escape character as it is printed. An escape character that opens no sequence
stays. -/
def plainBehindEscape (text : List Char) : List Char :=
  (afterSequence? text).getD (escapeCharacter :: text)

/-- The text without its control sequences. What is left is not searched again. -/
def plain (text : List Char) : List Char :=
  match text.splitOn escapeCharacter with
  | [] => []
  | first :: others => first ++ others.flatMap plainBehindEscape

/-- A text without escape characters is plain already. -/
theorem plain_eq_self {text : List Char} (h : escapeCharacter ∉ text) : plain text = text := by
  simp [plain, List.splitOn_eq_singleton h]

end TapeBasic.Text
