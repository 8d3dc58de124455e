import TapeBasic.Text.Fold
import TapeBasic.Text.Letter
import TapeBasic.Token

/-!
# Reading spellings back as tokens (`build_grammar`, `Grammar.lookup`)

A grammar is a table of spellings. At a place in a text it reads the longest spelling that is written
there, in letters of either case.

* A space at the end of a spelling stands for any spacing; in the spellings that may end a line, for
  any blank.
* A spelling of letters, such as `RND`, is only read where no letter or digit follows.
* Spellings that differ in one last character only are a choice of that character, in which capitals
  beyond the first 65536 code points are never met.
* `Grammar.width?` finds the longest match, `Grammar.lookup` its token.
-/
namespace TapeBasic

/-! ## Patterns -/

/-- What must follow the letters of a spelling. -/
inductive Ending where
  /-- Any blank, which belongs to the match. -/
  | blank
  /-- A space or a tab, which belongs to the match. -/
  | spacing
  /-- Neither a letter nor a digit. -/
  | wordEnd
  /-- Anything. -/
  | free
deriving DecidableEq, Repr

/-- A spelling as it may appear in a text. -/
structure Pattern where
  letters : List Char
  ending : Ending
deriving DecidableEq, Repr

namespace Pattern

/-- The pattern of a spelling; `allow` holds the spellings whose last space may be a line end
(`_symbol_pattern`). -/
def ofSymbol (allow : List (List Char)) (symbol : List Char) : Pattern :=
  if 1 < symbol.length then
    if symbol.getLast? == some ' ' then
      ⟨symbol.dropLast, if allow.contains symbol then .blank else .spacing⟩
    else if symbol.head?.any Text.isLetter && symbol.getLast?.any Text.isLetterOrNumber then
      ⟨symbol, .wordEnd⟩
    else ⟨symbol, .free⟩
  else ⟨symbol, .free⟩

/-- The number of characters that a match takes. -/
def width (p : Pattern) : Nat :=
  match p.ending with
  | .blank => p.letters.length + 1
  | .spacing => p.letters.length + 1
  | .wordEnd => p.letters.length
  | .free => p.letters.length

/-- Whether the ending agrees with the text after the letters. -/
def endsAt (ending : Ending) (after : List Char) : Bool :=
  match ending with
  | .blank => after.head?.any Text.isBlank
  | .spacing => after.head?.any Text.isSpacing
  | .wordEnd => !after.head?.any Text.isLatinLetterOrDigit
  | .free => true

/-- Whether the text starts with a match. -/
def accepts (p : Pattern) (text : List Char) : Bool :=
  Text.startsWithLetters p.letters text && endsAt p.ending (text.drop p.letters.length)

/-- The letters in front of the last character of a match, if every match ends in one character that the
pattern itself names. -/
def front? (p : Pattern) : Option (List Char) :=
  match p.ending with
  | .blank => some p.letters
  | .spacing => some p.letters
  | .wordEnd => none
  | .free => if p.letters.isEmpty then none else some p.letters.dropLast

/-- Whether several patterns differ in their last character only, so that they are a choice of one
character behind common letters. -/
def isCharacterChoice : List Pattern → Bool
  | [] => false
  | p :: others =>
    others.any (· != p) && p.front?.isSome && others.all fun q => q.front? == p.front?

/-- Whether the last letter is a capital beyond the first 65536 code points. -/
def endsInWideCapital (p : Pattern) : Bool :=
  p.ending == .free && p.letters.getLast?.any fun c => 0xFFFF < c.toNat && Text.small c != c

/-- The patterns that a text can meet. A choice of one character looks for the small form of what is
written, and the forms it looks for are small ones only up to code point 65535: a capital beyond is never
met. -/
def reachable (patterns : List Pattern) : List Pattern :=
  if isCharacterChoice patterns then patterns.filter (!·.endsInWideCapital) else patterns

/-- The length of the longest match at the start of the text (`Grammar.pattern`). A choice of no
patterns at all is met by the empty text. -/
def longest? (patterns : List Pattern) (text : List Char) : Option Nat :=
  if patterns.isEmpty then some 0
  else (((reachable patterns).filter (·.accepts text)).map width).max?

end Pattern

/-! ## Grammars -/

/-- Where a text stands decides how it is read (`LexContext`). -/
inductive Context where
  /-- Statement text: keywords are read from their spelling. -/
  | statement
  /-- The rest of a remark: letters stand for themselves. -/
  | remark
  /-- A string: as in a remark. -/
  | quotation
deriving DecidableEq, Repr

/-- The spellings whose last space may be a line end (`TOKENS_ALLOWING_TRAILING_NEWLINE`). The
others would merge with the next token if a line end stood for their space. -/
def lineEndingSymbols : List (List Char) :=
  [ "\\' ", "\\. ", "\\: ", "LPRINT ", "LLIST ", "STOP ", "SLOW ", "FAST ", "NEW ", "SCROLL ",
    "CONT ", "REM ", "LIST ", "PRINT ", "RUN ", "RAND ", "CLS ", "CLEAR ", "RETURN ",
    "COPY " ].map String.toList

/-- A table of spellings and their patterns. -/
structure Grammar where
  symbols : List (List Char × UInt8)
  patterns : List Pattern

namespace Grammar

/-- The grammar of a table of spellings (`build_grammar`). -/
def ofSymbols (symbols : List (List Char × UInt8)) : Grammar :=
  ⟨symbols, symbols.map fun symbol => Pattern.ofSymbol lineEndingSymbols symbol.1⟩

/-- All 256 tokens. -/
def allTokens : List UInt8 := (List.range 256).map UInt8.ofNat

/-- Statement text: every token by its spelling, ambiguous ones also in brackets (`_create_grammars`). -/
def statementSymbols : List (List Char × UInt8) :=
  allTokens.flatMap fun b =>
    if Token.isAmbiguous b then [(Token.text b, b), (Token.bracketed b, b)] else [(Token.text b, b)]

/-- Remarks and strings: ambiguous tokens only in brackets (`_create_grammars`). -/
def remarkSymbols : List (List Char × UInt8) :=
  allTokens.map fun b => (if Token.isAmbiguous b then Token.bracketed b else Token.text b, b)

/-- The grammar of statement text (`NORMAL_GRAMMAR`). -/
def statement : Grammar := ofSymbols statementSymbols

/-- The grammar of remarks and strings (`REM_GRAMMAR`). -/
def remark : Grammar := ofSymbols remarkSymbols

/-- The grammar of a context (`grammar_for`). -/
def ofContext : Context → Grammar
  | .statement => statement
  | .remark => remark
  | .quotation => remark

/-- The length of the longest spelling at the start of the text. -/
def width? (g : Grammar) (text : List Char) : Option Nat := Pattern.longest? g.patterns text

/-- The token with exactly this spelling. -/
def find? (g : Grammar) (symbol : List Char) : Option UInt8 := g.symbols.lookup symbol

/-- Why a text is no spelling. -/
inductive Missing where
  | emptyText
  | unknownSymbol
deriving DecidableEq, Repr

/-- A blank at the start or at the end of the text as a space. -/
def normalise (text : List Char) : List Char :=
  let toSpace (c : Char) : Char := if Text.isBlank c then ' ' else c
  let fixLast : List Char := text.dropLast ++ (text.getLast?.map toSpace).toList
  match fixLast with
  | [] => []
  | first :: rest => toSpace first :: rest

/-- The token of a matched text, whatever its case and whichever blanks stand at its ends (`Grammar.lookup`). -/
def lookup (g : Grammar) (text : List Char) : Except Missing UInt8 :=
  if text.isEmpty then .error .emptyText
  else
    match g.find? (Text.upper (normalise text)) with
    | some b => .ok b
    | none => .error .unknownSymbol

end Grammar

/-- The token of a single character, in either case (`char_token`). -/
def Token.ofCharacter? (character : List Char) : Option UInt8 :=
  Grammar.statement.find? (Text.upper character)

end TapeBasic
