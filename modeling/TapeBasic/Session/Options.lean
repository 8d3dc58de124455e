/-!
# Options and words

Arguments are options and words. A long option starts with two dashes and may have its value behind an
equals sign; short options start with one dash and may be joined, and the last of them may have its
value right behind it. Otherwise the value of an option is the next argument, whatever it is. Two
dashes alone end the options.
-/
namespace TapeBasic.Options

/-- An option that a command knows. -/
structure OptionRule (κ : Type) where
  option : κ
  /-- The letter behind one dash. -/
  short : Option Char
  /-- The name with its two dashes. -/
  long : String
  takesValue : Bool

/-- The options and words of an argument list, in their order. Flags have an empty value. -/
structure Parsed (κ : Type) where
  options : List (κ × List Char) := []
  words : List (List Char) := []

variable {κ : Type}

/-- What one argument says: options, of which the last may still lack its value. -/
inductive Reading (κ : Type) where
  | complete (options : List (κ × List Char))
  | needsValue (options : List (κ × List Char)) (last : κ)

/-- Reads joined short options, without their dash. -/
def readShort (rules : List (OptionRule κ)) : List Char → Option (Reading κ)
  | [] => some (.complete [])
  | letter :: rest =>
    match rules.find? fun rule => rule.short == some letter with
    | none => none
    | some rule =>
      if rule.takesValue then
        if rest.isEmpty then some (.needsValue [] rule.option)
        else some (.complete [(rule.option, rest)])
      else
        match readShort rules rest with
        | none => none
        | some (.complete options) => some (.complete ((rule.option, []) :: options))
        | some (.needsValue options last) => some (.needsValue ((rule.option, []) :: options) last)

/-- Reads a long option: its name with the dashes, and the value behind an equals sign. -/
def readLong (rules : List (OptionRule κ)) (arg : List Char) : Option (Reading κ) :=
  let name := arg.takeWhile (· != '=')
  match rules.find? fun rule => rule.long.toList == name with
  | none => none
  | some rule =>
    match rule.takesValue, arg.drop name.length with
    | true, [] => some (.needsValue [] rule.option)
    | true, _ :: value => some (.complete [(rule.option, value)])
    | false, [] => some (.complete [(rule.option, [])])
    | false, _ => none

/-- Whether an argument is an option. -/
def isOption (arg : List Char) : Bool := arg.head? == some '-' && 1 < arg.length

/-- Reads an argument that is an option. -/
def readOption (rules : List (OptionRule κ)) (arg : List Char) : Option (Reading κ) :=
  if ['-', '-'].isPrefixOf arg then readLong rules arg else readShort rules (arg.drop 1)

/-- Reads an argument list. `none` stands for an unknown option, or one with a value too few or too
many. With `wordsEndOptions`, everything from the first word on is a word. -/
def parse (rules : List (OptionRule κ)) (wordsEndOptions : Bool) (args : List (List Char))
    (done : Parsed κ) : Option (Parsed κ) :=
  match args with
  | [] => some done
  | arg :: rest =>
    if arg == ['-', '-'] then some { done with words := done.words ++ rest }
    else if isOption arg then
      match readOption rules arg with
      | none => none
      | some (.complete options) =>
        parse rules wordsEndOptions rest { done with options := done.options ++ options }
      | some (.needsValue options last) =>
        match rest with
        | [] => none
        | value :: rest =>
          parse rules wordsEndOptions rest
            { done with options := done.options ++ options ++ [(last, value)] }
    else if wordsEndOptions then some { done with words := done.words ++ arg :: rest }
    else parse rules wordsEndOptions rest { done with words := done.words ++ [arg] }
termination_by args.length

variable [DecidableEq κ]

/-- The value of the last occurrence of an option. -/
def Parsed.value? (p : Parsed κ) (option : κ) : Option (List Char) :=
  (p.options.reverse.find? (·.1 == option)).map (·.2)

/-- Whether an option occurs. -/
def Parsed.has (p : Parsed κ) (option : κ) : Bool := p.options.any (·.1 == option)

end TapeBasic.Options
