import TapeBasic.Proofs.AsciiSpellings
import TapeBasic.Proofs.PairedReading

/-!
# Letters in either case

What a reader asks about the characters of a text has the same answer for a letter from a to z and for its capital. So
a text and its capitals are made of the same gaps, tokens, literals and codes, and a keyword or a name that is found
in one of them is found in the other. Only the path of a file keeps its letters as they are.

* `Text.inCapitals`: the text with capitals for its letters from a to z.
* `Text.Caseless f`: what `f` says of a character it says of its capital.

Results:
* `Grammar.read?_inCapitals`, `Literal.read?_inCapitals`, `SpecialCode.scan?_inCapitals`: single pieces.
* `Directive.head_inCapitals`, `Directive.marked?_inCapitals`, `Directive.nameWidth_inCapitals`: parts of a directive.
* `SystemVariables.Field.find_inCapitals`: a name in capitals names the same field.
-/
namespace TapeBasic

/-! ## Characters -/

namespace Text

variable {α : Type}

/-- The text with capitals for its letters from a to z. -/
def inCapitals (text : List Char) : List Char := text.map Char.toUpper

/-- What is said of a character is said of its capital. -/
def Caseless (f : Char → α) : Prop := ∀ c : Char, f c.toUpper = f c

theorem toUpper_of_isAscii_eq_false {c : Char} (h : isAscii c = false) : c.toUpper = c := by
  have hc : ¬ c.toNat < 128 := of_decide_eq_false h
  unfold Char.toUpper
  rw [dif_neg]
  rintro ⟨-, hz⟩
  have : c.toNat ≤ 122 := hz
  omega

/-- It is enough to ask about the first 128 characters, for no other has a capital here. -/
theorem caseless_of_ascii {f : Char → α} (h : ∀ n < 128, f (Char.ofNat n).toUpper = f (Char.ofNat n)) :
    Caseless f := by
  intro c
  cases hc : isAscii c with
  | true => exact forall_ascii (P := fun c => f c.toUpper = f c) h hc
  | false => rw [toUpper_of_isAscii_eq_false hc]

theorem Caseless.comp {β : Type} {f : Char → α} (h : Caseless f) (g : α → β) : Caseless fun c => g (f c) :=
  fun c => congrArg g (h c)

theorem caseless_isBlank : Caseless isBlank := caseless_of_ascii (by decide)

theorem caseless_isSpacing : Caseless isSpacing := caseless_of_ascii (by decide)

theorem caseless_decimalValue? : Caseless decimalValue? := caseless_of_ascii (by decide)

theorem caseless_isDecimal : Caseless isDecimal := caseless_decimalValue?.comp Option.isSome

theorem caseless_isDigit : Caseless isDigit := caseless_of_ascii (by decide +kernel)

theorem caseless_hexValue? : Caseless hexValue? := caseless_of_ascii (by decide)

theorem caseless_isHexDigit : Caseless isHexDigit := caseless_hexValue?.comp Option.isSome

theorem caseless_small : Caseless small := caseless_of_ascii (by decide)

theorem caseless_fold : Caseless fold := caseless_of_ascii (by decide)

theorem caseless_capital : Caseless capital := caseless_of_ascii (by decide)

theorem caseless_isCased : Caseless isCased := caseless_of_ascii (by decide)

theorem caseless_isTransparent : Caseless isTransparent := caseless_of_ascii (by decide)

theorem caseless_isLatinLetter : Caseless isLatinLetter := caseless_fold.comp Char.isLower

theorem caseless_isLatinLetterOrDigit : Caseless isLatinLetterOrDigit := fun c =>
  congrArg₂ or (caseless_isLatinLetter c) (caseless_of_ascii (f := Char.isDigit) (by decide) c)

theorem caseless_isWordCharacter : Caseless isWordCharacter := caseless_of_ascii (by decide +kernel)

/-- A character that is no small letter is the capital of itself alone, unless it is a capital. -/
theorem toUpper_eq_iff {c x : Char} (hx : x.isAlpha = false) : c.toUpper = x ↔ c = x := by
  have hclass : c.toUpper.isAlpha = c.isAlpha := caseless_of_ascii (f := Char.isAlpha) (by decide) c
  have hother : ∀ c : Char, c.isAlpha = false → c.toUpper = c := by
    intro c
    cases hc : isAscii c with
    | true => exact forall_ascii (P := fun c => c.isAlpha = false → c.toUpper = c) (by decide) hc
    | false => exact fun _ => toUpper_of_isAscii_eq_false hc
  constructor
  · rintro rfl
    exact (hother c (hclass ▸ hx)).symm
  · rintro rfl
    exact hother c hx

theorem caseless_beq {x : Char} (hx : x.isAlpha = false) : Caseless (· == x) := by
  intro c
  rw [Bool.eq_iff_iff, beq_iff_eq, beq_iff_eq, toUpper_eq_iff hx]

theorem caseless_bne {x : Char} (hx : x.isAlpha = false) : Caseless (· != x) := (caseless_beq hx).comp (!·)

/-! ## Texts -/

theorem inCapitals_cons (c : Char) (text : List Char) : inCapitals (c :: text) = c.toUpper :: inCapitals text := rfl

@[simp] theorem length_inCapitals (text : List Char) : (inCapitals text).length = text.length := List.length_map _

@[simp] theorem isEmpty_inCapitals (text : List Char) : (inCapitals text).isEmpty = text.isEmpty :=
  List.isEmpty_map

theorem drop_inCapitals (text : List Char) (n : Nat) : (inCapitals text).drop n = inCapitals (text.drop n) :=
  List.map_drop.symm

theorem take_inCapitals (text : List Char) (n : Nat) : (inCapitals text).take n = inCapitals (text.take n) :=
  List.map_take.symm

theorem inCapitals_eq_self {text : List Char} (h : ∀ c ∈ text, c.toUpper = c) : inCapitals text = text := by
  rw [inCapitals, List.map_congr_left h, List.map_id']

section Caseless

variable {p : Char → Bool} (hp : Caseless p)

include hp

theorem takeWhile_inCapitals (text : List Char) :
    (inCapitals text).takeWhile p = inCapitals (text.takeWhile p) := by
  rw [inCapitals, List.takeWhile_map, show p ∘ Char.toUpper = p from funext hp, inCapitals]

theorem dropWhile_inCapitals (text : List Char) :
    (inCapitals text).dropWhile p = inCapitals (text.dropWhile p) := by
  rw [inCapitals, List.dropWhile_map, show p ∘ Char.toUpper = p from funext hp, inCapitals]

theorem countWhile_inCapitals (text : List Char) : countWhile p (inCapitals text) = countWhile p text := by
  rw [countWhile, takeWhile_inCapitals hp, length_inCapitals, countWhile]

theorem any_head?_inCapitals (text : List Char) : (inCapitals text).head?.any p = text.head?.any p := by
  cases text with
  | nil => rfl
  | cons c text => exact hp c

theorem all_inCapitals (text : List Char) : (inCapitals text).all p = text.all p := by
  rw [inCapitals, List.all_map, show p ∘ Char.toUpper = p from funext hp]

end Caseless

theorem head?_inCapitals_beq {x : Char} (hx : x.isAlpha = false) (text : List Char) :
    ((inCapitals text).head? == some x) = (text.head? == some x) := by
  cases text with
  | nil => rfl
  | cons c text => exact caseless_beq hx c

theorem getLast?_inCapitals_beq {x : Char} (hx : x.isAlpha = false) (text : List Char) :
    ((inCapitals text).getLast? == some x) = (text.getLast? == some x) := by
  rw [inCapitals, List.getLast?_map]
  cases text.getLast? with
  | none => rfl
  | some c => exact caseless_beq hx c

theorem trimRight_inCapitals (text : List Char) : trimRight (inCapitals text) = inCapitals (trimRight text) := by
  rw [trimRight, inCapitals, ← List.map_reverse, ← inCapitals, dropWhile_inCapitals caseless_isBlank, inCapitals,
    ← List.map_reverse, ← inCapitals, trimRight]

theorem trim_inCapitals (text : List Char) : trim (inCapitals text) = inCapitals (trim text) := by
  rw [trim, dropWhile_inCapitals caseless_isBlank, trimRight_inCapitals, trim]

theorem upper_inCapitals (text : List Char) : upper (inCapitals text) = upper text := by
  rw [upper, inCapitals, List.flatMap_map]
  exact List.flatMap_congr fun c _ => caseless_capital c

/-- Small letters of a text do not depend on the case of its letters. -/
theorem lower_inCapitals (text : List Char) : lower (inCapitals text) = lower text := by
  have hnext : ∀ text : List Char, nextIsCased (inCapitals text) = nextIsCased text := by
    intro text
    rw [nextIsCased, dropWhile_inCapitals caseless_isTransparent, any_head?_inCapitals caseless_isCased, nextIsCased]
  have hsigma : ∀ c : Char, (c.toUpper.toNat == 0x3A3) = (c.toNat == 0x3A3) :=
    caseless_of_ascii (f := fun c => c.toNat == 0x3A3) (by decide)
  have hdotted : ∀ c : Char, (c.toUpper.toNat == 0x130) = (c.toNat == 0x130) :=
    caseless_of_ascii (f := fun c => c.toNat == 0x130) (by decide)
  have hgo : ∀ before, lowerAfter (inCapitals before) (inCapitals text) = lowerAfter before text := by
    induction text with
    | nil => exact fun _ => rfl
    | cons c text ih =>
      intro before
      have hrest := ih (c :: before)
      rw [inCapitals_cons] at hrest ⊢
      rw [lowerAfter, lowerAfter, hrest, hsigma c, hdotted c, caseless_small c, hnext before, hnext text]
  exact hgo []

theorem sameLetter_toUpper (a c : Char) : sameLetter a c.toUpper = sameLetter a c := by
  rw [sameLetter, caseless_fold c, sameLetter]

theorem startsWithLetters_inCapitals (word text : List Char) :
    startsWithLetters word (inCapitals text) = startsWithLetters word text := by
  induction word generalizing text with
  | nil => rfl
  | cons a word ih =>
    cases text with
    | nil => rfl
    | cons c text => rw [inCapitals_cons, startsWithLetters, startsWithLetters, sameLetter_toUpper, ih]

theorem digits_inCapitals (text : List Char) : (inCapitals text).takeWhile isDecimal = text.takeWhile isDecimal := by
  have hown : ∀ c, isDecimal c = true → c.toUpper = c := by
    intro c
    cases hc : isAscii c with
    | true => exact forall_ascii (P := fun c => isDecimal c = true → c.toUpper = c) (by decide) hc
    | false => exact fun _ => toUpper_of_isAscii_eq_false hc
  rw [takeWhile_inCapitals caseless_isDecimal]
  exact inCapitals_eq_self fun c hc => hown c (List.all_eq_true.mp List.all_takeWhile c hc)

theorem hexDigitsValue_inCapitals (digits : List Char) :
    hexDigitsValue (inCapitals digits) = hexDigitsValue digits := by
  rw [hexDigitsValue, inCapitals, List.foldl_map, hexDigitsValue]
  exact List.foldl_ext _ _ _ fun value c _ => by rw [caseless_hexValue? c]

end Text

open Text (inCapitals)

/-! ## Gaps -/

namespace Cursor

theorem continuationWidth_inCapitals (text : List Char) :
    continuationWidth (inCapitals text) = continuationWidth text := by
  cases text with
  | nil => rfl
  | cons c text =>
    rw [Text.inCapitals_cons]
    by_cases hc : c = '\\'
    · subst hc
      rw [show '\\'.toUpper = '\\' by decide, continuationWidth, continuationWidth,
        Text.countWhile_inCapitals Text.caseless_isSpacing, Text.drop_inCapitals,
        Text.head?_inCapitals_beq (by decide)]
    · simp [continuationWidth, hc, Text.toUpper_eq_iff]

theorem commentWidth_inCapitals (text : List Char) : commentWidth (inCapitals text) = commentWidth text := by
  cases text with
  | nil => rfl
  | cons c text =>
    rw [Text.inCapitals_cons]
    by_cases hc : c = '#'
    · subst hc
      rw [show '#'.toUpper = '#' by decide, commentWidth, commentWidth,
        Text.countWhile_inCapitals (Text.caseless_bne (by decide)), Text.drop_inCapitals,
        Text.head?_inCapitals_beq (by decide), Text.isEmpty_inCapitals]
    · simp [commentWidth, hc, Text.toUpper_eq_iff]

theorem gapWidth_inCapitals (text : List Char) : gapWidth (inCapitals text) = gapWidth text := by
  rw [gapWidth, Text.countWhile_inCapitals Text.caseless_isBlank, continuationWidth_inCapitals,
    commentWidth_inCapitals, gapWidth]

theorem joined_inCapitals (text : List Char) :
    joinedSpacingWidth.joined (inCapitals text) = joinedSpacingWidth.joined text := by
  fun_induction joinedSpacingWidth.joined text with
  | case1 text hzero =>
    rw [joinedSpacingWidth.joined, dif_pos (by rw [continuationWidth_inCapitals, hzero])]
  | case2 text hne _ behind spacing ih =>
    rw [joinedSpacingWidth.joined, dif_neg (by rwa [continuationWidth_inCapitals])]
    dsimp only
    rw [continuationWidth_inCapitals, Text.drop_inCapitals, Text.countWhile_inCapitals Text.caseless_isSpacing,
      Text.drop_inCapitals, ih]

theorem joinedSpacingWidth_inCapitals (text : List Char) :
    joinedSpacingWidth (inCapitals text) = joinedSpacingWidth text := by
  rw [joinedSpacingWidth, Text.countWhile_inCapitals Text.caseless_isSpacing, Text.drop_inCapitals,
    joined_inCapitals, joinedSpacingWidth]

end Cursor

/-! ## Tokens -/

theorem Pattern.accepts_inCapitals (p : Pattern) (text : List Char) : p.accepts (inCapitals text) = p.accepts text := by
  have hend : ∀ (ending : Ending) (after : List Char), endsAt ending (inCapitals after) = endsAt ending after := by
    intro ending after
    cases ending with
    | blank => exact Text.any_head?_inCapitals Text.caseless_isBlank after
    | spacing => exact Text.any_head?_inCapitals Text.caseless_isSpacing after
    | wordEnd => exact congrArg (!·) (Text.any_head?_inCapitals Text.caseless_isLatinLetterOrDigit after)
    | free => rfl
  rw [accepts, Text.startsWithLetters_inCapitals, Text.drop_inCapitals, hend, accepts]

namespace Grammar

variable (g : Grammar)

theorem width?_inCapitals (text : List Char) : g.width? (inCapitals text) = g.width? text := by
  have haccepts : (fun p : Pattern => p.accepts (inCapitals text)) = fun p => p.accepts text :=
    funext fun p => p.accepts_inCapitals text
  rw [width?, Pattern.longest?, haccepts, width?, Pattern.longest?]

theorem normalise_inCapitals (text : List Char) : normalise (inCapitals text) = inCapitals (normalise text) := by
  have hspace : ∀ c : Char, (if Text.isBlank c.toUpper then ' ' else c.toUpper) =
      (if Text.isBlank c then ' ' else c).toUpper := by
    intro c
    rw [Text.caseless_isBlank c]
    split <;> rfl
  have hlast : ∀ last : Option Char, ((last.map Char.toUpper).map fun c => if Text.isBlank c then ' ' else c).toList =
      inCapitals (last.map fun c => if Text.isBlank c then ' ' else c).toList := by
    intro last
    cases last with
    | none => rfl
    | some c => exact congrArg (fun x => [x]) (hspace c)
  have hfix : (inCapitals text).dropLast ++ ((inCapitals text).getLast?.map fun c =>
      if Text.isBlank c then ' ' else c).toList =
        inCapitals (text.dropLast ++ (text.getLast?.map fun c => if Text.isBlank c then ' ' else c).toList) := by
    rw [inCapitals, List.getLast?_map, hlast, ← List.map_dropLast, inCapitals, inCapitals,
      ← List.map_append]
  unfold normalise
  dsimp only
  rw [hfix]
  cases text.dropLast ++ (text.getLast?.map fun c => if Text.isBlank c then ' ' else c).toList with
  | nil => rfl
  | cons first rest =>
    rw [Text.inCapitals_cons]
    dsimp only
    rw [hspace, Text.inCapitals_cons]

theorem lookup_inCapitals (text : List Char) : g.lookup (inCapitals text) = g.lookup text := by
  rw [lookup, Text.isEmpty_inCapitals, normalise_inCapitals, Text.upper_inCapitals, lookup]

end Grammar

theorem Token.ofCharacter?_toUpper (c : Char) : Token.ofCharacter? [c.toUpper] = Token.ofCharacter? [c] :=
  congrArg Grammar.statement.find? (Text.upper_inCapitals [c])

/-! ## Literals -/

theorem Literal.countsAs_toUpper (c : Char) : CountsAs c.toUpper c where
  value := Text.caseless_decimalValue? c
  point := Text.toUpper_eq_iff (by decide)
  plus := Text.toUpper_eq_iff (by decide)
  minus := Text.toUpper_eq_iff (by decide)
  letter := by rw [Text.sameLetter, Text.caseless_fold c, Text.sameLetter]

theorem Literal.width_inCapitals (text : List Char) : width (inCapitals text) = width text :=
  width_map fun c _ => countsAs_toUpper c

theorem Literal.value_inCapitals (literal : List Char) : value (inCapitals literal) = value literal :=
  value_map fun c _ => countsAs_toUpper c

theorem Literal.characters_inCapitals (literal : List Char) :
    ((inCapitals literal).mapM fun c => Token.ofCharacter? [c]) = literal.mapM fun c => Token.ofCharacter? [c] := by
  induction literal with
  | nil => rfl
  | cons c literal ih => rw [Text.inCapitals_cons, List.mapM_cons, List.mapM_cons, Token.ofCharacter?_toUpper, ih]

/-! ## Bracketed codes -/

namespace SpecialCode

/-- The code with the path of a file in capitals. -/
def inCapitals : SpecialCode → SpecialCode
  | .file path => .file (Text.inCapitals path)
  | code => code

/-- What is read behind the bracket is read in capitals, too: the code in capitals, of the same length. -/
def ReadsCapitals (read? : List Char → Option (SpecialCode × Nat)) : Prop :=
  ∀ text, read? (Text.inCapitals text) = (read? text).map fun x => (x.1.inCapitals, x.2)

theorem caseless_isInner : Text.Caseless isInner := fun c =>
  congrArg₂ and (Text.caseless_bne (by decide) c) (Text.caseless_bne (by decide) c)

theorem closingWidth?_inCapitals (text : List Char) : closingWidth? (Text.inCapitals text) = closingWidth? text := by
  rw [closingWidth?, Text.countWhile_inCapitals Text.caseless_isBlank, Text.drop_inCapitals,
    Text.head?_inCapitals_beq (by decide), closingWidth?]

theorem readsCapitals_comment? : ReadsCapitals comment? := by
  intro text
  cases text with
  | nil => rfl
  | cons c text =>
    rw [Text.inCapitals_cons]
    by_cases hc : c = '#'
    · subst hc
      rw [show '#'.toUpper = '#' by decide, comment?, comment?,
        Text.countWhile_inCapitals caseless_isInner, Text.drop_inCapitals, Text.head?_inCapitals_beq (by decide)]
      split <;> rfl
    · simp [comment?, hc, Text.toUpper_eq_iff]

theorem readsCapitals_byte? : ReadsCapitals byte? := by
  intro text
  rw [byte?, Text.digits_inCapitals, Text.drop_inCapitals, Text.head?_inCapitals_beq (by decide), byte?]
  split <;> rfl

theorem readsCapitals_blockSize? : ReadsCapitals blockSize? := by
  intro text
  rw [blockSize?, Text.countWhile_inCapitals Text.caseless_isBlank, Text.drop_inCapitals, blockSize?]
  dsimp only
  cases text.drop (Text.countWhile Text.isBlank text) with
  | nil => rfl
  | cons c rest =>
    rw [Text.inCapitals_cons]
    by_cases hc : c = '='
    · subst hc
      simp only [show '='.toUpper = '=' by decide, Text.countWhile_inCapitals Text.caseless_isBlank,
        Text.drop_inCapitals, Text.digits_inCapitals, closingWidth?_inCapitals]
      split
      · rfl
      · rw [Option.map_map]
        rfl
    · simp [hc, Text.toUpper_eq_iff]

theorem readsCapitals_filePath? : ReadsCapitals filePath? := by
  intro text
  have hgap : (Text.inCapitals text).takeWhile Text.isBlank = text.takeWhile Text.isBlank := by
    rw [Text.takeWhile_inCapitals Text.caseless_isBlank]
    refine Text.inCapitals_eq_self fun c hc => ?_
    have hblank := List.all_eq_true.mp List.all_takeWhile c hc
    cases hascii : Text.isAscii c with
    | true => exact (Text.toLower_of_isBlank hascii hblank).2
    | false => exact Text.toUpper_of_isAscii_eq_false hascii
  unfold filePath?
  dsimp only
  rw [hgap, Text.drop_inCapitals, Text.head?_inCapitals_beq (by decide), Text.takeWhile_inCapitals caseless_isInner,
    Text.length_inCapitals, Text.drop_inCapitals, closingWidth?_inCapitals, Text.trimRight_inCapitals]
  split
  · rfl
  · split
    · split <;> rfl
    · rw [Option.map_map]
      rfl

theorem readsCapitals_worded? (word : List Char) {tail? : List Char → Option (SpecialCode × Nat)}
    (h : ReadsCapitals tail?) : ReadsCapitals (worded? word tail?) := by
  intro text
  rw [worded?, Text.startsWithLetters_inCapitals, Text.drop_inCapitals, h, worded?]
  split
  · rw [Option.map_map, Option.map_map]
    rfl
  · rfl

theorem readsCapitals_orElse {read? other? : List Char → Option (SpecialCode × Nat)} (h : ReadsCapitals read?)
    (hother : ReadsCapitals other?) : ReadsCapitals fun text => read? text <|> other? text := by
  intro text
  dsimp only
  rw [h, hother]
  cases read? text <;> rfl

/-- **Codes.** A text in capitals starts with the same code, but for the letters of a path. -/
theorem scan?_inCapitals (text : List Char) :
    scan? (Text.inCapitals text) = (scan? text).map fun x => ⟨x.value.inCapitals, x.width, x.positive⟩ := by
  cases text with
  | nil => rfl
  | cons c text =>
    rw [Text.inCapitals_cons]
    by_cases hc : c = '['
    · subst hc
      have hfound := readsCapitals_orElse readsCapitals_comment? (readsCapitals_orElse readsCapitals_byte?
        (readsCapitals_orElse (readsCapitals_worded? blockWord readsCapitals_blockSize?)
          (readsCapitals_worded? fileWord readsCapitals_filePath?))) text
      dsimp only at hfound
      rw [show '['.toUpper = '[' by decide, scan?, scan?]
      dsimp only
      rw [hfound, Option.map_map, Option.map_map]
      rfl
    · simp [scan?, hc, Text.toUpper_eq_iff]

end SpecialCode

/-! ## Parts of a directive -/

namespace Directive

theorem marked?_inCapitals (text : List Char) : marked? (inCapitals text) = marked? text := by
  have hdigits : ∀ behind : List Char, (inCapitals behind).takeWhile Text.isHexDigit =
      inCapitals (behind.takeWhile Text.isHexDigit) := Text.takeWhile_inCapitals Text.caseless_isHexDigit
  cases text with
  | nil => rfl
  | cons c text =>
    by_cases hdollar : c = '$'
    · subst hdollar
      rw [Text.inCapitals_cons, show '$'.toUpper = '$' by decide, marked?, marked?]
      simp only [List.drop_succ_cons, List.drop_zero]
      rw [hdigits, Text.isEmpty_inCapitals, Text.hexDigitsValue_inCapitals, Text.length_inCapitals]
    · by_cases hzero : c = '0'
      · subst hzero
        cases text with
        | nil => rfl
        | cons x text =>
          have hmark : (x.toUpper == 'x' || x.toUpper == 'X') = (x == 'x' || x == 'X') :=
            Text.caseless_of_ascii (f := fun x => x == 'x' || x == 'X') (by decide) x
          rw [Text.inCapitals_cons, Text.inCapitals_cons, show '0'.toUpper = '0' by decide, marked?, marked?]
          simp only [List.drop_succ_cons, List.drop_zero]
          rw [hmark, hdigits, Text.isEmpty_inCapitals, Text.hexDigitsValue_inCapitals, Text.length_inCapitals]
      · rw [Text.inCapitals_cons]
        simp [marked?, hdollar, hzero, Text.toUpper_eq_iff]

theorem nameWidth_inCapitals (text : List Char) : nameWidth (inCapitals text) = nameWidth text := by
  have hfirst : Text.Caseless fun x => Text.isLatinLetter x || x == '_' := fun c =>
    congrArg₂ or (Text.caseless_isLatinLetter c) (Text.caseless_beq (by decide) c)
  have hnext : Text.Caseless fun x => Text.isLatinLetterOrDigit x || x == '_' := fun c =>
    congrArg₂ or (Text.caseless_isLatinLetterOrDigit c) (Text.caseless_beq (by decide) c)
  rw [nameWidth, Text.any_head?_inCapitals hfirst, Text.countWhile_inCapitals hnext,
    Text.countWhile_inCapitals Text.caseless_isDecimal, nameWidth]

theorem equalsWidth_inCapitals (text : List Char) : equalsWidth (inCapitals text) = equalsWidth text := by
  rw [equalsWidth, Text.countWhile_inCapitals Text.caseless_isSpacing, Text.drop_inCapitals, equalsWidth]
  cases text.drop (Text.countWhile Text.isSpacing text) with
  | nil => rfl
  | cons c rest =>
    rw [Text.inCapitals_cons]
    by_cases hc : c = '='
    · subst hc
      simp only [show '='.toUpper = '=' by decide, Text.countWhile_inCapitals Text.caseless_isSpacing]
    · simp [hc, Text.toUpper_eq_iff]

theorem startWidth?_inCapitals (text : List Char) : startWidth? (inCapitals text) = startWidth? text := by
  unfold startWidth?
  dsimp only
  rw [Text.startsWithLetters_inCapitals, Text.drop_inCapitals, Text.countWhile_inCapitals Text.caseless_isSpacing,
    Text.drop_inCapitals]
  split
  · generalize text.drop "basic-start".toList.length = behind
    cases behind.drop (Text.countWhile Text.isSpacing behind) with
    | nil => rfl
    | cons c rest =>
      rw [Text.inCapitals_cons]
      by_cases hc : c = '='
      · subst hc
        simp only [show '='.toUpper = '=' by decide, Text.countWhile_inCapitals Text.caseless_isSpacing]
      · simp [hc, Text.toUpper_eq_iff]
  · rfl

theorem colonWidth?_inCapitals (word : List Char) (takesSpacing : Bool) (text : List Char) :
    colonWidth? word takesSpacing (inCapitals text) = colonWidth? word takesSpacing text := by
  rw [colonWidth?, Text.startsWithLetters_inCapitals, Text.drop_inCapitals,
    Text.countWhile_inCapitals Text.caseless_isSpacing, colonWidth?]

theorem collapseWidth?_inCapitals (text : List Char) : collapseWidth? (inCapitals text) = collapseWidth? text := by
  rw [collapseWidth?, Text.startsWithLetters_inCapitals, Text.drop_inCapitals,
    Text.any_head?_inCapitals Text.caseless_isWordCharacter, collapseWidth?]

/-- **Keywords.** A directive in capitals has its keyword in capitals at the same place. -/
theorem head_inCapitals (text : List Char) :
    head (inCapitals text) = { head text with keyword := inCapitals (head text).keyword } := by
  unfold head
  dsimp only
  rw [Text.drop_inCapitals text 2, Text.countWhile_inCapitals Text.caseless_isSpacing, Text.drop_inCapitals,
    startWidth?_inCapitals, collapseWidth?_inCapitals, colonWidth?_inCapitals, colonWidth?_inCapitals,
    colonWidth?_inCapitals, Text.countWhile_inCapitals (Text.caseless_bne (by decide))]
  cases startWidth? (text.drop (2 + Text.countWhile Text.isSpacing (text.drop 2))) with
  | none =>
    dsimp only
    rw [Text.take_inCapitals]
  | some x =>
    dsimp only
    rw [Text.take_inCapitals]

theorem subject_inCapitals (keyword : List Char) : subject (inCapitals keyword) = subject keyword := by
  rw [subject, Text.trim_inCapitals, Text.lower_inCapitals, subject]

end Directive

theorem Assembly.startsDirective_inCapitals (text : List Char) :
    startsDirective (inCapitals text) = startsDirective text := by
  rcases text with _ | ⟨x, _ | ⟨y, text⟩⟩
  · rfl
  · by_cases hx : x = '#'
    · subst hx
      rfl
    · simp [startsDirective, Text.inCapitals, hx, Text.toUpper_eq_iff]
  · simp only [Text.inCapitals_cons]
    by_cases hx : x = '#'
    · subst hx
      by_cases hy : y = '!'
      · subst hy
        rfl
      · simp [startsDirective, hy, Text.toUpper_eq_iff]
    · simp [startsDirective, hx, Text.toUpper_eq_iff]

/-! ## Names of system variables -/

namespace Text

/-- Blanks and digits have no capitals. -/
theorem toUpper_of_isBlank_or_isDigit {c : Char} (h : isBlank c = true ∨ isDigit c = true) : c.toUpper = c := by
  cases hc : isAscii c with
  | true =>
    exact forall_ascii (P := fun c => isBlank c = true ∨ isDigit c = true → c.toUpper = c) (by decide +kernel) hc h
  | false => exact toUpper_of_isAscii_eq_false hc

end Text

namespace SystemVariables

/-- A name in capitals names the same variable, or neither names one. -/
theorem Field.find_inCapitals (name : List Char) :
    Field.find (.name (inCapitals name)) = Field.find (.name name) ∨
      Field.find (.name (inCapitals name)) = .error (.unknown (.name (inCapitals name))) ∧
        Field.find (.name name) = .error (.unknown (.name name)) := by
  have hdigits : (!(Text.trim (inCapitals name)).isEmpty && (Text.trim (inCapitals name)).all Text.isDigit) =
      (!(Text.trim name).isEmpty && (Text.trim name).all Text.isDigit) := by
    rw [Text.trim_inCapitals, Text.isEmpty_inCapitals, Text.all_inCapitals Text.caseless_isDigit]
  cases hcase : !(Text.trim name).isEmpty && (Text.trim name).all Text.isDigit with
  | true =>
    -- a name of digits has no letters
    refine .inl (congrArg (fun name => Field.find (.name name)) (Text.inCapitals_eq_self fun c hc => ?_))
    cases hblank : Text.isBlank c with
    | true => exact Text.toUpper_of_isBlank_or_isDigit (.inl hblank)
    | false =>
      rw [Bool.and_eq_true, List.all_eq_true] at hcase
      exact Text.toUpper_of_isBlank_or_isDigit (.inr (hcase.2 c (Text.mem_trim hc hblank)))
  | false =>
    unfold Field.find
    dsimp only
    rw [hdigits, hcase, Text.trim_inCapitals, Text.upper_inCapitals]
    cases Field.named? (Text.upper (Text.trim name)) with
    | none => exact .inr ⟨rfl, rfl⟩
    | some f => exact .inl rfl

/-- Setting a variable by its name in capitals does the same, or neither name is known. -/
theorem set_inCapitals (s : SystemVariables) (name : List Char) (setting : Setting) :
    s.set (.name (inCapitals name)) setting = s.set (.name name) setting ∨
      s.set (.name (inCapitals name)) setting = .error (.unresolved (.unknown (.name (inCapitals name)))) ∧
        s.set (.name name) setting = .error (.unresolved (.unknown (.name name))) := by
  rcases Field.find_inCapitals name with h | ⟨h, h'⟩
  · left
    unfold set resolve
    rw [h]
  · right
    unfold set resolve
    rw [h, h']
    exact ⟨rfl, rfl⟩

end SystemVariables

end TapeBasic
