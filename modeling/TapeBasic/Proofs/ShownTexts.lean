import TapeBasic.Cassette
import TapeBasic.Proofs.Directives
import TapeBasic.Proofs.ShownLines

/-!
# The texts that are shown

Every text that is made of stored bytes, whatever they are, consists of calm lines: the listing of a
program, with a comment in the place of what cannot be shown, the directives of an image, and the comments
that hold what lies outside the program.

Results:
* `Listing.lined_programText`: the listing of any bytes.
* `Image.lined_header`, `Image.lined_text`: the directives and the whole text of any image.
* `Image.lined_decode`, `Image.lined_decodeHeader`, `Cassette.lined_decode`: the texts of any bytes.
-/
namespace TapeBasic

open Text (isCalm isPrintable Lined)

/-! ## Numbers and bytes -/

namespace Text

theorem exists_digitChar_of_mem_toDigitsCore {base fuel n : Nat} {digits : List Char}
    (h : ∀ c ∈ digits, ∃ k, c = Nat.digitChar k) :
    ∀ c ∈ Nat.toDigitsCore base fuel n digits, ∃ k, c = Nat.digitChar k := by
  induction fuel generalizing n digits with
  | zero => exact h
  | succ fuel ih =>
    have hcons : ∀ c ∈ Nat.digitChar (n % base) :: digits, ∃ k, c = Nat.digitChar k :=
      List.forall_mem_cons.mpr ⟨⟨_, rfl⟩, h⟩
    rw [Nat.toDigitsCore]
    split
    · exact hcons
    · exact ih hcons

/-- A digit of a number system, or the mark that stands for what is none, is no bracket. -/
theorem plain_digitChar (k : Nat) : isPrintable (Nat.digitChar k).toUpper = true ∧
    (Nat.digitChar k).toUpper ≠ '[' ∧ (Nat.digitChar k).toUpper ≠ '\\' := by
  by_cases hk : k < 16
  · have hall : ∀ k < 16, isPrintable (Nat.digitChar k).toUpper = true ∧
        (Nat.digitChar k).toUpper ≠ '[' ∧ (Nat.digitChar k).toUpper ≠ '\\' := by decide
    exact hall k hk
  · have hstar : Nat.digitChar k = '*' := by
      unfold Nat.digitChar
      repeat rw [if_neg (by omega)]
    rw [hstar]
    decide

theorem isCalm_capitalHex (width n : Nat) : isCalm (capitalHex width n) = true := by
  refine isCalm_of_plain fun c hc => ?_
  simp only [capitalHex, smallHex, padLeft, List.map_append, List.map_replicate, List.mem_append,
    List.mem_replicate, List.mem_map] at hc
  rcases hc with ⟨-, rfl⟩ | ⟨d, hd, rfl⟩
  · decide
  · obtain ⟨k, rfl⟩ := exists_digitChar_of_mem_toDigitsCore (by simp) d hd
    exact plain_digitChar k

end Text

namespace Image

theorem calm_addressText (n : Nat) : isCalm (addressText n) = true :=
  Text.isCalm_append (by decide) (Text.isCalm_capitalHex 4 n)

theorem calm_byteList (bytes : List UInt8) : isCalm (byteList bytes) = true := by
  change isCalm ('[' :: (Directive.commaText bytes ++ [']'])) = true
  have hcomma : isCalm (Directive.commaText bytes ++ [']']) = true := by
    refine Text.isCalm_append ?_ (by decide)
    induction bytes with
    | nil => rfl
    | cons b bytes ih =>
      cases bytes with
      | nil => simpa [Directive.commaText, List.intercalate] using Text.isCalm_decimal b.toNat
      | cons b' bytes =>
        rw [Directive.commaText_cons, List.append_cons]
        exact Text.isCalm_append (Text.isCalm_append (Text.isCalm_decimal _) (by decide)) ih
  obtain ⟨x, more, hx, hdigit⟩ : ∃ x more, Directive.commaText bytes ++ [']'] = x :: more ∧ x ≠ '!' := by
    cases bytes with
    | nil => exact ⟨']', [], rfl, by decide⟩
    | cons b bytes =>
      obtain ⟨d, digits, hd, hdigit⟩ := Text.decimal_eq_cons b.toNat
      have hne : d ≠ '!' := by
        rintro rfl
        exact absurd hdigit (by decide)
      cases bytes with
      | nil => exact ⟨d, digits ++ [']'], by simp [Directive.commaText, hd, List.intercalate], hne⟩
      | cons b' bytes => exact ⟨d, _, by rw [Directive.commaText_cons, hd]; rfl, hne⟩
  rw [hx] at hcomma ⊢
  exact Text.isCalm_bracket hdigit hcomma

end Image

/-! ## Programs -/

namespace Listing

theorem calm_message (failure : CutShort) : isCalm failure.message = true := by
  unfold CutShort.message
  repeat' apply Text.isCalm_append
  all_goals first | exact Text.isCalm_decimal _ | decide

/-- The texts inside an entry are calm. -/
def Entry.Calm : Entry → Prop
  | .line _ text _ _ => isCalm text = true
  | .broken _ reason => isCalm reason = true
  | .overrun _ _ _ => True
  | .leftover => True

theorem calm_entry (bracketed : Bool) (number : Nat) (payload : List UInt8) :
    (entry bracketed number payload).Calm := by
  unfold entry
  split
  · exact (by decide : isCalm "Line has length 0".toList = true)
  · split
    · next failure _ => exact calm_message failure
    · next hrender => exact calm_renderLine hrender

theorem calm_ofProgramFrom {bracketed : Bool} {bytes : List UInt8} {done : List Entry}
    (hdone : ∀ e ∈ done, e.Calm) : ∀ e ∈ ofProgramFrom bracketed bytes done, e.Calm := by
  fun_induction ofProgramFrom bracketed bytes done with
  | case1 bytes done number payload rest hhead _ ih =>
    exact ih (List.forall_mem_cons.mpr ⟨calm_entry bracketed number payload, hdone⟩)
  | case2 bytes done number length remaining hhead =>
    intro e he
    rcases List.mem_cons.mp (List.mem_reverse.mp he) with rfl | he
    · trivial
    · exact hdone e he
  | case3 bytes done hhead =>
    intro e he
    rw [List.mem_reverse] at he
    split at he
    · exact hdone e he
    · rcases List.mem_cons.mp he with rfl | he
      · trivial
      · exact hdone e he

/-- The text of an entry: a line and perhaps a note, or an empty line and a comment. -/
theorem Entry.Calm.lined {e : Entry} (h : e.Calm) : Lined e.text := by
  have hempty : ∀ comment : List Char, isCalm comment = true → Lined ('\n' :: (comment ++ ['\n'])) :=
    fun comment hcomment => @Text.lined_cons [] _ rfl (Text.lined_line hcomment)
  cases e with
  | line number text last events =>
    have hline : isCalm (Text.decimal number ++ ' ' :: text) = true := by
      rw [List.append_cons]
      exact Text.isCalm_append (Text.isCalm_append (Text.isCalm_decimal _) (by decide)) h
    have hsplit : ∀ note : List Char, Text.decimal number ++ ' ' :: (text ++ '\n' :: note) =
        (Text.decimal number ++ ' ' :: text) ++ '\n' :: note := by simp
    unfold Entry.text
    dsimp only
    rw [hsplit]
    refine Text.lined_cons hline ?_
    split
    · exact Text.lined_nil
    · rw [show ".\n".toList = ".".toList ++ ['\n'] by decide, ← List.append_assoc]
      refine Text.lined_line ?_
      repeat' apply Text.isCalm_append
      all_goals first | exact Text.isCalm_decimal _ | decide
  | broken number reason =>
    have hreason : isCalm reason = true := h
    refine (show Entry.text (.broken number reason) = '\n' :: ("# Error: Line ".toList ++
      Text.decimal number ++ ": ".toList ++ reason ++ ['\n']) from rfl) ▸ hempty _ ?_
    repeat' apply Text.isCalm_append
    all_goals first | exact Text.isCalm_decimal _ | exact hreason | decide
  | overrun number length remaining =>
    unfold Entry.text
    dsimp only
    rw [show " bytes.\n".toList = " bytes.".toList ++ ['\n'] by decide, ← List.append_assoc]
    refine hempty ("# Error: Line ".toList ++ Text.decimal number ++ ": length ".toList ++
      Text.decimal length ++ " exceeds the remaining ".toList ++ Text.decimal remaining ++
      " bytes.".toList) ?_
    repeat' apply Text.isCalm_append
    all_goals first | exact Text.isCalm_decimal _ | decide
  | leftover => exact hempty "# Warning: A few bytes could not be converted.".toList (by decide)

theorem lined_text {entries : List Entry} (h : ∀ e ∈ entries, e.Calm) : Lined (text entries) :=
  Text.lined_flatMap fun e he => (h e he).lined

theorem calm_ofProgram (bracketed : Bool) (program : List UInt8) :
    ∀ e ∈ ofProgram bracketed program, e.Calm := calm_ofProgramFrom (by simp)

/-- **Any program.** The listing of any bytes is made of calm lines. -/
theorem lined_programText (bracketed : Bool) (program : List UInt8) :
    Lined (programText bracketed program) := lined_text (calm_ofProgram bracketed program)

end Listing

/-! ## Images -/

namespace Image

/-- A line of a directive or a note. -/
theorem lined_word {front : List Char} (word : String)
    (hword : word.toList = word.toList.dropLast ++ ['\n']) (hfront : isCalm front = true)
    (hcalm : isCalm word.toList.dropLast = true) : Lined (front ++ word.toList) := by
  rw [hword, ← List.append_assoc]
  exact Text.lined_line (Text.isCalm_append hfront hcalm)

theorem lined_startDirective (i : Image) : Lined i.startDirective := by
  unfold startDirective
  split
  · exact Text.lined_nil
  · split
    · next number _ =>
      exact Text.lined_line (Text.isCalm_append (by decide) (Text.isCalm_decimal number))
    · have hfront : isCalm ("# Note: NXTLIN (".toList ++ addressText i.nextLineAddress) = true :=
        Text.isCalm_append (by decide) (calm_addressText _)
      split
      all_goals exact lined_word _ (by decide) hfront (by decide)

theorem calm_rowText (marksLastSpace : Bool) (row : List UInt8) :
    isCalm (rowText marksLastSpace row) = true := by
  have hspelled : ∀ row : List UInt8, isCalm (row.flatMap Token.spelled) = true := fun row =>
    Text.isCalm_flatMap fun b _ => by
      unfold Token.spelled
      split
      · next hb => exact Token.calm_bracketed hb
      · exact Token.calm_text b
  rw [Row.rowText_eq]
  split
  · exact Text.isCalm_append (hspelled _) (Token.calm_code _)
  · exact hspelled row

theorem lined_displayDirectives (i : Image) : Lined i.displayDirectives := by
  unfold displayDirectives
  dsimp only
  refine Text.Lined.append ?_ (Text.lined_flatMap fun line hline => Text.lined_line ?_)
  · split
    · refine lined_word _ (by decide) ?_ (by decide)
      repeat' apply Text.isCalm_append
      all_goals first | exact Text.isCalm_decimal _ | decide
    · exact Text.lined_nil
  · rcases List.mem_append.mp hline with hline | hline
    · split at hline
      · rw [List.mem_singleton.mp hline]
        decide
      · cases hline
    · obtain ⟨row, -, rfl⟩ := List.mem_map.mp hline
      exact Text.isCalm_append (by decide) (calm_rowText _ row)

theorem lined_variablesDirectives (style : Style) (i : Image) : Lined (i.variablesDirectives style) := by
  unfold variablesDirectives
  dsimp only
  refine Text.Lined.append ?_ (Text.lined_flatMap fun part _ => Text.lined_line ?_)
  · split
    · exact Text.lined_nil
    · exact @lined_word [] "# Note: Variables area does not end with 128.\n" (by decide) rfl (by decide)
  · exact Text.isCalm_append (by decide) (calm_byteList part)

theorem calm_names : ∀ f ∈ SystemVariables.fields, isCalm f.name.toList = true := by decide

theorem lined_systemDirectives (i : Image) : Lined i.systemDirectives := by
  refine Text.lined_flatMap fun x hx => ?_
  obtain ⟨f, bytes⟩ := x
  obtain ⟨f', hf', heq⟩ := List.mem_map.mp hx
  have hname : isCalm f.name.toList = true := by
    cases heq
    exact calm_names f (List.mem_filter.mp hf').1
  have hvalue : isCalm (valueText f bytes) = true := by
    unfold valueText
    split
    · exact Text.isCalm_decimal _
    · exact calm_byteList bytes
  have hsplit : "#!system-vars:".toList ++ f.name.toList ++ '=' :: (valueText f bytes ++ ['\n']) =
      ("#!system-vars:".toList ++ f.name.toList ++ ['='] ++ valueText f bytes) ++ ['\n'] := by simp
  dsimp only
  rw [hsplit]
  refine Text.lined_line (Text.isCalm_append (Text.isCalm_append (Text.isCalm_append ?_ hname) ?_) hvalue)
  all_goals decide

/-- **Any directives.** They are made of calm lines, whatever the image holds. -/
theorem lined_header (style : Style) (i : Image) : Lined (i.header style) := by
  refine Text.lined_flatMap fun kind hkind => ?_
  have hlined : ∀ kind ∈ [i.startDirective, i.displayDirectives, i.variablesDirectives style,
      i.systemDirectives], Lined kind := by
    simp only [List.forall_mem_cons, List.not_mem_nil, false_implies, implies_true, and_true]
    exact ⟨i.lined_startDirective, i.lined_displayDirectives, i.lined_variablesDirectives style,
      i.lined_systemDirectives⟩
  exact (hlined kind (List.mem_filter.mp hkind).1).append (@Text.lined_line [] rfl)

/-- The lines of a text that is made of lines. -/
theorem lines_flatMap {lines : List (List Char)} (h : ∀ line ∈ lines, '\n' ∉ line) :
    Image.lines (lines.flatMap (· ++ ['\n'])) = lines := by
  have hjoin : lines.flatMap (· ++ ['\n']) = List.intercalate ['\n'] (lines ++ [[]]) := by
    clear h
    induction lines with
    | nil => rfl
    | cons line lines ih =>
      rw [List.flatMap_cons, ih, List.cons_append]
      cases lines <;> simp [List.intercalate_cons_cons]
  have hmem : ∀ line ∈ lines ++ [[]], '\n' ∉ line :=
    List.forall_mem_append.mpr ⟨h, by simp⟩
  unfold Image.lines
  dsimp only
  rw [hjoin, List.splitOn_intercalate _ hmem (by simp), List.getLast?_concat, if_pos (by simp),
    List.dropLast_concat]

/-- What lies outside the program is shown as an empty line and comments. -/
theorem exists_comments (i : Image) {entries : List Listing.Entry} (h : ∀ e ∈ entries, e.Calm) :
    ∃ comments : List (List Char), i.outsideText entries =
        '\n' :: comments.flatMap (fun comment => '#' :: ' ' :: (comment ++ ['\n'])) ∧
      ∀ comment ∈ comments, isCalm comment = true := by
  obtain ⟨lines, hlines, hcalm⟩ := Listing.lined_text h
  refine ⟨("BASIC program outside BASIC area at ".toList ++ addressText i.nextLineAddress ++
    ":".toList) :: lines, ?_, List.forall_mem_cons.mpr ⟨?_, hcalm⟩⟩
  · unfold outsideText
    rw [hlines, lines_flatMap fun line hline => Text.lineEnd_not_mem_of_isCalm (hcalm line hline),
      show ":\n".toList = ":".toList ++ ['\n'] by decide, List.flatMap_cons,
      show "\n# BASIC program outside BASIC area at ".toList =
        '\n' :: '#' :: ' ' :: "BASIC program outside BASIC area at ".toList by decide,
      show "# ".toList = ['#', ' '] by decide]
    simp only [List.append_assoc, List.cons_append, List.nil_append]
  · exact Text.isCalm_append (Text.isCalm_append (by decide) (calm_addressText _)) (by decide)

theorem lined_outsideText (i : Image) {entries : List Listing.Entry} (h : ∀ e ∈ entries, e.Calm) :
    Lined (i.outsideText entries) := by
  obtain ⟨comments, heq, hcalm⟩ := i.exists_comments h
  rw [heq]
  refine @Text.lined_cons [] _ rfl (Text.lined_flatMap fun comment hcomment => ?_)
  exact @Text.lined_line ('#' :: ' ' :: comment)
    (@Text.isCalm_append ['#', ' '] _ (by decide) (hcalm comment hcomment))

/-- The text of an image: its directives, its program and what lies outside the program. -/
theorem text_eq (style : Style) (i : Image) :
    i.text style = i.header style ++ (Listing.programText style.bracketed i.program ++
      if i.outside.isEmpty then []
      else i.outsideText (Listing.ofProgram style.bracketed i.outside)) := by
  rw [text, listing, programListing]
  cases i.outside.isEmpty with
  | true => exact congrArg _ (List.append_nil _).symm
  | false => rfl

/-- **Any image.** Its text is made of calm lines. -/
theorem lined_text (style : Style) (i : Image) : Lined (i.text style) := by
  rw [text_eq]
  refine (i.lined_header style).append ((Listing.lined_programText _ _).append ?_)
  split
  · exact Text.lined_nil
  · exact i.lined_outsideText (Listing.calm_ofProgram style.bracketed i.outside)

theorem lined_comment (failure : TooShort) : Lined failure.comment := by
  refine Text.lined_line (Text.isCalm_append (by decide) ?_)
  unfold TooShort.message
  repeat' apply Text.isCalm_append
  all_goals first | exact Text.isCalm_decimal _ | decide

theorem lined_decodeHeader (style : Style) (data : List UInt8) : Lined (decodeHeader style data) := by
  unfold decodeHeader
  split
  · exact lined_comment _
  · exact lined_header style _

theorem lined_decode (style : Style) (data : List UInt8) : Lined (decode style data) := by
  unfold decode
  split
  · exact lined_comment _
  · exact lined_text style _

end Image

theorem Cassette.lined_decode (style : Image.Style) (data : List UInt8) : Lined (decode style data) :=
  Image.lined_decode style (image data)

end TapeBasic
