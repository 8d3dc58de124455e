import TapeBasic.Decimal.Shortest
import TapeBasic.Text.Numeral

/-!
# Numbers written and read back

A number is written in ASCII digits, every one of which is a decimal digit for the reader, and a text
behind it that starts with no digit stays unread.

Results:
* `digitsValue_decimal`: the digits of a number have its value.
* `natural?_decimal`: a number of at most five digits is read back.
* `takeWhile_isDecimal_decimal`: the reader takes the digits of a number and nothing behind them.
* `Decimal.isFigure_of_mem_briefMagnitude`: the value of a stored number is written in digits, points,
  signs and the letter of the exponent.
-/
namespace TapeBasic.Text

theorem isAscii_of_isDigit {c : Char} (h : c.isDigit = true) : isAscii c = true := by
  simp only [Char.isDigit, Bool.and_eq_true, decide_eq_true_eq, ge_iff_le] at h
  have hle : c.toNat ≤ '9'.toNat := h.2
  simp only [isAscii, decide_eq_true_eq]
  exact Nat.lt_of_le_of_lt hle (by decide)

theorem decimalValue?_of_isDigit {c : Char} (h : c.isDigit = true) :
    decimalValue? c = some (c.toNat - 48) := by
  simp [decimalValue?, isAscii_of_isDigit h, h]

theorem isDecimal_of_isDigit {c : Char} (h : c.isDigit = true) : isDecimal c = true := by
  simp [isDecimal, decimalValue?_of_isDigit h]

/-! ## The digits of a number -/

theorem isDigit_of_mem_decimal {n : Nat} {c : Char} (h : c ∈ decimal n) : c.isDigit = true :=
  Nat.isDigit_of_mem_toDigits (by decide) (by decide) h

theorem decimal_ne_nil (n : Nat) : decimal n ≠ [] := Nat.toDigits_ne_nil

/-- A number starts with a digit. -/
theorem decimal_eq_cons (n : Nat) : ∃ c digits, decimal n = c :: digits ∧ c.isDigit = true := by
  cases h : decimal n with
  | nil => exact absurd h (decimal_ne_nil n)
  | cons c digits => exact ⟨c, digits, rfl, isDigit_of_mem_decimal (n := n) (by simp [h])⟩

theorem digitsValue_decimal (n : Nat) : digitsValue (decimal n) = n := by
  have hfold : ∀ (digits : List Char) (value : Nat), (∀ c ∈ digits, c.isDigit = true) →
      digits.foldl (fun value c => 10 * value + (decimalValue? c).getD 0) value =
        Nat.ofDigitChars 10 digits value := by
    intro digits
    induction digits with
    | nil => intro value _; simp
    | cons c digits ih =>
      intro value hd
      rw [List.foldl_cons, ih _ fun x hx => hd x (List.mem_cons_of_mem _ hx),
        decimalValue?_of_isDigit (hd c List.mem_cons_self), Nat.ofDigitChars_cons]
      rfl
  rw [digitsValue, hfold _ _ fun c hc => isDigit_of_mem_decimal hc]
  exact Nat.ofDigitChars_ten_toDigits

theorem length_decimal_le {n : Nat} (h : n < 100000) : (decimal n).length ≤ 5 :=
  (Nat.length_toDigits_le_iff (by decide) (by decide)).mpr h

theorem natural?_decimal {n : Nat} (h : n < 100000) : natural? (decimal n) = some n := by
  have := length_decimal_le h
  rw [natural?, if_pos (by simp only [maxDigits]; omega), digitsValue_decimal]

/-! ## What stands behind a number -/

/-- What is checked for each character of a text. -/
theorem forall_mem_of_all {p : Char → Bool} {value : Bool} {text : List Char}
    (h : (text.all fun c => p c == value) = true) : ∀ c ∈ text, p c = value :=
  fun c hc => beq_iff_eq.mp (List.all_eq_true.mp h c hc)

/-- A text that does not belong to a class as a whole has a first character outside it. -/
theorem exists_first_of_all_eq_false {p : Char → Bool} {text : List Char} (h : text.all p = false) :
    ∃ front c rest, text = front ++ c :: rest ∧ (∀ x ∈ front, p x = true) ∧ p c = false := by
  induction text with
  | nil => simp at h
  | cons c text ih =>
    cases hc : p c with
    | false => exact ⟨[], c, text, rfl, by simp, hc⟩
    | true =>
      rw [List.all_cons, hc, Bool.true_and] at h
      obtain ⟨front, x, rest, rfl, hfront, hx⟩ := ih h
      exact ⟨c :: front, x, rest, rfl, by simpa [hc] using hfront, hx⟩

theorem takeWhile_append_cons {p : Char → Bool} {front rest : List Char} {c : Char}
    (hfront : ∀ x ∈ front, p x = true) (hc : p c = false) :
    (front ++ c :: rest).takeWhile p = front := by
  rw [List.takeWhile_append_of_pos hfront, List.takeWhile_cons_of_neg (by simp [hc]),
    List.append_nil]

/-- A character that is not blank is not trimmed away. -/
theorem mem_trim {text : List Char} {c : Char} (hc : c ∈ text) (h : isBlank c = false) : c ∈ trim text := by
  have hkept : ∀ {text : List Char}, c ∈ text → c ∈ text.dropWhile isBlank := by
    intro text hc
    rw [← List.takeWhile_append_dropWhile (p := isBlank) (l := text)] at hc
    refine (List.mem_append.mp hc).resolve_left fun hfront => ?_
    rw [List.all_eq_true.mp List.all_takeWhile c hfront] at h
    cases h
  rw [trim, trimRight, List.mem_reverse]
  exact hkept (List.mem_reverse.mpr (hkept hc))

theorem takeWhile_isDecimal_decimal (n : Nat) {c : Char} (rest : List Char)
    (hc : isDecimal c = false) : (decimal n ++ c :: rest).takeWhile isDecimal = decimal n :=
  takeWhile_append_cons (fun _ hx => isDecimal_of_isDigit (isDigit_of_mem_decimal hx)) hc

end TapeBasic.Text

/-! ## Decimal numbers on paper -/

namespace TapeBasic.Decimal

/-- A character of a written decimal number. -/
def isFigure (c : Char) : Bool := c.isDigit || c == '.' || c == 'e' || c == '+' || c == '-'

theorem isFigure_of_isDigit {c : Char} (h : c.isDigit = true) : isFigure c = true := by
  simp [isFigure, h]

theorem isFigure_of_mem_exponentText {exponent : Int} {c : Char} (h : c ∈ exponentText exponent) :
    isFigure c = true := by
  simp only [exponentText, List.mem_cons, Text.padLeft, List.mem_append, List.mem_replicate] at h
  rcases h with rfl | h | ⟨-, rfl⟩ | h
  · rfl
  · split at h <;> (subst h; rfl)
  · rfl
  · exact isFigure_of_isDigit (Text.isDigit_of_mem_decimal h)

theorem isFigure_of_mem_scientific {d : Digits} (hd : ∀ c ∈ d.digits, c.isDigit = true) {c : Char}
    (h : c ∈ Layout.scientific d) : isFigure c = true := by
  unfold Layout.scientific at h
  split at h
  · simp at h
  · next first hfirst =>
    rcases List.mem_cons.mp h with rfl | h
    · exact isFigure_of_isDigit (hd c (by simp [hfirst]))
    · exact isFigure_of_mem_exponentText h
  · next first others _ hall =>
    simp only [List.mem_cons, List.mem_append] at h
    rcases h with rfl | rfl | h | h
    · exact isFigure_of_isDigit (hd c (by simp [hall]))
    · rfl
    · exact isFigure_of_isDigit (hd c (by simp [hall, h]))
    · exact isFigure_of_mem_exponentText h

theorem isFigure_of_mem_positional {layout : Layout} {d : Digits}
    (hd : ∀ c ∈ d.digits, c.isDigit = true) {c : Char} (h : c ∈ layout.positional d) :
    isFigure c = true := by
  have hpad : ∀ whole, c ∈ Text.padRight whole '0' (d.digits.take whole) → isFigure c = true := by
    intro whole h
    rcases List.mem_append.mp h with h | h
    · exact isFigure_of_isDigit (hd c (List.mem_of_mem_take h))
    · rw [(List.mem_replicate.mp h).2]
      rfl
  unfold Layout.positional at h
  split at h
  · simp only [List.mem_cons, List.mem_append, List.mem_replicate] at h
    rcases h with rfl | rfl | ⟨-, rfl⟩ | h
    · rfl
    · rfl
    · rfl
    · exact isFigure_of_isDigit (hd c h)
  · dsimp only at h
    split at h
    · split at h
      · rcases List.mem_append.mp h with h | h
        · exact hpad _ h
        · rcases List.mem_cons.mp h with rfl | h
          · rfl
          · rw [List.mem_singleton.mp h]
            rfl
      · exact hpad _ h
    · rcases List.mem_append.mp h with h | h
      · exact hpad _ h
      · rcases List.mem_cons.mp h with rfl | h
        · rfl
        · exact isFigure_of_isDigit (hd c (List.mem_of_mem_drop h))

theorem isDigit_of_mem_trimZeros {d : Digits} (hd : ∀ c ∈ d.digits, c.isDigit = true) {c : Char}
    (h : c ∈ d.trimZeros.digits) : c.isDigit = true := by
  unfold Digits.trimZeros at h
  split at h
  · exact hd c (List.mem_of_mem_take h)
  · have hmem := (List.dropWhile_sublist _).subset (List.mem_reverse.mp h)
    exact hd c (List.mem_reverse.mp hmem)

theorem isFigure_of_mem_briefMagnitude {v : Magnitude} {c : Char} (h : c ∈ briefMagnitude v) :
    isFigure c = true := by
  have hd : ∀ c ∈ (rounded 10 v).trimZeros.digits, c.isDigit = true := fun c hc =>
    isDigit_of_mem_trimZeros (fun x hx => Text.isDigit_of_mem_decimal hx) hc
  unfold briefMagnitude at h
  split at h
  · rw [show briefLayout.zero = ['0'] from rfl, List.mem_singleton] at h
    rw [h]
    rfl
  · unfold Layout.write at h
    split at h
    · exact isFigure_of_mem_scientific hd h
    · exact isFigure_of_mem_positional hd h

end TapeBasic.Decimal
