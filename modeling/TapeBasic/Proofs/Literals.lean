import Mathlib.Data.List.Basic
import TapeBasic.Literal
import TapeBasic.Proofs.Numerals

/-!
# How far a literal reaches

The reader of a listing sees a literal together with the text behind it. More text can only make a
literal longer, and only if it goes on right behind the text that was there before.

Results:
* `width_append`: a longer text has the same literal, or one that reaches into the new part.
* `width_append_cons`: a character that belongs to no literal ends the literal.
* `width_eq_zero_iff`: a literal starts with a digit, or with a point in front of a digit.
* `digit_or_sign_behind_letter`: the letter in a literal stands in front of a digit or a sign.
* `width_map`, `value_map`: a literal in other characters that count the same is the same literal.
-/
namespace TapeBasic.Literal

/-- Whether the character can be part of a literal. -/
def isPart (c : Char) : Bool :=
  Text.isDecimal c || c == '.' || Text.sameLetter c 'E' || c == '+' || c == '-'

/-! ## Digits -/

theorem digitCount_nil : digitCount [] = 0 := rfl

theorem digitCount_cons (c : Char) (text : List Char) :
    digitCount (c :: text) = if Text.isDecimal c then digitCount text + 1 else 0 := by
  unfold digitCount Text.countWhile
  cases h : Text.isDecimal c
  · rw [List.takeWhile_cons_of_neg (by simp [h])]; rfl
  · rw [List.takeWhile_cons_of_pos h]; rfl

theorem digitCount_le (text : List Char) : digitCount text ≤ text.length :=
  (List.takeWhile_prefix _).length_le

theorem isDecimal_of_mem_take {text : List Char} {c : Char}
    (h : c ∈ text.take (digitCount text)) : Text.isDecimal c = true := by
  rw [digitCount, Text.countWhile, ← List.prefix_iff_eq_take.mp (List.takeWhile_prefix _)] at h
  exact List.all_eq_true.mp List.all_takeWhile c h

theorem digitCount_append (text more : List Char) :
    digitCount (text ++ more) = digitCount text ∨ text.length < digitCount (text ++ more) := by
  induction text with
  | nil =>
    rw [List.nil_append, digitCount_nil, List.length_nil]
    omega
  | cons c text ih =>
    rw [List.cons_append, digitCount_cons, digitCount_cons, List.length_cons]
    split
    · omega
    · exact .inl rfl

/-! ## Fractions and exponents -/

theorem fractionWidth_le (text : List Char) : fractionWidth text ≤ text.length := by
  unfold fractionWidth
  split
  · next rest =>
    have := digitCount_le rest
    simp only [List.length_cons]
    split <;> omega
  · omega

theorem fractionWidth_append (text more : List Char) :
    fractionWidth (text ++ more) = fractionWidth text ∨
      text.length < fractionWidth (text ++ more) := by
  cases text with
  | nil =>
    rw [List.nil_append, show fractionWidth [] = 0 from rfl, List.length_nil]
    omega
  | cons c rest =>
    by_cases hc : c = '.'
    · subst hc
      simp only [List.cons_append, fractionWidth, List.length_cons, beq_iff_eq]
      rcases digitCount_append rest more with h | h
      · exact .inl (by rw [h])
      · rw [if_neg (by omega)]
        exact .inr (by omega)
    · left
      simp [fractionWidth, hc]

theorem isPart_of_mem_fraction {text : List Char} {c : Char}
    (h : c ∈ text.take (fractionWidth text)) : Text.isDecimal c = true ∨ c = '.' := by
  unfold fractionWidth at h
  split at h
  · next rest =>
    split at h
    · simp at h
    · rw [List.take_succ_cons, List.mem_cons] at h
      rcases h with rfl | h
      · exact .inr rfl
      · exact .inl (isDecimal_of_mem_take h)
  · simp at h

/-- The digits of an exponent behind its letter, with the sign. -/
theorem exponentWidth_cons (mark : Char) (rest : List Char) :
    exponentWidth (mark :: rest) =
      if Text.sameLetter mark 'E' then
        match rest with
        | [] => 0
        | c :: digits =>
          if c == '+' || c == '-' then
            if digitCount digits == 0 then 0 else digitCount digits + 2
          else if digitCount rest == 0 then 0 else digitCount rest + 1
      else 0 := rfl

theorem exponentWidth_le (text : List Char) : exponentWidth text ≤ text.length := by
  cases text with
  | nil => exact Nat.le_refl _
  | cons mark rest =>
    rw [exponentWidth_cons]
    split
    · cases rest with
      | nil => exact Nat.zero_le _
      | cons c digits =>
        have := digitCount_le digits
        have := digitCount_le (c :: digits)
        simp only [List.length_cons] at *
        split <;> split <;> omega
    · exact Nat.zero_le _

theorem exponentWidth_append (text more : List Char) :
    exponentWidth (text ++ more) = exponentWidth text ∨
      text.length < exponentWidth (text ++ more) := by
  cases text with
  | nil =>
    rw [List.nil_append, show exponentWidth [] = 0 from rfl, List.length_nil]
    omega
  | cons mark rest =>
    rw [List.cons_append, exponentWidth_cons, exponentWidth_cons, List.length_cons]
    split
    · cases rest with
      | nil =>
        rw [List.nil_append, List.length_nil]
        cases more with
        | nil => exact .inl rfl
        | cons c digits =>
          simp only [beq_iff_eq]
          split <;> split
          · exact .inl rfl
          · exact .inr (by omega)
          · exact .inl rfl
          · exact .inr (by omega)
      | cons c digits =>
        have hsigned := digitCount_append digits more
        have hplain := digitCount_append (c :: digits) more
        rw [List.cons_append] at hplain
        simp only [List.cons_append, List.length_cons, beq_iff_eq] at *
        split
        · rcases hsigned with h | h
          · exact .inl (by rw [h])
          · rw [if_neg (by omega)]
            exact .inr (by omega)
        · rcases hplain with h | h
          · exact .inl (by rw [h])
          · rw [if_neg (by omega)]
            exact .inr (by omega)
    · exact .inl rfl

/-- What an exponent consists of: its letter, and behind it a digit or a sign and digits. -/
theorem exponent_shape {text : List Char} (h : exponentWidth text ≠ 0) :
    ∃ mark c rest, text = mark :: c :: rest ∧ Text.sameLetter mark 'E' = true ∧
      (Text.isDecimal c = true ∨ c = '+' ∨ c = '-') ∧
      ∀ x ∈ rest.take (exponentWidth text - 2), Text.isDecimal x = true := by
  cases text with
  | nil => exact absurd rfl h
  | cons mark rest =>
    rw [exponentWidth_cons] at h ⊢
    split at h
    · next hmark =>
      cases rest with
      | nil => exact absurd rfl h
      | cons c digits =>
        refine ⟨mark, c, digits, rfl, hmark, ?_⟩
        rw [if_pos hmark]
        dsimp only at h ⊢
        split at h
        · next hsign =>
          rw [if_pos hsign]
          simp only [Bool.or_eq_true, beq_iff_eq] at hsign
          split at h
          · exact absurd rfl h
          · next hcount =>
            rw [if_neg hcount, Nat.add_sub_cancel]
            exact ⟨.inr hsign, fun x hx => isDecimal_of_mem_take hx⟩
        · next hsign =>
          rw [if_neg hsign]
          split at h
          · exact absurd rfl h
          · next hcount =>
            rw [if_neg hcount]
            rw [digitCount_cons] at hcount ⊢
            split at hcount
            · next hc =>
              rw [if_pos hc, show digitCount digits + 1 + 1 - 2 = digitCount digits by omega]
              exact ⟨.inl hc, fun x hx => isDecimal_of_mem_take hx⟩
            · simp at hcount
    · exact absurd rfl h

/-! ## Whole literals -/

theorem mantissaWidth_le (text : List Char) : mantissaWidth text ≤ text.length := by
  have := digitCount_le text
  have := fractionWidth_le (text.drop (digitCount text))
  rw [List.length_drop] at this
  unfold mantissaWidth
  omega

theorem mantissaWidth_append (text more : List Char) :
    mantissaWidth (text ++ more) = mantissaWidth text ∨
      text.length < mantissaWidth (text ++ more) := by
  have hle := digitCount_le text
  unfold mantissaWidth
  rcases digitCount_append text more with h | h
  · rw [h, List.drop_append_of_le_length hle]
    have := fractionWidth_append (text.drop (digitCount text)) more
    rw [List.length_drop] at this
    omega
  · exact .inr (by omega)

theorem isPart_of_mem_mantissa {text : List Char} {c : Char}
    (h : c ∈ text.take (mantissaWidth text)) : Text.isDecimal c = true ∨ c = '.' := by
  rw [mantissaWidth, List.take_add, List.mem_append] at h
  rcases h with h | h
  · exact .inl (isDecimal_of_mem_take h)
  · exact isPart_of_mem_fraction h

theorem width_eq (text : List Char) :
    width text = if mantissaWidth text = 0 then 0
      else mantissaWidth text + exponentWidth (text.drop (mantissaWidth text)) := by
  simp [width]

theorem width_le (text : List Char) : width text ≤ text.length := by
  have := mantissaWidth_le text
  have := exponentWidth_le (text.drop (mantissaWidth text))
  rw [List.length_drop] at this
  rw [width_eq]
  split <;> omega

/-- **More text.** A text with more behind it starts with the same literal, or with one that reaches
into what was added. -/
theorem width_append (text more : List Char) :
    width (text ++ more) = width text ∨ text.length < width (text ++ more) := by
  have hle := mantissaWidth_le text
  rw [width_eq, width_eq]
  rcases mantissaWidth_append text more with h | h
  · rw [h, List.drop_append_of_le_length hle]
    have := exponentWidth_append (text.drop (mantissaWidth text)) more
    rw [List.length_drop] at this
    split <;> omega
  · rw [if_neg (by omega)]
    exact .inr (by omega)

theorem width_le_append (text more : List Char) : width text ≤ width (text ++ more) := by
  have := width_le text
  rcases width_append text more with h | h <;> omega

theorem isPart_of_mem_exponent {text : List Char} {c : Char}
    (h : c ∈ text.take (exponentWidth text)) : isPart c = true := by
  by_cases h0 : exponentWidth text = 0
  · simp [h0] at h
  · obtain ⟨mark, y, rest, rfl, hmark, hy, hrest⟩ := exponent_shape h0
    obtain ⟨k, hk⟩ : ∃ k, exponentWidth (mark :: y :: rest) ≤ k + 2 ∧
        k = exponentWidth (mark :: y :: rest) - 2 := ⟨_, by omega, rfl⟩
    have hmem : c ∈ (mark :: y :: rest).take (k + 2) :=
      (List.take_sublist_take_left hk.1).subset h
    rw [List.take_succ_cons, List.take_succ_cons, List.mem_cons, List.mem_cons] at hmem
    rcases hmem with rfl | rfl | hmem
    · simp [isPart, hmark]
    · rcases hy with hy | rfl | rfl <;> simp [isPart, *]
    · simp [isPart, hrest c (hk.2 ▸ hmem)]

theorem isPart_of_mem_width {text : List Char} {c : Char} (h : c ∈ text.take (width text)) :
    isPart c = true := by
  rw [width_eq] at h
  split at h
  · simp at h
  · rw [List.take_add, List.mem_append] at h
    rcases h with h | h
    · rcases isPart_of_mem_mantissa h with hc | rfl
      · simp [isPart, hc]
      · rfl
    · exact isPart_of_mem_exponent h

/-- **The end of a literal.** A character that belongs to no literal keeps the text behind it out. -/
theorem width_append_cons (text more : List Char) {c : Char} (hc : isPart c = false) :
    width (text ++ c :: more) = width text := by
  rcases width_append text (c :: more) with h | h
  · exact h
  · have hmem : c ∈ (text ++ c :: more).take (width (text ++ c :: more)) := by
      obtain ⟨k, hk⟩ := Nat.exists_eq_add_of_lt h
      rw [hk, Nat.add_assoc, List.take_length_add_append, List.take_succ_cons]
      simp
    rw [isPart_of_mem_width hmem] at hc
    exact absurd hc (by decide)

/-- Whether the text starts with a digit, or with a point in front of a digit. -/
def startsLiteral : List Char → Bool
  | '.' :: c :: _ => Text.isDecimal c
  | c :: _ => Text.isDecimal c
  | [] => false

theorem startsLiteral_cons_of_ne {c : Char} (h : c ≠ '.') (rest : List Char) :
    startsLiteral (c :: rest) = Text.isDecimal c := by
  unfold startsLiteral
  split <;> simp_all

theorem width_eq_zero_iff (text : List Char) : width text = 0 ↔ startsLiteral text = false := by
  have hzero : width text = 0 ↔ mantissaWidth text = 0 := by
    rw [width_eq]
    split <;> omega
  rw [hzero, mantissaWidth]
  unfold startsLiteral
  split
  · next c rest =>
    rw [digitCount_cons, if_neg (by decide)]
    simp only [List.drop_zero, fractionWidth, digitCount_cons, beq_iff_eq]
    cases Text.isDecimal c <;> simp
  · next c rest hpoint =>
    rw [digitCount_cons]
    cases hc : Text.isDecimal c
    · simp only [Bool.false_eq_true, if_false, List.drop_zero, Nat.zero_add, iff_true]
      unfold fractionWidth
      split
      · next rest' heq =>
        cases rest' with
        | nil => rfl
        | cons d rest' =>
          rw [List.cons.injEq] at heq
          exact absurd heq.2 (hpoint d rest' heq.1)
      · rfl
    · simp
  · simp [digitCount_nil, fractionWidth]

/-- The mantissa ends in front of what is neither a digit nor a point. -/
theorem mantissaWidth_append_cons_le {front back : List Char} {c : Char}
    (hdigit : Text.isDecimal c = false) (hpoint : c ≠ '.') :
    mantissaWidth (front ++ c :: back) ≤ front.length := by
  refine Nat.le_of_not_lt fun hlt => ?_
  obtain ⟨k, hk⟩ := Nat.exists_eq_add_of_lt hlt
  have hmem : c ∈ (front ++ c :: back).take (mantissaWidth (front ++ c :: back)) := by
    rw [hk, Nat.add_assoc, List.take_length_add_append, List.take_succ_cons]
    simp
  rcases isPart_of_mem_mantissa hmem with hd | rfl
  · simp [hdigit] at hd
  · exact hpoint rfl

/-- The letter in a literal stands in front of a digit or a sign. -/
theorem digit_or_sign_behind_letter {front back : List Char} {c : Char}
    (h : width (front ++ c :: back) = (front ++ c :: back).length)
    (hdigit : Text.isDecimal c = false) (hpoint : c ≠ '.') (hplus : c ≠ '+') (hminus : c ≠ '-') :
    ∃ x rest, back = x :: rest ∧ (Text.isDecimal x = true ∨ x = '+' ∨ x = '-') := by
  -- the letter is no part of the mantissa, so it stands in the exponent
  have hfront := @mantissaWidth_append_cons_le front back c hdigit hpoint
  generalize hl : front ++ c :: back = literal at h hfront
  have hm := mantissaWidth_le literal
  have he : mantissaWidth literal + exponentWidth (literal.drop (mantissaWidth literal)) =
      literal.length := by
    rw [width_eq] at h
    split at h
    · simp [← hl] at h
    · exact h
  have hdrop : literal.drop (mantissaWidth literal) =
      front.drop (mantissaWidth literal) ++ c :: back := by
    rw [← hl, List.drop_append_of_le_length (hl ▸ hfront)]
  have hlen : literal.length = front.length + (back.length + 1) := by simp [← hl]
  have hne : exponentWidth (literal.drop (mantissaWidth literal)) ≠ 0 := by omega
  obtain ⟨mark, y, rest, htext, _, hy, hrest⟩ := exponent_shape hne
  have hall : exponentWidth (literal.drop (mantissaWidth literal)) - 2 = rest.length := by
    have := congrArg List.length htext
    simp only [List.length_drop, List.length_cons] at this
    omega
  rw [hdrop] at htext
  cases hf : front.drop (mantissaWidth literal) with
  | nil =>
    rw [hf, List.nil_append, List.cons.injEq] at htext
    exact ⟨y, rest, htext.2, hy⟩
  | cons a front' =>
    -- behind the letter of the exponent stand a sign and digits only
    exfalso
    rw [hf, List.cons_append, List.cons.injEq] at htext
    cases front' with
    | nil =>
      rw [List.nil_append, List.cons.injEq] at htext
      rcases hy with hy | rfl | rfl
      · rw [← htext.2.1, hdigit] at hy
        exact absurd hy (by decide)
      · exact hplus htext.2.1
      · exact hminus htext.2.1
    | cons b front'' =>
      rw [List.cons_append, List.cons.injEq] at htext
      have hc := hrest c (by rw [hall, List.take_length, ← htext.2.2]; simp)
      rw [hdigit] at hc
      exact absurd hc (by decide)

/-! ## Literals in other characters -/

/-- The characters count the same in a literal. -/
structure CountsAs (x c : Char) : Prop where
  value : Text.decimalValue? x = Text.decimalValue? c
  point : x = '.' ↔ c = '.'
  plus : x = '+' ↔ c = '+'
  minus : x = '-' ↔ c = '-'
  letter : Text.sameLetter x 'E' = Text.sameLetter c 'E'

theorem CountsAs.isDecimal {x c : Char} (h : CountsAs x c) : Text.isDecimal x = Text.isDecimal c := by
  rw [Text.isDecimal, h.value, Text.isDecimal]

section Map

variable {f : Char → Char} {text : List Char}

theorem takeWhile_map (h : ∀ c ∈ text, CountsAs (f c) c) :
    (text.map f).takeWhile Text.isDecimal = (text.takeWhile Text.isDecimal).map f ∧
      (text.map f).dropWhile Text.isDecimal = (text.dropWhile Text.isDecimal).map f := by
  induction text with
  | nil => exact ⟨rfl, rfl⟩
  | cons c text ih =>
    obtain ⟨hc, htext⟩ := List.forall_mem_cons.mp h
    obtain ⟨htake, hdrop⟩ := ih htext
    rw [List.map_cons, List.takeWhile_cons, List.takeWhile_cons, List.dropWhile_cons, List.dropWhile_cons,
      hc.isDecimal]
    split
    · exact ⟨by rw [htake, List.map_cons], hdrop⟩
    · exact ⟨rfl, rfl⟩

theorem digitsValue_map (h : ∀ c ∈ text, CountsAs (f c) c) :
    Text.digitsValue (text.map f) = Text.digitsValue text := by
  unfold Text.digitsValue
  rw [List.foldl_map]
  exact List.foldl_ext _ _ _ fun value c hc => by rw [(h c hc).value]

theorem digitCount_map (h : ∀ c ∈ text, CountsAs (f c) c) : digitCount (text.map f) = digitCount text := by
  rw [digitCount, Text.countWhile, (takeWhile_map h).1, List.length_map, digitCount, Text.countWhile]

theorem fractionWidth_map (h : ∀ c ∈ text, CountsAs (f c) c) :
    fractionWidth (text.map f) = fractionWidth text := by
  cases text with
  | nil => rfl
  | cons c rest =>
    obtain ⟨hc, hrest⟩ := List.forall_mem_cons.mp h
    rw [List.map_cons]
    by_cases hdot : c = '.'
    · rw [hc.point.mpr hdot, hdot, fractionWidth, fractionWidth, digitCount_map hrest]
    · simp [fractionWidth, hdot, hc.point]

theorem exponentWidth_map (h : ∀ c ∈ text, CountsAs (f c) c) :
    exponentWidth (text.map f) = exponentWidth text := by
  cases text with
  | nil => rfl
  | cons mark rest =>
    obtain ⟨hmark, hrest⟩ := List.forall_mem_cons.mp h
    rw [List.map_cons, exponentWidth_cons, exponentWidth_cons, hmark.letter]
    cases rest with
    | nil => rfl
    | cons c digits =>
      obtain ⟨hc, hdigits⟩ := List.forall_mem_cons.mp hrest
      have hsign : (f c == '+' || f c == '-') = (c == '+' || c == '-') := by
        rw [Bool.eq_iff_iff]
        simp only [Bool.or_eq_true, beq_iff_eq, hc.plus, hc.minus]
      rw [List.map_cons]
      dsimp only
      rw [hsign, digitCount_map hdigits, ← List.map_cons, digitCount_map hrest]

theorem mantissaWidth_map (h : ∀ c ∈ text, CountsAs (f c) c) :
    mantissaWidth (text.map f) = mantissaWidth text := by
  unfold mantissaWidth
  rw [digitCount_map h, ← List.map_drop, fractionWidth_map fun c hc => h c (List.mem_of_mem_drop hc)]

/-- **Literals in other characters.** The text starts with a literal of the same length. -/
theorem width_map (h : ∀ c ∈ text, CountsAs (f c) c) : width (text.map f) = width text := by
  unfold width
  rw [mantissaWidth_map h, ← List.map_drop, exponentWidth_map fun c hc => h c (List.mem_of_mem_drop hc)]

/-- The digits behind the point at the start of the text. -/
def fractionDigits : List Char → List Char
  | '.' :: rest => rest.takeWhile Text.isDecimal
  | _ => []

/-- The number behind the letter of an exponent. -/
def exponentValue : List Char → Int
  | '-' :: digits => - (Text.digitsValue digits : Int)
  | '+' :: digits => Text.digitsValue digits
  | digits => Text.digitsValue digits

theorem parts_eq (literal : List Char) :
    parts literal =
      ⟨Text.digitsValue (literal.takeWhile Text.isDecimal ++
          fractionDigits (literal.dropWhile Text.isDecimal)),
        exponentValue ((literal.drop (mantissaWidth literal)).drop 1) -
          (fractionDigits (literal.dropWhile Text.isDecimal)).length⟩ := rfl

theorem fractionDigits_sublist (text : List Char) : (fractionDigits text).Sublist text := by
  unfold fractionDigits
  split
  · exact (List.takeWhile_sublist _).cons _
  · exact List.nil_sublist _

theorem fractionDigits_map (h : ∀ c ∈ text, CountsAs (f c) c) :
    fractionDigits (text.map f) = (fractionDigits text).map f := by
  cases text with
  | nil => rfl
  | cons c rest =>
    obtain ⟨hc, hrest⟩ := List.forall_mem_cons.mp h
    rw [List.map_cons]
    by_cases hdot : c = '.'
    · rw [hc.point.mpr hdot, hdot, fractionDigits, fractionDigits, (takeWhile_map hrest).1]
    · simp [fractionDigits, hdot, hc.point]

theorem exponentValue_map (h : ∀ c ∈ text, CountsAs (f c) c) :
    exponentValue (text.map f) = exponentValue text := by
  cases text with
  | nil => rfl
  | cons c rest =>
    obtain ⟨hc, hrest⟩ := List.forall_mem_cons.mp h
    have hvalue := digitsValue_map h
    rw [List.map_cons] at hvalue ⊢
    by_cases hneg : c = '-'
    · rw [hc.minus.mpr hneg, hneg, exponentValue, exponentValue, digitsValue_map hrest]
    · by_cases hpos : c = '+'
      · rw [hc.plus.mpr hpos, hpos, exponentValue, exponentValue, digitsValue_map hrest]
      · simp [exponentValue, hneg, hpos, hc.minus, hc.plus, hvalue]

/-- It has the same value. -/
theorem value_map (h : ∀ c ∈ text, CountsAs (f c) c) : value (text.map f) = value text := by
  have hmantissa : ∀ c ∈ text.dropWhile Text.isDecimal, CountsAs (f c) c := fun c hc =>
    h c ((List.dropWhile_sublist _).subset hc)
  have hexponent : ∀ c ∈ (text.drop (mantissaWidth text)).drop 1, CountsAs (f c) c := fun c hc =>
    h c (List.mem_of_mem_drop (List.mem_of_mem_drop hc))
  have hdigits : ∀ c ∈ text.takeWhile Text.isDecimal ++ fractionDigits (text.dropWhile Text.isDecimal),
      CountsAs (f c) c :=
    List.forall_mem_append.mpr ⟨fun c hc => h c ((List.takeWhile_sublist _).subset hc), fun c hc =>
      hmantissa c ((fractionDigits_sublist _).subset hc)⟩
  have hparts : parts (text.map f) = parts text := by
    rw [parts_eq, parts_eq, (takeWhile_map h).1, (takeWhile_map h).2, mantissaWidth_map h, ← List.map_drop,
      ← List.map_drop, fractionDigits_map hmantissa, exponentValue_map hexponent, ← List.map_append,
      List.length_map, digitsValue_map hdigits]
  rw [value, hparts, value]

end Map

end TapeBasic.Literal
