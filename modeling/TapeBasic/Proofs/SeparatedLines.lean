import TapeBasic.Proofs.SettledNumbers

/-!
# Lines that read back

Keeping the pieces of a line apart leaves its numbers settled, and when nothing is left to close, the
reader finds every piece again.

* `Apart ps`: every open piece is read back in front of the text behind it.

Results:
* `Settled.separatePass_fst`: one check keeps the pieces settled. Figures are never closed inside a literal,
  and a letter is closed only in front of a letter, where no literal can start.
* `separate_apart`: the repeated check ends with all pieces apart.
* `Settled.reads`: settled pieces that are apart are read as their bytes.
-/
namespace TapeBasic.Piece

/-! ## The characters of a line -/

theorem isPrintable_of_isFigure {c : Char} (h : Decimal.isFigure c = true) :
    Text.isPrintable c = true := by
  simp only [Decimal.isFigure, Bool.or_eq_true, beq_iff_eq] at h
  rcases h with (((h | rfl) | rfl) | rfl) | rfl
  · simp only [Char.isDigit, Bool.and_eq_true, decide_eq_true_eq, ge_iff_le] at h
    have h₁ : '0'.toNat ≤ c.toNat := h.1
    have h₂ : c.toNat ≤ '9'.toNat := h.2
    simp only [Text.isPrintable, Bool.and_eq_true, decide_eq_true_eq]
    exact ⟨Nat.le_trans (by decide) h₁, Nat.le_trans h₂ (by decide)⟩
  all_goals decide

/-- Neither a line end nor a carriage return stands in a printable text. -/
theorem not_mem_of_printable {text : List Char} {x : Char}
    (h : ∀ c ∈ text, Text.isPrintable c = true) (hx : Text.isPrintable x = false) : x ∉ text := by
  intro hmem
  rw [h x hmem] at hx
  cases hx

theorem printable_decimal (n : Nat) : ∀ c ∈ Text.decimal n, Text.isPrintable c = true := by
  intro c hc
  exact isPrintable_of_isFigure (Decimal.isFigure_of_isDigit (Text.isDigit_of_mem_decimal hc))

theorem printable_word {word : String} (h : word.toList.all Text.isPrintable = true) :
    ∀ c ∈ word.toList, Text.isPrintable c = true :=
  List.all_eq_true.mp h

theorem printable_message (failure : CutShort) : ∀ c ∈ failure.message, Text.isPrintable c = true := by
  unfold CutShort.message
  rw [List.forall_mem_append, List.forall_mem_append, List.forall_mem_append, List.forall_mem_append,
    List.forall_mem_append, List.forall_mem_append]
  refine ⟨⟨⟨⟨⟨⟨?_, printable_decimal _⟩, ?_⟩, printable_decimal _⟩, ?_⟩,
    printable_decimal _⟩, ?_⟩
  all_goals exact printable_word (by decide)

theorem printable_code (b : UInt8) : ∀ c ∈ Token.code b, Text.isPrintable c = true := by
  intro c hc
  simp only [Token.code, List.mem_cons, List.mem_append, List.not_mem_nil, or_false] at hc
  rcases hc with rfl | hc | rfl
  · decide
  · exact printable_decimal _ c hc
  · decide

theorem printable_text (b : UInt8) : ∀ c ∈ Token.text b, Text.isPrintable c = true := by
  obtain ⟨first, rest, ho⟩ := Token.exists_orderly b
  rw [ho.text_eq]
  exact ho.printable

theorem printable_bracketed {b : UInt8} (h : Token.isAmbiguous b = true) :
    ∀ c ∈ Token.bracketed b, Text.isPrintable c = true := by
  have hname := Token.bracketed_isName h
  unfold Token.isName at hname
  split at hname
  · next x rest heq =>
    simp only [Bool.and_eq_true, List.all_eq_true] at hname
    rw [heq]
    exact List.forall_mem_cons.mpr ⟨by decide, hname.1.1.1⟩
  · cases hname

theorem printable_spelled (b : UInt8) : ∀ c ∈ Token.spelled b, Text.isPrintable c = true := by
  unfold Token.spelled
  split
  · next h => exact printable_bracketed h
  · exact printable_text b

theorem printable_explicitNumber (stored : List UInt8) :
    ∀ c ∈ explicitNumber stored, Text.isPrintable c = true := by
  intro c hc
  simp only [explicitNumber, numberText, List.mem_append, List.mem_flatMap] at hc
  rcases hc with (((hc | ⟨b, -, hc⟩) | hc) | hc) | hc
  · exact printable_code _ c hc
  · exact printable_code b c hc
  · exact printable_word (by decide) c hc
  · exact isPrintable_of_isFigure (Decimal.isFigure_of_mem_briefMagnitude hc)
  · exact printable_word (by decide) c hc

theorem printable_figures {run : List Piece} (h : ∀ p ∈ run, Figure p) :
    ∀ c ∈ join run, Text.isPrintable c = true := by
  intro c hc
  obtain ⟨p, hp, hc⟩ := List.mem_flatMap.mp hc
  exact printable_text _ c ((h p hp).text ▸ hc)

/-- A line is written in printable characters. -/
theorem Settled.printable {mode : Body.Mode} {ps : List Piece} (h : Settled mode ps) :
    ∀ c ∈ join ps, Text.isPrintable c = true := by
  induction h with
  | nil => simp [join]
  | remark _ _ ht _ ih | string _ _ ht _ ih =>
    rw [join_cons, ht]
    exact List.forall_mem_append.mpr ⟨printable_spelled _, ih⟩
  | opening _ _ ht _ ih | plain _ _ ht _ _ ih =>
    rw [join_cons, ht]
    exact List.forall_mem_append.mpr ⟨printable_text _, ih⟩
  | coded _ ht _ ih =>
    rw [join_cons, ht]
    exact List.forall_mem_append.mpr ⟨printable_code _, ih⟩
  | named hb _ ht _ ih =>
    rw [join_cons, ht]
    exact List.forall_mem_append.mpr ⟨printable_bracketed hb, ih⟩
  | written _ _ ht _ ih =>
    rw [join_cons, ht]
    exact List.forall_mem_append.mpr ⟨printable_explicitNumber _, ih⟩
  | @literal run ps number stored _ hrun _ _ _ ht _ _ ih =>
    rw [join_append, join_cons, ht]
    exact List.forall_mem_append.mpr ⟨printable_figures hrun, ih⟩

/-- A letter is neither a digit nor a point. -/
theorem not_digit_of_isLatinLetter {c : Char} (hc : Text.isPrintable c = true)
    (h : Text.isLatinLetter c = true) : Text.isDecimal c = false ∧ c ≠ '.' := by
  have hall : ∀ n < 127, Text.isLatinLetter (Char.ofNat n) = true →
      Text.isDecimal (Char.ofNat n) = false ∧ Char.ofNat n ≠ '.' := by decide
  simp only [Text.isPrintable, Bool.and_eq_true, decide_eq_true_eq] at hc
  rw [← Char.ofNat_toNat c] at h ⊢
  exact hall c.toNat (by omega) h

/-! ## One check -/

theorem readsBack_iff {p : Piece} {text tail : List Char} (htext : text = p.text ++ tail) :
    p.readsBack text = true ↔ Grammar.statement.ReadsBack p.text p.byte tail := by
  subst htext
  unfold readsBack checkedReadsBack Grammar.ReadsBack Slip.ignored
  cases hwidth : Grammar.statement.width? (p.text ++ tail) with
  | none => simp [Except.toOption]
  | some width =>
    dsimp only
    by_cases hlen : width = p.text.length
    · rw [if_pos (beq_iff_eq.mpr hlen), hlen, List.take_left]
      cases Grammar.statement.lookup p.text <;> simp [Except.toOption]
    · rw [if_neg (by simpa using hlen)]
      simp [Except.toOption, hlen]

theorem separated_of_readsBack {p : Piece} {tail : List Char}
    (h : Grammar.statement.ReadsBack p.text p.byte tail) : p.separated (p.text ++ tail) = p := by
  rw [separated_eq, (readsBack_iff rfl).mpr h]
  simp

theorem separated_of_isOpen {p : Piece} (h : p.isOpen = false) (text : List Char) :
    p.separated text = p := by
  simp [separated_eq, h]

theorem isOpen_of_bracket {p : Piece} {rest : List Char} (h : p.text = '[' :: rest) :
    p.isOpen = false := by
  simp [isOpen, h]

theorem separated_of_not_readsBack {p : Piece} {tail : List Char} (ho : p.isOpen = true)
    (h : ¬ Grammar.statement.ReadsBack p.text p.byte tail) :
    p.separated (p.text ++ tail) = p.enclosed := by
  rw [← readsBack_iff rfl, Bool.not_eq_true] at h
  simp [separated_eq, ho, h]

/-- A closed piece is a name or a code, behind which no name goes on. -/
theorem settled_enclosed {n : Bool} {p : Piece} {qs : List Piece} (hs : p.stored = none)
    (h : Settled (.statement false) qs) : Settled (.statement n) (p.enclosed :: qs) := by
  by_cases hb : Token.isAmbiguous p.byte = true
  · exact .named hb hs (if_pos hb) h
  · exact .coded hs (if_neg hb) h

theorem isDigit_of_isLetter {b : UInt8} (h : Token.isLetter b = true) : Token.isDigit b = false := by
  simp only [Token.isLetter, Token.isDigit] at h ⊢
  grind

theorem separatePass_of_not_isOpen {p : Piece} (h : p.isOpen = false) (ps : List Piece) :
    (separatePass (p :: ps)).1 = p :: (separatePass ps).1 := by
  rw [separatePass_cons, separated_of_isOpen h]

/-- The digits, points and signs of a line are never closed. -/
theorem readsBack_mark {p : Piece} (htext : p.text = Token.text p.byte)
    (h : Grammar.isMark p.byte = true) (tail : List Char) :
    Grammar.statement.ReadsBack p.text p.byte tail := htext ▸ Grammar.mark_read h tail

/-- A letter that is closed stands in front of a letter. -/
theorem firm_of_not_readsBack {mode : Body.Mode} {p : Piece} {ps : List Piece} (hps : Settled mode ps)
    (htext : p.text = Token.text p.byte) (hletter : Token.isLetter p.byte = true)
    (h : ¬ Grammar.statement.ReadsBack p.text p.byte (join ps ++ ['\n'])) : Firm (join ps) := by
  intro c hc
  by_contra hc'
  refine h (htext ▸ Grammar.letter_read hletter fun x hx => ?_)
  have hmem : c ∈ join ps := List.mem_of_head? hc
  have hhead : (join ps ++ ['\n']).head? = some c := by
    rw [List.head?_append, hc]
    rfl
  rw [hhead] at hx
  cases hx
  by_contra hlatin
  exact hc' (not_digit_of_isLatinLetter (hps.printable c hmem) (by simpa using hlatin))

/-- A figure that does not stand in front of a letter is not closed. -/
theorem Figure.readsBack {p : Piece} (h : Figure p) {tail : List Char}
    (htail : Token.isLetter p.byte = true → ∀ c ∈ tail.head?, Text.isLatinLetter c = false) :
    Grammar.statement.ReadsBack p.text p.byte tail := by
  by_cases hletter : Token.isLetter p.byte = true
  · exact h.text ▸ Grammar.letter_read hletter (htail hletter)
  · refine readsBack_mark h.text ?_ tail
    simp [Grammar.isMark, h.byte, hletter]

/-- A literal is left as it is: its letter stands in front of a digit or a sign. -/
theorem separatePass_literal {front run rest : List Piece} (hrun : ∀ p ∈ front ++ run, Figure p)
    (hwidth : Literal.width (join (front ++ run)) = (join (front ++ run)).length) :
    (separatePass (run ++ rest)).1 = run ++ (separatePass rest).1 := by
  induction run generalizing front with
  | nil => rfl
  | cons p run ih =>
    have hp := hrun p (by simp)
    have hkeep : p.separated (p.text ++ (separatePass (run ++ rest)).2) = p := by
      refine separated_of_readsBack (hp.readsBack fun hletter c hc => ?_)
      obtain ⟨x, htext, halpha, -, hdecimal, -⟩ := hp.exists_character
      rw [hletter] at halpha
      rw [isDigit_of_isLetter hletter] at hdecimal
      have hne : ∀ y : Char, y.isAlpha = false → x ≠ y := by
        rintro y hy rfl
        rw [hy] at halpha
        cases halpha
      rw [join_append, join_cons, htext, List.singleton_append] at hwidth
      obtain ⟨y, more, hrest, hy⟩ := Literal.digit_or_sign_behind_letter hwidth hdecimal
        (hne _ (by decide)) (hne _ (by decide)) (hne _ (by decide))
      rw [separatePass_snd, join_append, hrest] at hc
      obtain rfl : y = c := Option.some.inj hc
      have hprint : Text.isPrintable y = true := by
        have hfigures : ∀ q ∈ run, Figure q := fun q hq => hrun q (by simp [hq])
        refine printable_figures hfigures y ?_
        rw [hrest]
        exact List.mem_cons_self
      by_contra hlatin
      have hdigit := not_digit_of_isLatinLetter hprint (by simpa using hlatin)
      rcases hy with hy | rfl | rfl
      · rw [hdigit.1] at hy
        cases hy
      all_goals exact absurd hlatin (by decide)
    rw [List.cons_append, separatePass_cons, hkeep, List.cons_append]
    have hsplit : front ++ p :: run = (front ++ [p]) ++ run := by simp
    rw [hsplit] at hrun hwidth
    rw [ih hrun hwidth]

/-- **One check.** Closing what is not read back keeps the numbers settled. -/
theorem Settled.separatePass_fst {mode : Body.Mode} {ps : List Piece} (h : Settled mode ps) :
    Settled mode (separatePass ps).1 := by
  induction h with
  | nil hmode => exact .nil hmode
  | remark hi hs ht hrest ih =>
    rw [separatePass_of_not_isOpen (by simp [isOpen, hi])]
    exact .remark hi hs ht ih
  | string hi hs ht hrest ih =>
    rw [separatePass_of_not_isOpen (by simp [isOpen, hi])]
    exact .string hi hs ht ih
  | opening hb hs ht hrest ih =>
    rw [separatePass_of_not_isOpen (by simp [isOpen, hb])]
    exact .opening hb hs ht ih
  | coded hs ht hrest ih =>
    rw [separatePass_of_not_isOpen (isOpen_of_bracket ht)]
    exact .coded hs ht ih
  | named hb hs ht hrest ih =>
    obtain ⟨rest, hrest, -⟩ := Body.exists_of_isName (Token.bracketed_isName hb)
    rw [separatePass_of_not_isOpen (isOpen_of_bracket (ht.trans hrest))]
    exact .named hb hs ht ih
  | @written _ _ stored _ hb hs ht hrest ih =>
    obtain ⟨rest, hrest⟩ := exists_explicitNumber stored
    rw [separatePass_of_not_isOpen (isOpen_of_bracket (ht.trans hrest))]
    exact .written hb hs ht ih
  | @plain n p ps ho hs ht hw hrest ih =>
    rw [separatePass_cons, separatePass_snd]
    have hclose := separatePass_closes ps
    by_cases hread : Grammar.statement.ReadsBack p.text p.byte (join ps ++ ['\n'])
    · rw [separated_of_readsBack hread]
      refine .plain ho hs ht (hw.imp_right fun hzero => ?_) ih
      have := hclose.width_le p.text
      omega
    · rw [separated_of_not_readsBack ho hread]
      refine settled_enclosed hs ?_
      by_cases hletter : Token.isLetter p.byte = true
      · exact ih.of_firm (hclose.firm (firm_of_not_readsBack hrest ht hletter hread)) false
      · have hdigit : Token.isDigit p.byte = false := by
          by_contra hd
          refine hread (readsBack_mark ht ?_ _)
          simp_all [Grammar.isMark, isLiteralToken]
        have hstays : Body.staysInName n p.byte = false := by
          simp [Body.staysInName, hletter, hdigit]
        rwa [hstays] at ih
  | @literal run ps number stored hne hrun hw hencode hb ht hs hrest ih =>
    have hwhole : Literal.width (join run) = (join run).length := by
      have := Literal.width_append (join run) (join ps)
      omega
    have hfigures : ∀ p ∈ [] ++ run, Figure p := hrun
    rw [separatePass_literal hfigures hwhole, separatePass_of_not_isOpen (by simp [isOpen, ht])]
    refine .literal hne hrun ?_ hencode hb ht hs ih
    have hle := (separatePass_closes ps).width_le (join run)
    have hge := Literal.width_le_append (join run) (join (separatePass ps).1)
    omega

/-! ## The repeated check -/

/-- Every open piece is read back in front of the text behind it. -/
def Apart : List Piece → Prop
  | [] => True
  | p :: ps =>
    (p.isOpen = true → Grammar.statement.ReadsBack p.text p.byte (join ps ++ ['\n'])) ∧ Apart ps

theorem Apart.append_right {front ps : List Piece} (h : Apart (front ++ ps)) : Apart ps := by
  induction front with
  | nil => exact h
  | cons p front ih => exact ih h.2

theorem isOpen_enclosed (p : Piece) : p.enclosed.isOpen = false := by
  obtain ⟨rest, h⟩ := exists_enclosed p
  exact isOpen_of_bracket h

/-- A check that closes nothing finds all pieces apart. -/
theorem apart_or_openCount_lt (ps : List Piece) :
    openCount (separatePass ps).1 ≤ openCount ps ∧
      (Apart ps ∨ openCount (separatePass ps).1 < openCount ps) := by
  induction ps with
  | nil => exact ⟨Nat.le_refl _, .inl trivial⟩
  | cons p ps ih =>
    obtain ⟨hle, hcases⟩ := ih
    unfold openCount at hle hcases ⊢
    rw [separatePass_cons, separatePass_snd, List.countP_cons, List.countP_cons]
    by_cases ho : p.isOpen = true
    · by_cases hread : Grammar.statement.ReadsBack p.text p.byte (join ps ++ ['\n'])
      · rw [separated_of_readsBack hread, if_pos ho]
        refine ⟨by omega, hcases.imp (fun h => ⟨fun _ => hread, h⟩) fun h => by omega⟩
      · rw [separated_of_not_readsBack ho hread, isOpen_enclosed, if_pos ho, if_neg (by decide)]
        exact ⟨by omega, .inr (by omega)⟩
    · rw [separated_of_isOpen (by simpa using ho), if_neg ho]
      exact ⟨hle, hcases.imp_left fun h => ⟨fun h' => absurd h' ho, h⟩⟩

/-- **The repeated check.** It ends with settled pieces that are apart. -/
theorem separate_apart {mode : Body.Mode} {ps : List Piece} (h : Settled mode ps) :
    AllClose ps (separate ps) ∧ Settled mode (separate ps) ∧ Apart (separate ps) := by
  induction ps using separate_induction with
  | again ps hlt ih =>
    rw [separate_eq, if_pos hlt]
    obtain ⟨hclose, hsettled, hapart⟩ := ih h.separatePass_fst
    exact ⟨(separatePass_closes ps).trans hclose, hsettled, hapart⟩
  | stop ps hlt =>
    rw [separate_eq, if_neg hlt]
    exact ⟨allClose_refl ps, h, (apart_or_openCount_lt ps).2.resolve_right hlt⟩

/-! ## Reading the pieces -/

variable {files : FileReader}

theorem reads_cons {mode next last : Body.Mode} {p : Piece} {ps : List Piece} {tail : List Char}
    (hfirst : Body.Reads files mode p.text (join ps ++ tail) p.bytes next)
    (hrest : Body.Reads files next (join ps) tail (ps.flatMap bytes) last) :
    Body.Reads files mode (join (p :: ps)) tail ((p :: ps).flatMap bytes) last :=
  hfirst.append hrest

theorem bytes_of_stored_eq_none {p : Piece} (h : p.stored = none) : p.bytes = [p.byte] := by
  rw [bytes, h]
  rfl

/-- An open piece that is read back in front of a line end is read as its token in front of any line
end. -/
theorem reads_plain {n : Bool} {p : Piece} {line : List Char} (ho : p.isOpen = true)
    (hs : p.stored = none) (ht : p.text = Token.text p.byte)
    (hw : n = true ∨ Literal.width (p.text ++ line) = 0)
    (hread : Grammar.statement.ReadsBack p.text p.byte (line ++ ['\n'])) (more : List Char) :
    Body.Reads files (.statement n) p.text (line ++ '\n' :: more) p.bytes
      (.statement (Body.staysInName n p.byte)) := by
  simp only [isOpen, Bool.and_eq_true, bne_iff_ne, ne_eq] at ho
  obtain ⟨⟨-, hbracket⟩, hquote⟩ := ho
  obtain ⟨first, rest, horder⟩ := Token.exists_orderly p.byte
  rw [bytes_of_stored_eq_none hs]
  refine Body.reads_token (ht ▸ Body.opens_text p.byte) ?_ ?_ ?_ ?_ ?_
  · intro hmem
    exact Body.ne_lineEnd_of_isPrintable (printable_text p.byte _ (ht ▸ hmem)) rfl
  · refine SpecialCode.scan?_eq_none_of_head ?_
    rw [ht, horder.text_eq] at hbracket ⊢
    exact hbracket
  · rw [ht, horder.text_eq, List.head?_cons, ne_eq, Option.some.injEq]
    exact fun hfirst => hquote (horder.quote hfirst)
  · refine hw.imp_right fun hzero => ?_
    rw [← List.append_assoc, Literal.width_append_cons _ _ (by decide)]
    exact hzero
  · refine ⟨?_, hread.2⟩
    rw [← hread.1, ← List.append_assoc, ← List.append_assoc]
    exact Grammar.width?_lineEnd Grammar.statement_checked.1 _ more

theorem ofCharacter?_figures {run : List Piece} (h : ∀ p ∈ run, Figure p) :
    ((join run).mapM fun x => Token.ofCharacter? [x]) = some (run.map byte) := by
  induction run with
  | nil => rfl
  | cons p run ih =>
    obtain ⟨c, hc, -, -, -, hof⟩ := (h p List.mem_cons_self).exists_character
    rw [join_cons, hc, List.singleton_append, List.mapM_cons, hof,
      ih fun q hq => h q (List.mem_cons_of_mem _ hq)]
    rfl

theorem bytes_figures {run : List Piece} (h : ∀ p ∈ run, Figure p) :
    run.flatMap bytes = run.map byte := by
  induction run with
  | nil => rfl
  | cons p run ih =>
    rw [List.flatMap_cons, bytes_of_stored_eq_none (h p List.mem_cons_self).stored,
      ih fun q hq => h q (List.mem_cons_of_mem _ hq)]
    rfl

/-- A literal is read as its characters and the number behind them. -/
theorem reads_figures {run : List Piece} {stored : List UInt8} {line : List Char} (hne : run ≠ [])
    (hrun : ∀ p ∈ run, Figure p) (hwidth : Literal.width (join run ++ line) = (join run).length)
    (hencode : StoredNumber.encode (Literal.value (join run)) = .ok stored) (more : List Char) :
    Body.Reads files (.statement false) (join run) (line ++ '\n' :: more)
      (run.flatMap bytes ++ Token.number :: stored) (.statement false) := by
  obtain ⟨p, rest, rfl⟩ := List.exists_cons_of_ne_nil hne
  obtain ⟨c, hc, -⟩ := (hrun p List.mem_cons_self).exists_character
  have hlength : Literal.width (join (p :: rest) ++ (line ++ '\n' :: more)) =
      (join (p :: rest)).length := by
    rw [← List.append_assoc, Literal.width_append_cons _ _ (by decide), hwidth]
  -- a literal starts with a digit or a point
  have hstart : Literal.startsLiteral (c :: (join rest ++ line)) = true := by
    by_contra hzero
    rw [Bool.not_eq_true, ← Literal.width_eq_zero_iff] at hzero
    rw [join_cons, hc] at hwidth
    exact absurd (hzero.symm.trans hwidth) (by simp)
  have hhead : ∀ x : Char, Text.isDecimal x = false → x ≠ '.' → c ≠ x := by
    rintro x hx hpoint rfl
    rw [Literal.startsLiteral_cons_of_ne hpoint, hx] at hstart
    cases hstart
  rw [bytes_figures hrun]
  refine Body.reads_literal ?_ ?_ hlength hencode (ofCharacter?_figures hrun)
  · rw [join_cons, hc]
    exact Body.opens_of_head (hhead _ (by decide) (by decide)) (hhead _ (by decide) (by decide))
  · rw [join_cons, hc, List.singleton_append, List.head?_cons, ne_eq, Option.some.injEq]
    exact hhead _ (by decide) (by decide)

theorem staysInName_of_isAmbiguous {b : UInt8} (h : Token.isAmbiguous b = true) (n : Bool) :
    Body.staysInName n b = false := by
  have hdigit : Token.isDigit b = false := by
    simp only [Token.isAmbiguous, Token.isDigit] at h ⊢
    grind
  simp [Body.staysInName, isLetter_of_isAmbiguous h, hdigit]

/-- **Reading a line.** Settled pieces that are apart are read as their bytes, up to the line end. -/
theorem Settled.reads {mode : Body.Mode} {ps : List Piece} (h : Settled mode ps) (hapart : Apart ps)
    (more : List Char) :
    ∃ next, next ≠ .quotation ∧
      Body.Reads files mode (join ps) ('\n' :: more) (ps.flatMap bytes) next := by
  induction h with
  | nil hmode => exact ⟨_, hmode, Body.Reads.nil _ _⟩
  | remark hi hs ht hrest ih =>
    obtain ⟨next, hnext, hread⟩ := ih hapart.2
    refine ⟨next, hnext, reads_cons ?_ hread⟩
    rw [ht, bytes_of_stored_eq_none hs]
    exact Body.reads_remark _ _
  | string hi hs ht hrest ih =>
    obtain ⟨next, hnext, hread⟩ := ih hapart.2
    refine ⟨next, hnext, reads_cons ?_ hread⟩
    rw [ht, bytes_of_stored_eq_none hs]
    exact Body.reads_string _ _
  | opening hb hs ht hrest ih =>
    obtain ⟨next, hnext, hread⟩ := ih hapart.2
    refine ⟨next, hnext, reads_cons ?_ hread⟩
    rw [ht, bytes_of_stored_eq_none hs, hb]
    exact Body.reads_opening _ _
  | coded hs ht hrest ih =>
    obtain ⟨next, hnext, hread⟩ := ih hapart.2
    refine ⟨next, hnext, reads_cons ?_ hread⟩
    rw [ht, bytes_of_stored_eq_none hs]
    exact Body.reads_code _ _ _
  | @named n p ps hb hs ht hrest ih =>
    obtain ⟨next, hnext, hread⟩ := ih hapart.2
    refine ⟨next, hnext, reads_cons ?_ hread⟩
    have hname : Body.Reads files (.statement n) (Token.bracketed p.byte) (join ps ++ '\n' :: more)
        [p.byte] (.statement (Body.staysInName n p.byte)) := Body.reads_name n hb _
    rw [staysInName_of_isAmbiguous hb] at hname
    rw [ht, bytes_of_stored_eq_none hs]
    exact hname
  | written hb hs ht hrest ih =>
    obtain ⟨next, hnext, hread⟩ := ih hapart.2
    refine ⟨next, hnext, reads_cons ?_ hread⟩
    rw [ht, bytes, hb, hs]
    exact Body.reads_explicit _ _ _
  | plain ho hs ht hw hrest ih =>
    obtain ⟨next, hnext, hread⟩ := ih hapart.2
    exact ⟨next, hnext, reads_cons (reads_plain ho hs ht hw (hapart.1 ho) more) hread⟩
  | @literal run ps number stored hne hrun hw hencode hb ht hs hrest ih =>
    obtain ⟨next, hnext, hread⟩ := ih hapart.append_right.2
    have htext : join (run ++ number :: ps) = join run ++ join ps := by
      rw [join_append, join_cons, ht, List.nil_append]
    have hbytes : (run ++ number :: ps).flatMap bytes =
        (run.flatMap bytes ++ Token.number :: stored) ++ ps.flatMap bytes := by
      rw [List.flatMap_append, List.flatMap_cons, bytes, hb, hs, List.append_assoc]
      rfl
    rw [htext, hbytes]
    exact ⟨next, hnext, (reads_figures hne hrun hw hencode more).append hread⟩

end TapeBasic.Piece
