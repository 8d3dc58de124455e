import TapeBasic.Proofs.Pieces

/-!
# Settled numbers

When the numbers of a line are settled, every literal that the reader would find in the text is one that
a stored number follows, with the value of that number, and every other stored number is written out.

* `Figure p`: a digit, a point, the letter E or a sign of statement text, written as itself.
* `Settled mode ps`: pieces whose text the reader, in this mode, takes for the literals and numbers that
  were meant. Whether the other pieces are read back is left open.

Results:
* `Settled.of_firm`: whether a name goes on does not matter where no literal can start.
* `settled_codeLiterals`: a run of figures is settled when its literals are written with their numbers.
* `resolveFrom_settled`: settling the numbers of a line gives settled pieces.
-/
namespace TapeBasic

/-! ## The parts of a run -/

namespace Literal

theorem segmentsFrom_append (inName : Bool) (text : List Char) (done more : List Segment) :
    segmentsFrom inName text (done ++ more) = segmentsFrom inName text done ++ more := by
  fun_induction segmentsFrom inName text done with
  | case1 => rw [segmentsFrom]
  | case2 inName done c rest literal hpos ih =>
    rw [← ih, segmentsFrom]
    exact if_pos hpos
  | case3 inName done c rest literal hpos ih =>
    rw [← ih, segmentsFrom]
    exact if_neg hpos

@[simp] theorem segments_nil (inName : Bool) : segments inName [] = [] := by
  simp [segments, segmentsFrom]

theorem reverse_segmentsFrom (inName : Bool) (text : List Char) (segment : Segment) :
    (segmentsFrom inName text [segment]).reverse = segment :: segments inName text := by
  rw [← List.nil_append [segment], segmentsFrom_append, List.reverse_append]
  rfl

theorem segments_literal {c : Char} {rest : List Char} (h : 0 < width (c :: rest)) :
    segments false (c :: rest) =
      ⟨true, width (c :: rest)⟩ :: segments false ((c :: rest).drop (width (c :: rest))) := by
  have hdrop : (c :: rest).drop (width (c :: rest)) = rest.drop (width (c :: rest) - 1) := by
    obtain ⟨k, hk⟩ := Nat.exists_eq_succ_of_ne_zero (Nat.pos_iff_ne_zero.mp h)
    rw [hk]
    rfl
  rw [hdrop, ← reverse_segmentsFrom, segments, segmentsFrom]
  simp [h]

theorem segments_single {inName : Bool} {c : Char} {rest : List Char}
    (h : inName = true ∨ width (c :: rest) = 0) :
    segments inName (c :: rest) = ⟨false, 1⟩ :: segments (c.isAlpha || (c.isDigit && inName)) rest := by
  have hzero : (if inName then 0 else width (c :: rest)) = 0 := by
    rcases h with h | h <;> simp [h]
  rw [← reverse_segmentsFrom, segments, segmentsFrom]
  simp [hzero]

theorem width_pos_of_mem_segmentsFrom {inName : Bool} {text : List Char} {done : List Segment}
    (hdone : ∀ s ∈ done, 0 < s.width) : ∀ s ∈ segmentsFrom inName text done, 0 < s.width := by
  fun_induction segmentsFrom inName text done with
  | case1 => exact hdone
  | case2 inName done c rest literal hpos ih => exact ih (List.forall_mem_cons.mpr ⟨hpos, hdone⟩)
  | case3 inName done c rest literal hpos ih =>
    exact ih (List.forall_mem_cons.mpr ⟨Nat.one_pos, hdone⟩)

theorem width_pos_of_mem_segments {inName : Bool} {text : List Char} {s : Segment}
    (h : s ∈ segments inName text) : 0 < s.width :=
  width_pos_of_mem_segmentsFrom (by simp) s (List.mem_reverse.mp h)

/-- The width of some parts together. -/
def totalWidth (parts : List Segment) : Nat := parts.foldr (fun s n => s.width + n) 0

@[simp] theorem totalWidth_nil : totalWidth [] = 0 := rfl

@[simp] theorem totalWidth_cons (s : Segment) (parts : List Segment) :
    totalWidth (s :: parts) = s.width + totalWidth parts := rfl

@[simp] theorem totalWidth_append (front back : List Segment) :
    totalWidth (front ++ back) = totalWidth front + totalWidth back := by
  induction front with
  | nil => simp
  | cons s front ih => rw [List.cons_append, totalWidth_cons, ih, totalWidth_cons, Nat.add_assoc]

@[simp] theorem totalWidth_reverse (parts : List Segment) :
    totalWidth parts.reverse = totalWidth parts := by
  induction parts with
  | nil => rfl
  | cons s parts ih => simp [ih, Nat.add_comm]

theorem totalWidth_segmentsFrom (inName : Bool) (text : List Char) (done : List Segment) :
    totalWidth (segmentsFrom inName text done) = text.length + totalWidth done := by
  fun_induction segmentsFrom inName text done with
  | case1 => simp
  | case2 inName done c rest literal hpos ih =>
    have hle : literal ≤ rest.length + 1 := by
      have hwidth := width_le (c :: rest)
      rw [List.length_cons] at hwidth
      dsimp only [literal]
      split <;> omega
    rw [ih, totalWidth_cons, List.length_drop, List.length_cons]
    dsimp only
    omega
  | case3 inName done c rest literal hpos ih =>
    rw [ih, totalWidth_cons, List.length_cons]
    dsimp only
    omega

/-- A text that is a literal in front of what follows it is a literal by itself. -/
theorem checkedValue_eq {literal following : List Char} (hne : literal ≠ [])
    (h : width (literal ++ following) = literal.length) : checkedValue literal = .ok (value literal) := by
  have hwhole : width literal = literal.length := by
    rcases width_append literal following with h' | h' <;> omega
  rw [checkedValue, if_neg (by simp [hne, hwhole])]

theorem readsBackAs_iff {literal following : List Char} {stored : List UInt8} (hne : literal ≠ []) :
    readsBackAs literal following stored = true ↔
      width (literal ++ following) = literal.length ∧
        StoredNumber.encode (value literal) = .ok stored := by
  unfold readsBackAs checkedReadsBackAs Slip.ignored
  by_cases hwidth : width (literal ++ following) = literal.length
  · rw [if_pos (beq_iff_eq.mpr hwidth), checkedValue_eq hne hwidth]
    rcases hencode : StoredNumber.encode (value literal) with (_ | _ | _) | bytes <;>
      simp [hencode, hwidth, Except.toOption]
  · rw [if_neg (by simpa using hwidth)]
    simp [hwidth, Except.toOption]

/-- The parts of a text make up the text. -/
theorem totalWidth_segments (inName : Bool) (text : List Char) :
    totalWidth (segments inName text) = text.length := by
  rw [segments, totalWidth_reverse, totalWidth_segmentsFrom]
  simp

end Literal

namespace Piece

/-! ## Figures -/

/-- A digit, a point, the letter E or a sign of statement text, written as itself. -/
structure Figure (p : Piece) : Prop where
  byte : isLiteralToken p.byte = true
  text : p.text = Token.text p.byte
  inStatement : p.inStatement = true
  stored : p.stored = none

theorem letter_or_mark_of_isLiteralToken {b : UInt8} (h : isLiteralToken b = true) :
    (Token.isLetter b || Grammar.isMark b) = true := by
  simp only [Grammar.isMark, h, Bool.true_and]
  cases Token.isLetter b <;> rfl

/-- A figure is one character of the kind of its token. -/
theorem Figure.exists_character {p : Piece} (h : Figure p) :
    ∃ c, p.text = [c] ∧ c.isAlpha = Token.isLetter p.byte ∧ c.isDigit = Token.isDigit p.byte ∧
      Text.isDecimal c = Token.isDigit p.byte ∧ Token.ofCharacter? [c] = some p.byte := by
  obtain ⟨c, hc, -, halpha, hdigit, hdecimal, hof⟩ :=
    Grammar.exists_character (letter_or_mark_of_isLiteralToken h.byte)
  exact ⟨c, h.text.trans hc, halpha, hdigit, hdecimal, hof⟩

theorem length_join_figures {run : List Piece} (h : ∀ p ∈ run, Figure p) :
    (join run).length = run.length := by
  induction run with
  | nil => rfl
  | cons p run ih =>
    obtain ⟨c, hc, -⟩ := (h p List.mem_cons_self).exists_character
    rw [join_cons, hc, List.singleton_append, List.length_cons, List.length_cons,
      ih fun q hq => h q (List.mem_cons_of_mem _ hq)]

theorem join_drop_figures {run : List Piece} (h : ∀ p ∈ run, Figure p) (k : Nat) :
    join (run.drop k) = (join run).drop k := by
  have htake : (join (run.take k)).length = (run.take k).length :=
    length_join_figures fun p hp => h p (List.mem_of_mem_take hp)
  by_cases hk : k ≤ run.length
  · rw [List.length_take, Nat.min_eq_left hk] at htake
    have hrun : join run = join (run.take k) ++ join (run.drop k) := by
      rw [← join_append, List.take_append_drop]
    rw [hrun, List.drop_left' htake]
  · have hlen := length_join_figures h
    rw [List.drop_eq_nil_of_le (by omega), List.drop_eq_nil_of_le (by omega)]
    rfl

/-! ## Settled pieces -/

/-- Pieces whose text is taken for the literals and stored numbers that were meant. The cases follow the
reader: letters in remarks and strings, quotation marks, bracketed codes and names, stored numbers that
are written out, tokens at which no literal starts, and literals in front of their numbers. -/
inductive Settled : Body.Mode → List Piece → Prop where
  | nil {mode : Body.Mode} : mode ≠ .quotation → Settled mode []
  | remark {p : Piece} {ps : List Piece} : p.inStatement = false → p.stored = none →
    p.text = Token.spelled p.byte → Settled .remark ps → Settled .remark (p :: ps)
  | string {p : Piece} {ps : List Piece} : p.inStatement = false → p.stored = none →
    p.text = Token.spelled p.byte →
    Settled (if p.byte = Token.quote then .statement false else .quotation) ps →
    Settled .quotation (p :: ps)
  | opening {n : Bool} {p : Piece} {ps : List Piece} : p.byte = Token.quote → p.stored = none →
    p.text = Token.text p.byte → Settled .quotation ps → Settled (.statement n) (p :: ps)
  | coded {mode : Body.Mode} {p : Piece} {ps : List Piece} : p.stored = none →
    p.text = Token.code p.byte → Settled mode.behindCode ps → Settled mode (p :: ps)
  | named {n : Bool} {p : Piece} {ps : List Piece} : Token.isAmbiguous p.byte = true → p.stored = none →
    p.text = Token.bracketed p.byte → Settled (.statement false) ps → Settled (.statement n) (p :: ps)
  | written {n : Bool} {p : Piece} {stored : List UInt8} {ps : List Piece} : p.byte = Token.number →
    p.stored = some stored → p.text = explicitNumber stored → Settled (.statement false) ps →
    Settled (.statement n) (p :: ps)
  | plain {n : Bool} {p : Piece} {ps : List Piece} : p.isOpen = true → p.stored = none →
    p.text = Token.text p.byte → (n = true ∨ Literal.width (p.text ++ join ps) = 0) →
    Settled (.statement (Body.staysInName n p.byte)) ps → Settled (.statement n) (p :: ps)
  | literal {run ps : List Piece} {number : Piece} {stored : List UInt8} : run ≠ [] →
    (∀ p ∈ run, Figure p) → Literal.width (join run ++ join ps) = (join run).length →
    StoredNumber.encode (Literal.value (join run)) = .ok stored → number.byte = Token.number →
    number.text = [] → number.stored = some stored → Settled (.statement false) ps →
    Settled (.statement false) (run ++ number :: ps)

/-- No literal starts in front of the text, and no name goes on. -/
def Firm (text : List Char) : Prop := ∀ c ∈ text.head?, Text.isDecimal c = false ∧ c ≠ '.'

theorem Firm.width_eq_zero {text : List Char} (h : Firm text) : Literal.width text = 0 := by
  rw [Literal.width_eq_zero_iff]
  unfold Literal.startsLiteral
  split
  · exact absurd rfl (h _ rfl).2
  · exact (h _ rfl).1
  · rfl

theorem firm_bracket (text : List Char) : Firm ('[' :: text) := by
  rintro c ⟨⟩
  decide

theorem AllClose.firm {ps qs : List Piece} (h : AllClose ps qs) (hps : Firm (join ps)) :
    Firm (join qs) := by
  intro c hc
  rcases h.head?_join with hhead | hhead
  · exact hps c (hhead ▸ hc)
  · rw [hhead] at hc
    cases hc
    decide

/-- The spelling of a token that is no figure starts no literal. -/
theorem firm_text {b : UInt8} (h : isLiteralToken b = false) (tail : List Char) :
    Firm (Token.text b ++ tail) := by
  obtain ⟨first, rest, ho⟩ := Token.exists_orderly b
  rw [ho.text_eq]
  rintro c ⟨⟩
  simp only [isLiteralToken, Bool.or_eq_false_iff, beq_eq_false_iff_ne] at h
  refine ⟨Bool.eq_false_iff.mpr fun hd => ?_, fun hp => h.1.1.1.2 (ho.point hp)⟩
  exact absurd (ho.digit hd) (by simp [h.1.1.1.1])

theorem staysInName_of_firm {b : UInt8} {tail : List Char} (h : Firm (Token.text b ++ tail)) (n : Bool) :
    Body.staysInName n b = Token.isLetter b := by
  have hdigit : Token.isDigit b = false := by
    by_contra hd
    rw [Bool.not_eq_false] at hd
    have htoken : isLiteralToken b = true := by simp [isLiteralToken, hd]
    obtain ⟨c, hc, -, -, -, hdecimal, -⟩ :=
      Grammar.exists_character (letter_or_mark_of_isLiteralToken htoken)
    rw [hc] at h
    rw [(h c rfl).1, hd] at hdecimal
    exact absurd hdecimal (by decide)
  simp [Body.staysInName, hdigit]

/-- **Names.** Where no literal can start, it does not matter whether a name goes on. -/
theorem Settled.of_firm {n : Bool} {ps : List Piece} (h : Settled (.statement n) ps)
    (hfirm : Firm (join ps)) (n' : Bool) : Settled (.statement n') ps := by
  cases h with
  | nil => exact .nil nofun
  | opening hb hs ht hrest => exact .opening hb hs ht hrest
  | coded hs ht hrest => exact .coded hs ht hrest
  | named hb hs ht hrest => exact .named hb hs ht hrest
  | written hb hs ht hrest => exact .written hb hs ht hrest
  | plain ho hs ht hw hrest =>
    rw [join_cons, ht] at hfirm
    rw [staysInName_of_firm hfirm] at hrest
    rw [← staysInName_of_firm hfirm n'] at hrest
    exact .plain ho hs ht (.inr (by rw [ht]; exact hfirm.width_eq_zero)) hrest
  | @literal run ps number stored hne hrun hw =>
    -- the literal itself would start here
    exfalso
    obtain ⟨p, rest, rfl⟩ := List.exists_cons_of_ne_nil hne
    obtain ⟨c, hc, -⟩ := (hrun p List.mem_cons_self).exists_character
    rw [List.cons_append, join_cons, hc] at hfirm
    rw [length_join_figures hrun, join_cons, hc] at hw
    have hzero : Literal.width ([c] ++ join rest ++ join ps) = 0 := Firm.width_eq_zero hfirm
    rw [hzero] at hw
    exact absurd hw (by simp)

/-! ## Runs of figures -/

theorem Figure.isOpen {p : Piece} (h : Figure p) : p.isOpen = true := by
  obtain ⟨first, rest, ho⟩ := Token.exists_orderly p.byte
  obtain ⟨c, hc, -⟩ := h.exists_character
  have htext : first :: rest = [c] := by rw [← ho.text_eq, ← h.text, hc]
  have hbracket : c ≠ '[' := by
    rintro rfl
    have hcode := ho.bracket (List.cons.inj htext).1
    rw [ho.text_eq, htext, Token.code] at hcode
    exact absurd (List.cons.inj hcode).2 (by simp)
  have hquote : p.byte ≠ Token.quote := by
    intro hb
    have := h.byte
    rw [hb] at this
    exact absurd this (by decide)
  simp [Piece.isOpen, h.inStatement, hc, hbracket, hquote]

theorem settled_map_coded {part qs : List Piece} (hpart : ∀ p ∈ part, p.stored = none)
    (h : Settled (.statement false) qs) : Settled (.statement false) (part.map coded ++ qs) := by
  induction part with
  | nil => exact h
  | cons p part ih =>
    exact .coded (hpart p List.mem_cons_self) rfl (ih fun q hq => hpart q (List.mem_cons_of_mem _ hq))

/-- A digit in front of `text` also stands in front of `other`. -/
def DigitFrom (text other : List Char) : Prop :=
  ∀ c ∈ text.head?, Text.isDecimal c = true → other.head? = some c

theorem digitFrom_bracket (text other : List Char) : DigitFrom ('[' :: text) other := by
  rintro c ⟨⟩ hd
  exact absurd hd (by decide)

theorem digitFrom_map_coded {part : List Piece} (hne : part ≠ []) (qs : List Piece) (other : List Char) :
    DigitFrom (join (part.map coded ++ qs)) other := by
  obtain ⟨p, rest, rfl⟩ := List.exists_cons_of_ne_nil hne
  rw [List.map_cons, List.cons_append, join_cons]
  exact digitFrom_bracket _ _

theorem digitFrom_figures {part : List Piece} (hne : part ≠ []) (hpart : ∀ p ∈ part, Figure p)
    (qs : List Piece) : DigitFrom (join (part ++ qs)) (join part) := by
  obtain ⟨p, rest, rfl⟩ := List.exists_cons_of_ne_nil hne
  obtain ⟨c, hc, -⟩ := (hpart p List.mem_cons_self).exists_character
  rw [List.cons_append, join_cons, join_cons, hc]
  exact fun x hx _ => hx

/-- No literal starts at a figure at which none started before, if no digit comes behind it. -/
theorem width_eq_zero_of_digitFrom {c : Char} {text other : List Char} (h : DigitFrom text other)
    (hc : Literal.width (c :: other) = 0) : Literal.width (c :: text) = 0 := by
  rw [Literal.width_eq_zero_iff] at hc ⊢
  by_cases hpoint : c = '.'
  · subst hpoint
    cases text with
    | nil => rfl
    | cons x text =>
      by_contra hx
      have hhead := h x rfl (Bool.not_eq_false _ ▸ hx)
      cases other with
      | nil => simp at hhead
      | cons y other =>
        cases hhead
        exact hx hc
  · rw [Literal.startsLiteral_cons_of_ne hpoint] at hc ⊢
    exact hc

/-- A figure at which no literal starts, in front of settled pieces. -/
theorem settled_figure {n : Bool} {p : Piece} {qs : List Piece} {other : List Char} (hp : Figure p)
    (hsingle : n = true ∨ Literal.width (p.text ++ other) = 0) (hfrom : DigitFrom (join qs) other)
    (h : Settled (.statement (Body.staysInName n p.byte)) qs) :
    Settled (.statement n) (p :: qs) ∧ DigitFrom (join (p :: qs)) (p.text ++ other) := by
  obtain ⟨c, hc, -⟩ := hp.exists_character
  refine ⟨.plain hp.isOpen hp.stored hp.text (hsingle.imp_right fun hzero => ?_) h, ?_⟩
  · rw [hc] at hzero ⊢
    exact width_eq_zero_of_digitFrom hfrom hzero
  · rw [join_cons, hc]
    exact fun x hx _ => hx

/-- A literal, which is written with its numbers, in front of settled parts. -/
theorem settled_literal {w : Nat} {S : List Literal.Segment} {front qs : List Piece}
    (hrun : ∀ p ∈ front, Figure p) (hne : front ≠ []) (hw : 0 < w) (other : List Char)
    (h : Settled (.statement false) (codeLiterals S (front.drop w) ++ qs)) :
    Settled (.statement false) (codeLiterals (⟨true, w⟩ :: S) front ++ qs) ∧
      DigitFrom (join (codeLiterals (⟨true, w⟩ :: S) front ++ qs)) other := by
  have hcode : codeLiterals (⟨true, w⟩ :: S) front ++ qs =
      (front.take w).map coded ++ (codeLiterals S (front.drop w) ++ qs) := by
    rw [← List.append_assoc]
    rfl
  rw [hcode]
  refine ⟨settled_map_coded (fun q hq => (hrun q (List.mem_of_mem_take hq)).stored) h, digitFrom_map_coded ?_ _ _⟩
  simpa [Nat.pos_iff_ne_zero.mp hw] using hne

/-- Where the parts of a text start with a literal, no name goes on. -/
theorem not_inName_of_segments {n : Bool} {text : List Char} {T : List Literal.Segment}
    (h : Literal.segments n text = T) (hT : ∀ s ∈ T.head?, s.isLiteral = true) (hne : T ≠ []) : n = false := by
  by_contra hn
  rw [Bool.not_eq_false] at hn
  cases text with
  | nil =>
    rw [Literal.segments_nil] at h
    exact hne h.symm
  | cons c rest =>
    rw [Literal.segments_single (.inl hn)] at h
    exact absurd (hT ⟨false, 1⟩ (by rw [← h]; rfl)) (by decide)

/-- **A run of figures.** The parts `S` of a run are settled when their literals are written with their
numbers, if what comes next is settled, too: in any case where the run ends, and where a literal of the run
follows, if no name goes on. What comes next has no digit in front that the run does not have there. -/
theorem settled_codeLiterals {S T : List Literal.Segment} {n : Bool} {front back qs : List Piece}
    (hrun : ∀ p ∈ front ++ back, Figure p)
    (hsegments : Literal.segments n (join (front ++ back)) = S ++ T)
    (hT : ∀ s ∈ T.head?, s.isLiteral = true)
    (hlength : front.length = Literal.totalWidth S)
    (hqs : ∀ m, (T ≠ [] → m = false) → Settled (.statement m) qs)
    (hdigit : DigitFrom (join qs) (join back)) :
    Settled (.statement n) (codeLiterals S front ++ qs) ∧
      DigitFrom (join (codeLiterals S front ++ qs)) (join (front ++ back)) := by
  induction S generalizing n front with
  | nil =>
    obtain rfl := List.eq_nil_of_length_eq_zero hlength
    rw [List.nil_append] at hsegments
    exact ⟨hqs n (not_inName_of_segments hsegments hT), hdigit⟩
  | cons s S ih =>
    rw [Literal.totalWidth_cons] at hlength
    have hs : 0 < s.width :=
      Literal.width_pos_of_mem_segments (by rw [hsegments]; exact List.mem_cons_self)
    obtain ⟨p, rest, rfl⟩ : ∃ p rest, front = p :: rest :=
      List.exists_cons_of_ne_nil (List.length_pos_iff.mp (by omega))
    have hp := hrun p (by simp)
    obtain ⟨c, hc, halpha, hisDigit, -⟩ := hp.exists_character
    have htext : join (p :: rest ++ back) = c :: join (rest ++ back) := by
      rw [List.cons_append, join_cons, hc]
      rfl
    by_cases hsingle : n = true ∨ Literal.width (c :: join (rest ++ back)) = 0
    · rw [htext, Literal.segments_single hsingle, List.cons_append, List.cons.injEq] at hsegments
      obtain ⟨rfl, hsegments⟩ := hsegments
      dsimp only at hlength
      rw [List.length_cons] at hlength
      obtain ⟨hsettled, hfrom⟩ := ih (fun q hq => hrun q (by simp_all)) hsegments (by omega)
      rw [halpha, hisDigit, Bool.and_comm] at hsettled
      rw [← List.singleton_append, ← hc] at hsingle
      exact settled_figure hp hsingle hfrom hsettled
    · rw [not_or, Bool.not_eq_true] at hsingle
      obtain ⟨rfl, hpos⟩ := hsingle
      rw [htext, Literal.segments_literal (Nat.pos_of_ne_zero hpos), List.cons_append, List.cons.injEq,
        ← htext] at hsegments
      obtain ⟨rfl, hsegments⟩ := hsegments
      dsimp only at hlength hs
      generalize Literal.width (join (p :: rest ++ back)) = w at *
      have hw : w ≤ (p :: rest).length := by omega
      rw [← join_drop_figures hrun, List.drop_append_of_le_length hw] at hsegments
      obtain ⟨hfront, hback⟩ := List.forall_mem_append.mp hrun
      have hbehind : ∀ q ∈ (p :: rest).drop w ++ back, Figure q :=
        List.forall_mem_append.mpr ⟨fun q hq => hfront q (List.mem_of_mem_drop hq), hback⟩
      obtain ⟨hsettled, -⟩ := ih hbehind hsegments (by rw [List.length_drop]; omega)
      exact settled_literal hfront (List.cons_ne_nil _ _) hs _ hsettled

/-- A whole run, in front of settled pieces that start with no digit. -/
theorem settled_codeLiterals_whole {n : Bool} {run qs : List Piece} (hrun : ∀ p ∈ run, Figure p)
    (hqs : ∀ m, Settled (.statement m) qs) (hfirm : Firm (join qs)) :
    Settled (.statement n) (codeLiterals (Literal.segments n (join run)) run ++ qs) := by
  have hlength : run.length = Literal.totalWidth (Literal.segments n (join run)) := by
    rw [Literal.totalWidth_segments, length_join_figures hrun]
  have hdigit : DigitFrom (join qs) (join []) := by
    intro c hc hd
    rw [(hfirm c hc).1] at hd
    exact absurd hd (by decide)
  have hfigures : ∀ p ∈ run ++ [], Figure p := by rwa [List.append_nil]
  refine (settled_codeLiterals (T := []) hfigures ?_ ?_ hlength (fun m _ => hqs m) hdigit).1
  · rw [List.append_nil, List.append_nil]
  · simp

theorem totalWidth_front {n : Bool} {run : List Piece} {S : List Literal.Segment} {s : Literal.Segment}
    (hrun : ∀ p ∈ run, Figure p) (hsplit : S ++ [s] = Literal.segments n (join run)) :
    Literal.totalWidth S + s.width = run.length := by
  rw [← length_join_figures hrun, ← Literal.totalWidth_segments n, ← hsplit, Literal.totalWidth_append,
    Literal.totalWidth_cons, Literal.totalWidth_nil, Nat.add_zero]

/-- A run with a literal at its end: what stands in front of the literal is settled, whatever becomes of the literal. -/
theorem settled_front {n : Bool} {run : List Piece} {S : List Literal.Segment} {width : Nat}
    (hrun : ∀ p ∈ run, Figure p) (hsplit : S ++ [⟨true, width⟩] = Literal.segments n (join run))
    (rs : List Piece)
    (hrs : Settled (.statement false) rs) (hdigit : DigitFrom (join rs) (join (run.drop (run.length - width)))) :
    Settled (.statement n) (codeLiterals S (run.take (run.length - width)) ++ rs) := by
  have hsum : Literal.totalWidth S + width = run.length := totalWidth_front hrun hsplit
  refine (settled_codeLiterals (T := [⟨true, width⟩]) ?_ ?_ ?_ ?_ ?_ hdigit).1
  · rwa [List.take_append_drop]
  · rw [List.take_append_drop, hsplit]
  · simp
  · rw [List.length_take]
    omega
  · intro m hm
    rw [hm (by simp)]
    exact hrs

/-- **A run and the stored number behind it.** The number is left out if the reader finds a literal of its
value in front of it, and written out otherwise. -/
theorem settleNumber_settled {n : Bool} {run behind qs : List Piece} {number : Piece}
    {stored : List UInt8} (hrun : ∀ p ∈ run, Figure p) (hbyte : number.byte = Token.number)
    (htext : number.text = []) (hstored : number.stored = some stored)
    (hqs : Settled (.statement false) qs) (hbehind : AllClose behind qs) :
    Settled (.statement n) ((settleNumber n run number stored (join behind)).1 ++ qs) := by
  have hwritten : ∀ m, Settled (.statement m) ({ number with text := explicitNumber stored } :: qs) :=
    fun m => .written hbyte hstored rfl hqs
  obtain ⟨rest, hrest⟩ := exists_explicitNumber stored
  rw [settleNumber_eq]
  dsimp only
  split
  · next width hlast =>
    have hsplit := List.dropLast_append_getLast? _ hlast
    have hpos : 0 < width :=
      Literal.width_pos_of_mem_segments (s := ⟨true, width⟩) (List.mem_of_getLast? hlast)
    generalize (Literal.segments n (join run)).dropLast = S at hsplit ⊢
    have hfront := settled_front hrun hsplit
    have hfinal : ∀ p ∈ run.drop (run.length - width), Figure p := fun p hp =>
      hrun p (List.mem_of_mem_drop hp)
    have hne : run.drop (run.length - width) ≠ [] := by
      have hsum : Literal.totalWidth S + width = run.length := totalWidth_front hrun hsplit
      rw [ne_eq, List.drop_eq_nil_iff]
      omega
    generalize run.drop (run.length - width) = final at hfront hfinal hne ⊢
    split
    · next hreads =>
      have hjoined : join final ≠ [] := by
        rw [← List.length_pos_iff, length_join_figures hfinal]
        exact List.length_pos_iff.mpr hne
      rw [Literal.readsBackAs_iff hjoined] at hreads
      rw [List.append_assoc, List.append_assoc, List.singleton_append]
      refine hfront _ (.literal hne hfinal ?_ hreads.2 hbyte htext hstored hqs)
        (digitFrom_figures hne hfinal _)
      have hle := hbehind.width_le (join final)
      have hown := Literal.width_append (join final) (join behind)
      have hmore := Literal.width_le_append (join final) (join qs)
      omega
    · rw [List.append_assoc, List.append_assoc]
      exact hfront _ (settled_map_coded (fun p hp => (hfinal p hp).stored) (hwritten false))
        (digitFrom_map_coded hne _ _)
  · rw [List.append_assoc]
    refine settled_codeLiterals_whole hrun hwritten ?_
    rw [List.singleton_append, join_cons, hrest]
    exact firm_bracket _

/-! ## Whole lines -/

/-- How the reader reads at a place of a line. -/
def Place.mode (n : Bool) : Place → Body.Mode
  | .statement => .statement n
  | .remark => .remark
  | .string => .quotation

theorem isAmbiguous_of_isLiteralToken {b : UInt8} (h : isLiteralToken b = true) :
    Token.isAmbiguous b = false := by
  simp only [isLiteralToken, Token.isDigit, Token.isAmbiguous] at h ⊢
  grind

theorem Spelled.figure {place : Place} {p : Piece} {ps : List Piece} (h : Spelled place (p :: ps))
    (hp : p.inRun = true) : place = .statement ∧ Figure p ∧ Spelled .statement ps := by
  obtain ⟨hstatement, hbyte⟩ := Bool.and_eq_true_iff.mp hp
  have hne : p.byte ≠ Token.quote ∧ p.byte ≠ Token.number := by
    constructor <;> (intro hb; rw [hb] at hbyte; exact absurd hbyte (by decide))
  cases h with
  | remark => cases hstatement
  | inside => cases hstatement
  | closing => cases hstatement
  | opening => exact absurd rfl hne.1
  | lone => exact absurd rfl hne.1
  | number => exact absurd rfl hne.2
  | plain _ hrest =>
    refine ⟨rfl, ⟨hbyte, ?_, rfl, rfl⟩, hrest⟩
    dsimp only
  | named hb =>
    rw [isAmbiguous_of_isLiteralToken hbyte] at hb
    cases hb

/-- A run of a line and what follows it. -/
theorem Spelled.run {ps : List Piece} (h : Spelled .statement ps) :
    (∀ p ∈ ps.takeWhile inRun, Figure p) ∧ Spelled .statement (ps.dropWhile inRun) := by
  induction ps with
  | nil => exact ⟨by simp, h⟩
  | cons p ps ih =>
    by_cases hp : p.inRun = true
    · obtain ⟨-, hfigure, hrest⟩ := h.figure hp
      rw [List.takeWhile_cons_of_pos hp, List.dropWhile_cons_of_pos hp]
      exact ⟨List.forall_mem_cons.mpr ⟨hfigure, (ih hrest).1⟩, (ih hrest).2⟩
    · rw [List.takeWhile_cons_of_neg hp, List.dropWhile_cons_of_neg hp]
      exact ⟨by simp, h⟩

/-- No literal starts behind a run, unless at a stored number. -/
theorem Spelled.firm {p : Piece} {ps : List Piece} (h : Spelled .statement (p :: ps))
    (hp : p.inRun = false) (hstored : p.stored = none) : Firm (join (p :: ps)) := by
  rw [join_cons]
  cases h with
  | opening =>
    dsimp only
    exact firm_text (by decide) _
  | lone => exact firm_bracket _
  | number => cases hstored
  | plain =>
    dsimp only [inRun] at hp ⊢
    exact firm_text hp _
  | named hb =>
    obtain ⟨rest, hrest, -⟩ := Body.exists_of_isName (Token.bracketed_isName hb)
    dsimp only
    rw [hrest]
    exact firm_bracket _

/-- A run ends in front of a piece that is no figure. -/
theorem not_inRun_of_dropWhile {rest behind : List Piece} {q : Piece} (h : rest.dropWhile inRun = q :: behind) :
    q.inRun = false := by
  have hnot := List.head?_dropWhile_not inRun rest
  rw [h] at hnot
  simpa using hnot

/-- A line that starts with a figure is a run and what follows it. -/
theorem Spelled.split_run {place : Place} {p : Piece} {ps : List Piece} (h : Spelled place (p :: ps))
    (hp : p.inRun = true) :
    place = .statement ∧ (∀ q ∈ p :: ps.takeWhile inRun, Figure q) ∧
      Spelled .statement (ps.dropWhile inRun) ∧
      p :: ps = (p :: ps.takeWhile inRun) ++ ps.dropWhile inRun := by
  obtain ⟨hplace, hfigure, hrest⟩ := h.figure hp
  refine ⟨hplace, List.forall_mem_cons.mpr ⟨hfigure, hrest.run.1⟩, hrest.run.2, ?_⟩
  rw [List.cons_append, List.takeWhile_append_dropWhile]

theorem isLetter_of_isAmbiguous {b : UInt8} (h : Token.isAmbiguous b = true) :
    Token.isLetter b = false := by
  simp only [Token.isAmbiguous, Token.isLetter] at h ⊢
  grind

theorem isLetter_of_bracket {b : UInt8} {rest : List Char} (h : Token.text b = '[' :: rest) :
    Token.isLetter b = false := by
  by_contra hb
  rw [Bool.not_eq_false] at hb
  obtain ⟨c, hc, -, halpha, -⟩ := Grammar.exists_character (b := b) (by rw [hb]; rfl)
  rw [hc, List.cons.injEq] at h
  rw [h.1, hb] at halpha
  exact absurd halpha (by decide)

/-- A token that is no figure is settled as it is, whatever stands in front of it. A name goes on behind a
letter only. -/
theorem settled_token {n : Bool} {b : UInt8} {qs : List Piece} (hb : b ≠ Token.quote)
    (hfigure : isLiteralToken b = false) (hqs : Settled (.statement (Token.isLetter b)) qs) :
    Settled (.statement n) (⟨b, Token.text b, true, none⟩ :: qs) := by
  obtain ⟨first, rest, ho⟩ := Token.exists_orderly b
  by_cases hfirst : first = '['
  · refine .coded rfl ?_ ?_
    · dsimp only
      exact ho.bracket hfirst
    · rw [isLetter_of_bracket (hfirst ▸ ho.text_eq)] at hqs
      exact hqs
  · refine .plain ?_ rfl ?_ (.inr ?_) ?_
    · simp [isOpen, ho.text_eq, hfirst, hb]
    · dsimp only
    · dsimp only
      exact (firm_text hfigure _).width_eq_zero
    · rw [staysInName_of_firm (firm_text hfigure [])]
      exact hqs

/-- Pieces that are neither figures nor stored numbers stay as they are. -/
theorem Spelled.settled {place : Place} {p : Piece} {ps : List Piece} (h : Spelled place (p :: ps))
    (hp : p.inRun = false) (hstored : p.stored = none) :
    ∃ next, Spelled next ps ∧ ∀ (n : Bool) (qs : List Piece),
      Settled (next.mode (p.inStatement && Token.isLetter p.byte)) qs →
        Settled (place.mode n) (p :: qs) := by
  cases h with
  | remark b hrest => exact ⟨.remark, hrest, fun n qs hqs => .remark rfl rfl (by dsimp only) hqs⟩
  | inside hb hrest =>
    exact ⟨.string, hrest, fun n qs hqs => .string rfl rfl (by dsimp only) (by rwa [if_neg hb])⟩
  | closing hrest =>
    exact ⟨.statement, hrest, fun n qs hqs => .string rfl rfl (by dsimp only) (by rwa [if_pos rfl])⟩
  | opening hrest =>
    exact ⟨.string, hrest, fun n qs hqs => .opening rfl rfl (by dsimp only) hqs⟩
  | lone hrest => exact ⟨.statement, hrest, fun n qs hqs => .coded rfl rfl hqs⟩
  | number => cases hstored
  | plain hb hrest => exact ⟨.statement, hrest, fun n qs hqs => settled_token hb hp hqs⟩
  | named hb hrest =>
    refine ⟨.statement, hrest, fun n qs hqs => .named hb rfl (by dsimp only) ?_⟩
    dsimp only at hqs
    rw [isLetter_of_isAmbiguous hb] at hqs
    exact hqs

theorem Spelled.stored {place : Place} {p : Piece} {ps : List Piece} {stored : List UInt8}
    (h : Spelled place (p :: ps)) (hstored : p.stored = some stored) :
    place = .statement ∧ p.byte = Token.number ∧ p.text = [] ∧ Spelled .statement ps := by
  cases h with
  | number hrest => exact ⟨rfl, rfl, rfl, hrest⟩
  | remark => cases hstored
  | inside => cases hstored
  | closing => cases hstored
  | opening => cases hstored
  | lone => cases hstored
  | plain => cases hstored
  | named => cases hstored

theorem AllClose.last {ps qs : List Piece} {p : Piece} (h : AllClose (ps ++ [p]) qs) :
    ∃ front q, qs = front ++ [q] ∧ Closes p q := by
  induction ps generalizing qs with
  | nil =>
    obtain ⟨q, rest, hclose, hrest, rfl⟩ := List.forall₂_cons_left_iff.mp h
    obtain rfl := List.forall₂_nil_left_iff.mp hrest
    exact ⟨[], q, rfl, hclose⟩
  | cons a ps ih =>
    cases h with
    | cons _ hrest =>
      obtain ⟨front, q, rfl, hclose⟩ := ih hrest
      exact ⟨_ :: front, q, rfl, hclose⟩

/-- No name goes on behind a stored number. -/
theorem endsInName_of_number {run settled done : List Piece} {number : Piece}
    (h : AllClose (run ++ [number]) settled) (hbyte : number.byte = Token.number) :
    endsInName (settled.reverse ++ done) = false := by
  obtain ⟨front, q, rfl, hclose⟩ := h.last
  have hletter : Token.isLetter Token.number = false := by decide
  simp [endsInName, hclose.byte, hbyte, hletter]

/-- **Settling the numbers of a line.** Pieces are closed only, and the result is settled. -/
theorem resolveFrom_settled {place : Place} {ps : List Piece} (h : Spelled place ps) (done : List Piece)
    (events : Journal) :
    ∃ qs, (resolveFrom ps done events).1 = done.reverse ++ qs ∧ AllClose ps qs ∧
      Settled (place.mode (endsInName done)) qs := by
  unfold resolveFrom
  fun_induction resolveFromWith Slip.ignored ps done events generalizing place with
  | case1 done events =>
    refine ⟨[], (List.append_nil _).symm, .nil, .nil fun hmode => ?_⟩
    cases h with
    | nil hplace => cases place <;> simp_all [Place.mode]
  | case2 done events p rest hp run inName =>
    -- the line ends with the run
    rename_i hafter
    obtain ⟨rfl, hrun, -, hall⟩ := h.split_run hp
    rw [hafter, List.append_nil] at hall
    rw [hall]
    refine ⟨settleRun inName run, by simp [pure], codeLiterals_closes _ run, ?_⟩
    have hsettled : Settled (.statement inName) (settleRun inName run ++ []) :=
      settled_codeLiterals_whole hrun (fun m => .nil nofun) nofun
    rwa [List.append_nil] at hsettled
  | case3 done events p rest hp run inName q behind hafter _ stored hstored =>
    rename_i ih
    obtain ⟨rfl, hrun, hspelled, hall⟩ := h.split_run hp
    rw [hafter] at hspelled hall
    obtain ⟨-, hbyte, htext, hbehind⟩ := hspelled.stored hstored
    obtain ⟨qs, hresult, hclose, hsettled⟩ := ih (settleNumber inName run q stored (join behind)).1
      (settleNumber inName run q stored (join behind)).2 hbehind
    have hcloses := settleNumber_closes inName run q stored (join behind)
    rw [endsInName_of_number hcloses hbyte] at hsettled
    refine ⟨(settleNumber inName run q stored (join behind)).1 ++ qs, hresult.trans (by simp), ?_, ?_⟩
    · rw [hall, List.append_cons]
      exact hcloses.append hclose
    · exact settleNumber_settled (n := inName) hrun hbyte htext hstored hsettled hclose
  | case4 done events p rest hp run inName q behind hafter _ hstored =>
    rename_i ih
    obtain ⟨rfl, hrun, hspelled, hall⟩ := h.split_run hp
    have hq := not_inRun_of_dropWhile hafter
    rw [hafter] at hspelled hall
    obtain ⟨qs, hresult, hclose, hsettled⟩ := ih hspelled
    -- no literal can start at the piece behind the run, so it does not matter whether a name goes on
    have hfirm : Firm (join qs) := hclose.firm (hspelled.firm hq hstored)
    refine ⟨settleRun inName run ++ qs, by rw [hresult]; simp, ?_, ?_⟩
    · rw [hall]
      exact (codeLiterals_closes _ run).append hclose
    · exact settled_codeLiterals_whole hrun (fun m => hsettled.of_firm hfirm m) hfirm
  | case5 done events p rest hp stored hstored ih =>
    obtain ⟨rfl, hbyte, -, hrest⟩ := h.stored hstored
    obtain ⟨qs, hresult, hclose, hsettled⟩ := ih (storedValue stored) hrest
    refine ⟨{ p with text := explicitNumber stored } :: qs, hresult.trans (by simp [explicitNumber]),
      .cons (closes_written p stored) hclose, .written hbyte hstored rfl ?_⟩
    have hname : endsInName ({ p with text := explicitNumber stored } :: done) = false := by
      have hnumber : AllClose ([] ++ [p]) [{ p with text := explicitNumber stored }] :=
        .cons (closes_written p stored) .nil
      exact endsInName_of_number hnumber hbyte
    change Settled (.statement (endsInName ({ p with text := explicitNumber stored } :: done))) qs at hsettled
    rwa [hname] at hsettled
  | case6 done events p rest hp hstored ih =>
    rw [Bool.not_eq_true] at hp
    obtain ⟨next, hspelled, hgrow⟩ := h.settled hp hstored
    obtain ⟨qs, hresult, hclose, hsettled⟩ := ih hspelled
    exact ⟨p :: qs, by rw [hresult]; simp, .cons (.refl p) hclose, hgrow _ qs hsettled⟩

end Piece

end TapeBasic
