import TapeBasic.Proofs.AsciiSpellings
import TapeBasic.Proofs.LineRoundTrip
import TapeBasic.Proofs.ShownTexts

/-!
# Nothing stops a listing

Showing a line looks up tokens, takes texts for numbers, and rounds and decodes stored numbers. Any of these
can fail where it is given the wrong thing. A line that is shown with these slips kept is shown as if they were
passed over: only one of them is ever met, a stored number that is cut short.

* `Piece.Moves`, `Piece.Reaches`: the steps through a line, from token to token.
* `Piece.MeetsCut`: these steps lead to a stored number in statement text that has too few bytes.

Results:
* `Piece.checkedResolveFrom_eq`, `Piece.checkedSeparate_eq`: the steps that could slip do not.
* `Listing.checkedRenderLine_eq`: a line is shown as without the checks.
* `Listing.renderLine_error_iff`: a line is refused exactly if it meets a number that is cut short.
* `unfailing_decode`: what this means for the texts of any bytes.
-/
namespace TapeBasic

/-! ## Stored numbers and literals -/

theorem StoredNumber.isOk_decode (e a b c d : UInt8) : (decode [e, a, b, c, d]).isOk = true := by
  unfold decode
  dsimp only
  cases [e, a, b, c, d].all (· == 0) with
  | true => rfl
  | false => rfl

theorem StoredNumber.exists_decode {stored : List UInt8} (h : stored.length = size) :
    ∃ value, decode stored = .ok value := by
  have hok : (decode stored).isOk = true := by
    have hfive : stored.length = 5 := h
    clear h
    rcases stored with _ | ⟨e, _ | ⟨a, _ | ⟨b, _ | ⟨c, _ | ⟨d, _ | ⟨x, rest⟩⟩⟩⟩⟩⟩
    case cons.cons.cons.cons.cons.nil => exact isOk_decode e a b c d
    all_goals simp at hfive
  cases hdecode : decode stored with
  | ok value => exact ⟨value, rfl⟩
  | error failure =>
    rw [hdecode] at hok
    cases hok

theorem StoredNumber.encode_ne_wrongSize (value : Binary64) (n : Nat) :
    encode value ≠ .error (.wrongSize n) := by
  cases value with
  | infinite negative => exact nofun
  | notANumber => exact nofun
  | finite negative v =>
    rw [encode]
    generalize round v = rounded
    obtain ⟨fraction, exponent⟩ := rounded
    dsimp only
    split
    · exact nofun
    · split
      · exact nofun
      · generalize bytes fraction exponent = stored
        split <;> exact nofun

/-- What is taken for a number in front of a stored one is a literal. -/
theorem Literal.checkedReadsBackAs_eq {literal : List Char} (hne : literal ≠ [])
    (following : List Char) (stored : List UInt8) :
    checkedReadsBackAs literal following stored = .ok (readsBackAs literal following stored) := by
  unfold readsBackAs checkedReadsBackAs
  by_cases hwidth : width (literal ++ following) = literal.length
  · rw [if_pos (beq_iff_eq.mpr hwidth), checkedValue_eq hne hwidth]
    dsimp only
    cases hencode : StoredNumber.encode (value literal) with
    | ok bytes => rfl
    | error failure =>
      cases failure with
      | unstorable v => rfl
      | outOfRange v exponent => rfl
      | wrongSize n => exact absurd hencode (StoredNumber.encode_ne_wrongSize _ n)
  · rw [if_neg (by simpa using hwidth)]
    rfl

/-! ## The pieces of a line -/

namespace Piece

theorem checkedStoredValue_eq {stored : List UInt8} (h : stored.length = StoredNumber.size) :
    checkedStoredValue stored = .ok (storedValue stored) := by
  obtain ⟨value, hvalue⟩ := StoredNumber.exists_decode h
  rw [storedValue, checkedStoredValue, hvalue]
  rfl

/-- A piece as it was cut: a stored number has five bytes, and what can be part of a literal is one
character. -/
structure Fresh (p : Piece) : Prop where
  stored : ∀ stored ∈ p.stored, stored.length = StoredNumber.size
  figure : p.inRun = true → Figure p

theorem fresh_ofToken (bracketed first : Bool) (place : Place) (b : UInt8) (rest : List UInt8) :
    Fresh (ofToken bracketed first place b rest).1 := by
  have hplain : isLiteralToken b = true → Token.isAmbiguous b = false ∧ b ≠ Token.quote := by
    refine fun hb => ⟨isAmbiguous_of_isLiteralToken hb, ?_⟩
    rintro rfl
    exact absurd hb (by decide)
  have hspelled : ∀ text, (isLiteralToken b = true → text = Token.text b) →
      Fresh ⟨b, text, place == .statement, none⟩ := fun text htext =>
    ⟨nofun, fun hrun => by
      obtain ⟨hstatement, hb⟩ := Bool.and_eq_true_iff.mp hrun
      exact ⟨hb, htext hb, hstatement, rfl⟩⟩
  unfold ofToken
  dsimp only
  split
  · exact hspelled _ fun hb => by rw [(hplain hb).1]; simp
  · split
    · next hquote =>
      simp only [Bool.and_eq_true, beq_iff_eq] at hquote
      have hnever : isLiteralToken b = true → False := fun hb => (hplain hb).2 hquote.1
      split
      · exact hspelled _ fun hb => (hnever hb).elim
      · split
        · exact hspelled _ fun hb => (hnever hb).elim
        · exact hspelled _ fun hb => (hnever hb).elim
    · exact hspelled _ fun hb => by rw [(hplain hb).1]; simp

theorem fresh_scanFrom {bracketed : Bool} {index : Nat} {place : Place} {tokens : List UInt8}
    {done pieces : List Piece} (h : scanFrom bracketed index place tokens done = .ok pieces)
    (hdone : ∀ p ∈ done, Fresh p) : ∀ p ∈ pieces, Fresh p := by
  fun_induction scanFrom bracketed index place tokens done with
  | case1 =>
    cases h
    exact fun p hp => hdone p (List.mem_reverse.mp hp)
  | case2 => cases h
  | case3 index place done b rest hnumber stored hlength ih =>
    refine ih h (List.forall_mem_cons.mpr ⟨⟨fun s hs => ?_, fun hrun => ?_⟩, hdone⟩)
    · obtain rfl := Option.some.inj hs
      rw [List.length_take] at hlength ⊢
      omega
    · simp only [Bool.and_eq_true, beq_iff_eq] at hnumber
      obtain ⟨-, hb⟩ := Bool.and_eq_true_iff.mp hrun
      have hmark : isLiteralToken Token.number = false := by decide
      dsimp only at hb
      rw [hnumber.2, hmark] at hb
      cases hb
  | case4 index place done b rest hnumber piece next hpiece ih =>
    refine ih h (List.forall_mem_cons.mpr ⟨?_, hdone⟩)
    have hfresh := fresh_ofToken bracketed (index == 0) place b rest
    rwa [hpiece] at hfresh

/-- A literal in front of a stored number can be taken for a number. -/
theorem checkedSettleNumber_eq (inName : Bool) {run : List Piece} (hrun : ∀ p ∈ run, Figure p)
    (number : Piece) {stored : List UInt8} (h : stored.length = StoredNumber.size)
    (following : List Char) :
    checkedSettleNumber inName run number stored following =
      .ok (settleNumber inName run number stored following) := by
  have hsum := Literal.totalWidth_segments inName (join run)
  rw [length_join_figures hrun] at hsum
  rw [settleNumber_eq, checkedSettleNumber, settleNumberWith]
  dsimp only [Slip.kept]
  rw [checkedStoredValue_eq h]
  cases hlast : (Literal.segments inName (join run)).getLast? with
  | none => rfl
  | some segment =>
    obtain ⟨isLiteral, width⟩ := segment
    cases isLiteral with
    | false => rfl
    | true =>
      have hpos : 0 < width :=
        Literal.width_pos_of_mem_segments (s := ⟨true, width⟩) (List.mem_of_getLast? hlast)
      have hsplit := List.dropLast_append_getLast? _ hlast
      rw [← hsplit, Literal.totalWidth_append, Literal.totalWidth_cons, Literal.totalWidth_nil] at hsum
      dsimp only at hsum
      have hfinal : (join (run.drop (run.length - width))).length = width := by
        rw [length_join_figures fun p hp => hrun p (List.mem_of_mem_drop hp), List.length_drop]
        omega
      have hne : join (run.drop (run.length - width)) ≠ [] := List.ne_nil_of_length_pos (by omega)
      dsimp only
      rw [Literal.checkedReadsBackAs_eq hne]
      cases Literal.readsBackAs (join (run.drop (run.length - width))) following stored <;> rfl

/-- **Settling.** No step of it slips. -/
theorem checkedResolveFrom_eq {pieces : List Piece} (h : ∀ p ∈ pieces, Fresh p) (done : List Piece)
    (events : Journal) :
    checkedResolveFrom pieces done events = .ok (resolveFrom pieces done events) := by
  unfold checkedResolveFrom resolveFrom
  fun_induction resolveFromWith Slip.ignored pieces done events with
  | case1 done events =>
    rw [resolveFromWith]
    rfl
  | case2 done events p rest hp run inName hafter =>
    exact resolveFromWith_of_last Slip.kept hp hafter done events
  | case3 done events p rest hp run inName q behind hafter _ stored hstored ih =>
    obtain ⟨hfirst, hrest⟩ := List.forall_mem_cons.mp h
    have hq : ∀ x ∈ q :: behind, Fresh x := fun x hx =>
      hrest x ((List.dropWhile_sublist inRun).subset (hafter ▸ hx))
    have hrun : ∀ x ∈ run, Figure x := by
      refine List.forall_mem_cons.mpr ⟨hfirst.figure hp, fun x hx => ?_⟩
      exact (hrest x ((List.takeWhile_sublist _).subset hx)).figure
        (List.all_eq_true.mp List.all_takeWhile x hx)
    have hchecked := checkedSettleNumber_eq inName hrun q ((hq q List.mem_cons_self).stored stored hstored)
      (join behind)
    rw [checkedSettleNumber] at hchecked
    rw [resolveFromWith_of_stored Slip.kept hp hafter hstored, hchecked]
    exact ih _ _ fun x hx => hq x (List.mem_cons_of_mem _ hx)
  | case4 done events p rest hp run inName q behind hafter _ hstored ih =>
    obtain ⟨-, hrest⟩ := List.forall_mem_cons.mp h
    rw [resolveFromWith_of_other Slip.kept hp hafter hstored]
    exact ih fun x hx => hrest x ((List.dropWhile_sublist inRun).subset (hafter ▸ hx))
  | case5 done events p rest hp stored hstored ih =>
    obtain ⟨hfirst, hrest⟩ := List.forall_mem_cons.mp h
    have hvalue : Slip.kept.take .zero (checkedStoredValue stored) = .ok (storedValue stored) :=
      checkedStoredValue_eq (hfirst.stored stored hstored)
    rw [resolveFromWith_number _ (Bool.not_eq_true _ ▸ hp) hstored, hvalue]
    exact ih (storedValue stored) hrest
  | case6 done events p rest hp hstored ih =>
    rw [resolveFromWith, if_neg hp, hstored]
    exact ih (List.forall_mem_cons.mp h).2

/-! ## Keeping pieces apart -/

theorem isAscii_of_shown {ps : List Piece} (h : AllShown ps) :
    ∀ c ∈ join ps ++ ['\n'], Text.isAscii c = true :=
  List.forall_mem_append.mpr
    ⟨fun c hc => Text.isAscii_of_isPrintable (Text.isPrintable_of_isCalm h.calm c hc),
      List.forall_mem_singleton.mpr rfl⟩

theorem checkedReadsBack_eq (p : Piece) {text : List Char}
    (h : ∀ c ∈ text, Text.isAscii c = true) : checkedReadsBack p text = .ok (p.readsBack text) := by
  unfold readsBack checkedReadsBack
  cases hwidth : Grammar.statement.width? text with
  | none => rfl
  | some width =>
    obtain ⟨b, hb⟩ := Grammar.exists_lookup_statement h hwidth
    dsimp only
    rw [hb]
    cases width == p.text.length <;> rfl

theorem separatedWith_kept (p : Piece) {text : List Char}
    (h : ∀ c ∈ text, Text.isAscii c = true) : separatedWith Slip.kept p text = .ok (p.separated text) := by
  rw [separated_eq, separatedWith]
  dsimp only [Slip.kept]
  rw [checkedReadsBack_eq p h]
  generalize p.readsBack text = same
  generalize p.isOpen = isOpen
  cases isOpen <;> cases same <;> rfl

theorem separatePassWith_kept {ps : List Piece} (h : AllShown ps) :
    separatePassWith Slip.kept ps = .ok (separatePass ps) := by
  induction ps with
  | nil => rfl
  | cons p ps ih =>
    have htext : p.text ++ (separatePass ps).2 = join (p :: ps) ++ ['\n'] := by
      rw [separatePass_snd, join_cons, List.append_assoc]
    have hfirst := separatedWith_kept p (htext ▸ isAscii_of_shown h)
    rw [separatePassWith, ih fun x hx => h x (List.mem_cons_of_mem _ hx), separatePass_cons]
    change (do
      let q ← separatedWith Slip.kept p (p.text ++ (separatePass ps).2)
      pure (q :: (separatePass ps).1, p.text ++ (separatePass ps).2)) = _
    rw [hfirst]
    rfl

/-- **Keeping apart.** No step of it slips. -/
theorem checkedSeparate_eq {ps : List Piece} (h : AllShown ps) : checkedSeparate ps = .ok (separate ps) := by
  unfold checkedSeparate
  induction ps using separate_induction with
  | again ps hlt ih =>
    rw [separateWith, separatePassWith_kept h, separate_eq, if_pos hlt, ← ih (shown_separatePass h)]
    exact if_pos hlt
  | stop ps hlt =>
    rw [separateWith, separatePassWith_kept h, separate_eq, if_neg hlt]
    exact if_neg hlt

theorem checkedSeparateBehindFirst_eq {ps : List Piece} (h : AllShown ps) :
    checkedSeparateBehindFirst ps = .ok (separateBehindFirst ps) := by
  cases ps with
  | nil => rfl
  | cons p ps =>
    have hapart := checkedSeparate_eq fun x hx => h x (List.mem_cons_of_mem _ hx)
    rw [checkedSeparateBehindFirst, separateBehindFirstWith]
    rw [checkedSeparate] at hapart
    rw [hapart]
    rfl

end Piece

/-! ## Where a line is cut short -/

namespace Piece

/-- One step through a line: where the bytes behind a token, or behind a whole stored number, stand. `first`
tells whether the token is the first of its line. -/
inductive Moves : (first : Bool) → Place → List UInt8 → Place → List UInt8 → Prop where
  | keyword {rest : List UInt8} : Moves true .statement (Token.rem :: rest) .remark rest
  | remark {b : UInt8} {rest : List UInt8} : Moves false .remark (b :: rest) .remark rest
  | inside {b : UInt8} {rest : List UInt8} : b ≠ Token.quote →
    Moves false .string (b :: rest) .string rest
  | closing {rest : List UInt8} : Moves false .string (Token.quote :: rest) .statement rest
  | opening {first : Bool} {rest : List UInt8} : Token.quote ∈ rest →
    Moves first .statement (Token.quote :: rest) .string rest
  | lone {first : Bool} {rest : List UInt8} : Token.quote ∉ rest →
    Moves first .statement (Token.quote :: rest) .statement rest
  | number {first : Bool} {rest : List UInt8} : StoredNumber.size ≤ rest.length →
    Moves first .statement (Token.number :: rest) .statement (rest.drop StoredNumber.size)
  | plain {first : Bool} {b : UInt8} {rest : List UInt8} : b ≠ Token.number → b ≠ Token.quote →
    (first = true → b ≠ Token.rem) → Moves first .statement (b :: rest) .statement rest

/-- Any number of steps through a line. -/
inductive Reaches : (first : Bool) → Place → List UInt8 → Place → List UInt8 → Prop where
  | here {first : Bool} {place : Place} {bytes : List UInt8} : Reaches first place bytes place bytes
  | move {first : Bool} {place next last : Place} {bytes rest more : List UInt8} :
    Moves first place bytes next rest → Reaches false next rest last more →
      Reaches first place bytes last more

/-- Whether a stored number in statement text has too few bytes, from here on. -/
def MeetsCut (first : Bool) (place : Place) (bytes : List UInt8) : Prop :=
  ∃ rest, Reaches first place bytes .statement (Token.number :: rest) ∧
    rest.length < StoredNumber.size

theorem Moves.unique {first : Bool} {place next next' : Place} {bytes rest rest' : List UInt8}
    (h : Moves first place bytes next rest) (h' : Moves first place bytes next' rest') :
    next = next' ∧ rest = rest' := by
  have hmarks : Token.number ≠ Token.quote := by decide
  have hrem : Token.rem ≠ Token.number ∧ Token.rem ≠ Token.quote := by decide
  cases h <;> cases h' <;> simp_all

theorem MeetsCut.of_moves {first : Bool} {place next : Place} {b : UInt8} {rest behind : List UInt8}
    (hmove : Moves first place (b :: rest) next behind) :
    MeetsCut first place (b :: rest) ↔ MeetsCut false next behind := by
  constructor
  · rintro ⟨more, hreach, hshort⟩
    cases hreach with
    | here =>
      -- a stored number that is cut short cannot be passed
      cases hmove with
      | number hlong => omega
      | plain hne => exact absurd rfl hne
    | move hmove' hrest =>
      obtain ⟨rfl, rfl⟩ := hmove.unique hmove'
      exact ⟨more, hrest, hshort⟩
  · rintro ⟨more, hreach, hshort⟩
    exact ⟨more, .move hmove hreach, hshort⟩

theorem moves_ofToken (bracketed : Bool) {first : Bool} {place : Place} {b : UInt8} {rest : List UInt8}
    (hfirst : first = true → place = .statement) (hb : place = .statement → b ≠ Token.number) :
    Moves first place (b :: rest) (ofToken bracketed first place b rest).2 rest := by
  cases first with
  | true =>
    obtain rfl := hfirst rfl
    by_cases hrem : b = Token.rem
    · subst hrem
      exact .keyword
    · by_cases hquote : b = Token.quote
      · subst hquote
        by_cases hrest : Token.quote ∈ rest
        · simpa [ofToken, hrem, hrest] using .opening hrest
        · simpa [ofToken, hrem, hrest] using .lone hrest
      · simpa [ofToken, hrem, hquote] using .plain (hb rfl) hquote fun _ => hrem
  | false =>
    rw [snd_ofToken]
    cases place with
    | remark => exact .remark
    | string =>
      by_cases hquote : b = Token.quote
      · subst hquote
        exact .closing
      · simpa [hquote] using .inside hquote
    | statement =>
      by_cases hquote : b = Token.quote
      · subst hquote
        by_cases hrest : Token.quote ∈ rest
        · simpa [hrest] using .opening hrest
        · simpa [hrest] using .lone hrest
      · simpa [hquote] using .plain (hb rfl) hquote (by rintro ⟨⟩)

/-- **Cut short.** Cutting a line fails exactly where it meets a stored number that is cut short. -/
theorem scanFrom_error_iff {bracketed : Bool} {index : Nat} {place : Place} {tokens : List UInt8}
    {done : List Piece} (hfirst : index = 0 → place = .statement) :
    (∃ failure, scanFrom bracketed index place tokens done = .error failure) ↔
      MeetsCut (index == 0) place tokens := by
  fun_induction scanFrom bracketed index place tokens done with
  | case1 index place done =>
    refine ⟨by rintro ⟨_, ⟨⟩⟩, ?_⟩
    generalize (index == 0) = first
    rintro ⟨more, hreach, -⟩
    cases hreach with
    | move hmove => cases hmove
  | case2 index place done b rest hnumber stored hlength =>
    simp only [Bool.and_eq_true, beq_iff_eq] at hnumber
    obtain ⟨rfl, rfl⟩ := hnumber
    refine ⟨fun _ => ⟨rest, .here, ?_⟩, fun _ => ⟨_, rfl⟩⟩
    rw [List.length_take] at hlength
    omega
  | case3 index place done b rest hnumber stored hlength ih =>
    simp only [Bool.and_eq_true, beq_iff_eq] at hnumber
    obtain ⟨rfl, rfl⟩ := hnumber
    have hmove : Moves (index == 0) .statement (Token.number :: rest) .statement
        (rest.drop StoredNumber.size) := by
      refine .number ?_
      rw [List.length_take] at hlength
      omega
    rw [MeetsCut.of_moves hmove, ih (by omega)]
    rfl
  | case4 index place done b rest hnumber piece next hpiece ih =>
    have hmove := @moves_ofToken bracketed (index == 0) place b rest
      (fun hindex => hfirst (beq_iff_eq.mp hindex)) fun hplace hb => by simp [hplace, hb] at hnumber
    rw [hpiece] at hmove
    rw [MeetsCut.of_moves hmove, ih (by omega)]
    rfl

end Piece

/-! ## Whole lines -/

namespace Listing

/-- A line cannot be shown exactly where a stored number of it is cut short. -/
theorem renderLine_error_iff (bracketed : Bool) (tokens : List UInt8) :
    (∃ failure, renderLine bracketed tokens = .error failure) ↔
      Piece.MeetsCut true .statement tokens := by
  have hscan : (∃ failure, Piece.scan bracketed tokens = .error failure) ↔
      Piece.MeetsCut (0 == 0) .statement tokens := Piece.scanFrom_error_iff fun _ => rfl
  rw [beq_self_eq_true] at hscan
  rw [← hscan]
  unfold renderLine
  cases Piece.scan bracketed tokens <;> simp

/-- **No slips.** A line is shown as without the checks; only a number that is cut short stops it. -/
theorem checkedRenderLine_eq (bracketed : Bool) (tokens : List UInt8) :
    checkedRenderLine bracketed tokens = (renderLine bracketed tokens).mapError Slip.cutShort := by
  unfold checkedRenderLine renderLine
  cases hscan : Piece.scan bracketed tokens with
  | error failure => rfl
  | ok pieces =>
    have hfresh := Piece.fresh_scanFrom hscan (by simp)
    have hshown : Piece.AllShown (Piece.resolveFrom pieces [] []).1 :=
      Piece.shown_resolveFrom (Piece.shown_scanFrom hscan (by simp [Piece.AllShown]))
        (by simp [Piece.AllShown])
    have hresolved : Piece.resolveFromWith Slip.kept pieces [] [] = .ok (Piece.resolveFrom pieces [] []) :=
      Piece.checkedResolveFrom_eq hfresh [] []
    have hapart : Piece.separateBehindFirstWith Slip.kept (Piece.resolveFrom pieces [] []).1 =
        .ok (Piece.separateBehindFirst (Piece.resolveFrom pieces [] []).1) :=
      Piece.checkedSeparateBehindFirst_eq hshown
    dsimp only
    rw [showWith, hresolved]
    change (do
      let apart ← Piece.separateBehindFirstWith Slip.kept (Piece.resolveFrom pieces [] []).1
      pure (Piece.join (markLastSpace tokens apart), (Piece.resolveFrom pieces [] []).2)) = _
    rw [hapart]
    rfl

end Listing

/-! ## The texts of any bytes -/

/-- **Any bytes can be shown.** Whatever bytes are given and in whichever style they are shown, the listing of
a program, the directives of an image, the text of an image and that of a cassette image hold printable
characters and line ends only. A line is refused exactly if the way through its tokens leads to the mark of a
stored number, outside remarks and strings, with fewer than five bytes behind it. No other step of showing a
line fails: every token that is looked up is found, what is taken for a number is one, and all stored numbers
are decoded. Every byte has its place in the table of spellings, and every system variable that is asked for
exists. -/
theorem unfailing_decode (data tokens : List UInt8) (style : Image.Style) :
    (∀ text ∈ [Listing.programText style.bracketed data, Image.decodeHeader style data,
      Image.decode style data, Cassette.decode style data],
      ∀ c ∈ text, Text.isPrintable c = true ∨ c = '\n') ∧
    ((∃ failure, Listing.renderLine style.bracketed tokens = .error failure) ↔
      Piece.MeetsCut true .statement tokens) ∧
    Listing.checkedRenderLine style.bracketed tokens =
      (Listing.renderLine style.bracketed tokens).mapError Slip.cutShort ∧
    (∀ b : UInt8, b.toNat < Token.glyphs.size) ∧
    (∀ name ∈ ["D_FILE", "VARS", "E_LINE", "NXTLIN"],
      (SystemVariables.Field.named? name.toList).isSome = true) ∧
    ∀ f ∈ SystemVariables.fields, SystemVariables.resolve (.name f.name.toList) = .ok f := by
  refine ⟨?_, Listing.renderLine_error_iff _ _, Listing.checkedRenderLine_eq _ _, fun b => ?_, by decide,
    fun f hf => SystemVariables.resolve_name hf⟩
  · simp only [List.forall_mem_cons, List.not_mem_nil, false_implies, implies_true, and_true]
    exact ⟨(Listing.lined_programText _ _).printable, (Image.lined_decodeHeader _ _).printable,
      (Image.lined_decode _ _).printable, (Cassette.lined_decode _ _).printable⟩
  · rw [Token.size_glyphs]
    exact b.toNat_lt

end TapeBasic
