import TapeBasic.Proofs.ListingRuns
import TapeBasic.Proofs.SettledNumbers

/-!
# Literals as they are shown and as they are read

Before a run of digits, points, letters E and signs is shown, `Literal.segments` cuts it into literals and single
characters. The reader of a line goes through the same run piece by piece, looking for a literal in front of every
piece unless a name goes on. One tells by characters whether a name goes on, the other one by tokens.

* `Literal.figures`: the characters of such a run.
* `Body.segments files mode c`: the pieces that the reader takes up to the end of the line, each with its width and
  with whether it is a literal.

Results:
* `Grammar.figure_read`: in front of a figure or the line end, a figure is read as itself.
* `Body.readsLiteral_iff`: where the reader finds a literal.
* `Body.round_single`, `Body.round_literal`, `Body.round_refused`: what the reader does in one round.
* `Body.takesRun`: what the reader takes of a run are its segments, up to a literal that cannot be stored.
-/
namespace TapeBasic

/-! ## Figures in the table of spellings -/

namespace Literal

/-- The characters of a run: digits, the point, the letter E and the signs. -/
def figures : List Char := "0123456789.E+-".toList

/-- The tokens of a run. -/
def figureTokens : List UInt8 :=
  [0x1C, 0x1D, 0x1E, 0x1F, 0x20, 0x21, 0x22, 0x23, 0x24, 0x25, 0x1B, 0x2A, 0x15, 0x16]

theorem figures_tokens :
    (figures.all fun x => figureTokens.any fun b => Piece.isLiteralToken b && Token.text b == [x]) = true := by
  decide +kernel

/-- A figure is the spelling of a token of its kind. -/
theorem exists_token {x : Char} (h : x ∈ figures) :
    ∃ b, Piece.isLiteralToken b = true ∧ Token.text b = [x] ∧ x.isAlpha = Token.isLetter b ∧
      x.isDigit = Token.isDigit b ∧ Token.ofCharacter? [x] = some b := by
  obtain ⟨b, -, hspelled⟩ := List.any_eq_true.mp (List.all_eq_true.mp figures_tokens x h)
  rw [Bool.and_eq_true, beq_iff_eq] at hspelled
  obtain ⟨hb, htext⟩ := hspelled
  obtain ⟨c, hc, -, halpha, hdigit, -, hof⟩ :=
    Grammar.exists_character (Piece.letter_or_mark_of_isLiteralToken hb)
  obtain rfl : x = c := (List.cons.inj (htext.symm.trans hc)).1
  exact ⟨b, hb, htext, halpha, hdigit, hof⟩

theorem exists_tokens {w : List Char} (h : ∀ x ∈ w, x ∈ figures) :
    ∃ tokens, (w.mapM fun x => Token.ofCharacter? [x]) = some tokens := by
  induction w with
  | nil => exact ⟨[], rfl⟩
  | cons x w ih =>
    obtain ⟨hx, hw⟩ := List.forall_mem_cons.mp h
    obtain ⟨b, -, -, -, -, hof⟩ := exists_token hx
    obtain ⟨tokens, htokens⟩ := ih hw
    exact ⟨b :: tokens, by rw [List.mapM_cons, hof, htokens]; rfl⟩

end Literal

namespace Grammar

/-- Whether the reader takes the character for a figure. -/
def countsAsFigure (c : Char) : Bool := Decimal.isFigure (Text.fold c)

/-- Whether a spelling of several characters that starts with a figure goes on with neither a figure nor a
space. -/
def leavesFigures : List Char → Bool
  | a :: x :: _ => !countsAsFigure a || !(countsAsFigure x || x == ' ')
  | _ => true

theorem figures_checked : Literal.figures.all countsAsFigure = true ∧
    ∀ s ∈ statementSymbols, leavesFigures s.1 = true := by
  rw [statementSymbols_eq]
  decide +kernel

theorem countsAsFigure_congr {a c : Char} (h : Text.fold a = Text.fold c) (hc : countsAsFigure c = true) :
    countsAsFigure a = true := by
  unfold countsAsFigure
  rw [h]
  exact hc

section Figures

variable {c y : Char} {tail : List Char} (hc : countsAsFigure c = true) (hy : countsAsFigure y = true)

include hc hy

theorem length_le_one_of_leavesFigures {letters : List Char} (hleaves : leavesFigures letters = true)
    (h : letters.map Text.fold <+: (c :: y :: tail).map Text.fold) : letters.length ≤ 1 := by
  match letters with
  | [] => simp
  | [_] => simp
  | a :: x :: rest =>
    simp only [List.map_cons, List.cons_prefix_cons] at h
    have ha := countsAsFigure_congr h.1 hc
    have hx := countsAsFigure_congr h.2.1 hy
    simp [leavesFigures, ha, hx] at hleaves

/-- At a figure in front of another one, no more than one character can be read. -/
theorem length_le_one_of_figures {symbol : List Char} (hleaves : leavesFigures symbol = true)
    (h : (Pattern.ofSymbol lineEndingSymbols symbol).accepts (c :: y :: tail) = true) :
    symbol.length ≤ 1 := by
  rw [Pattern.accepts, Bool.and_eq_true, Text.startsWithLetters_iff] at h
  rcases Pattern.ofSymbol_cases lineEndingSymbols symbol with
    ⟨letters, ending, rfl, hp, -⟩ | ⟨ending, hp, -⟩
  · rw [hp] at h
    cases letters with
    | nil => simp
    | cons a letters =>
      cases letters with
      | nil =>
        have hpre := h.1
        simp only [List.map_cons, List.cons_prefix_cons] at hpre
        have ha := countsAsFigure_congr hpre.1 hc
        simp [leavesFigures, ha] at hleaves
      | cons x rest =>
        have hfront : leavesFigures (a :: x :: rest) = true := hleaves
        have hlength := length_le_one_of_leavesFigures hc hy hfront h.1
        simp at hlength
  · rw [hp] at h
    exact length_le_one_of_leavesFigures hc hy hleaves h.1

end Figures

/-- **Figures.** In front of a figure or the line end, a figure is read as itself. -/
theorem figure_read {x : Char} (hx : x ∈ Literal.figures) {b : UInt8} (hb : Piece.isLiteralToken b = true)
    (htext : Token.text b = [x]) {w : List Char} (hw : ∀ y ∈ w, y ∈ Literal.figures) (more : List Char) :
    ReadsBack statement [x] b (w ++ '\n' :: more) := by
  have hkind := Piece.letter_or_mark_of_isLiteralToken hb
  rw [← htext]
  cases w with
  | nil =>
    cases hletter : Token.isLetter b with
    | true =>
      refine letter_read hletter fun y hy => ?_
      cases hy
      decide
    | false =>
      rw [hletter, Bool.false_or] at hkind
      exact mark_read hkind _
  | cons y w =>
    refine character_read hkind fun s hs haccepts => ?_
    rw [htext] at haccepts
    have hfigures := List.all_eq_true.mp figures_checked.1
    exact length_le_one_of_figures (hfigures x hx) (hfigures y (hw y List.mem_cons_self))
      (figures_checked.2 s hs) haccepts

end Grammar

/-! ## The segments of a line -/

namespace Body

/-- Whether the reader finds a literal at the cursor. It looks for one in statement text, where neither a string
starts nor a name goes on. -/
def readsLiteral : Mode → Cursor → Bool
  | .statement false, c =>
    c.peek != Text.doubleQuote &&
      match Literal.read? c with
      | .ok none => false
      | _ => true
  | _, _ => false

/-- The literals and other pieces that the reader takes of the rest of a line, up to its end or to the first fault. The
rounds are those of `readFrom`. -/
def segments (files : FileReader) (mode : Mode) (c : Cursor) : List Literal.Segment :=
  let here := c.skipContinuation
  if h : here.peek = '\n' then []
  else
    match piece files mode here with
    | .error _ => []
    | .ok lexeme =>
      have : (here.advance lexeme.width).rest.length < c.rest.length :=
        Nat.lt_of_lt_of_le (Cursor.length_advance_lt lexeme.positive (Cursor.rest_ne_nil_of_peek h))
          c.length_skipContinuation_le
      ⟨readsLiteral mode here, lexeme.width⟩ :: segments files lexeme.value.next (here.advance lexeme.width)
termination_by c.rest.length
decreasing_by assumption

variable {files : FileReader}

/-- The reader finds a literal where one starts, unless a string starts there or a name goes on. -/
theorem readsLiteral_iff {n : Bool} {c : Cursor} : readsLiteral (.statement n) c = true ↔
    n = false ∧ c.peek ≠ Text.doubleQuote ∧ 0 < Literal.width c.rest := by
  cases n with
  | true => simp [readsLiteral]
  | false =>
    rw [readsLiteral, Bool.and_eq_true, bne_iff_ne, Literal.read?]
    by_cases hpos : 0 < Literal.width c.rest
    · rw [dif_pos hpos]
      cases Literal.emit c (c.rest.take (Literal.width c.rest)) <;> simp [hpos]
    · rw [dif_neg hpos]
      simp [hpos]

section Rounds

variable {mode next : Mode} {front tail : List Char} {bytes : List UInt8} {width : Nat} {c : Cursor}
  (hopens : Opens front) (hc : c.rest = front ++ tail)

include hopens hc

theorem segments_of_makes (h : Makes files mode c bytes next width) :
    segments files mode c = ⟨readsLiteral mode c, width⟩ :: segments files next (c.advance width) := by
  obtain ⟨lexeme, hpiece, -, -, hnext, hwidth⟩ := h
  rw [segments]
  simp only [hopens.skipContinuation hc, dif_neg (hopens.peek_ne hc), hpiece, hnext, hwidth]

/-- A fault ends the reading. -/
theorem stops_of_error {fault : Fault} (h : piece files mode c = .error fault) :
    segments files mode c = [] ∧ ∀ done events,
      (readFrom files mode c done events).result = .error fault := by
  constructor
  · rw [segments]
    simp only [hopens.skipContinuation hc, dif_neg (hopens.peek_ne hc), h]
  · intro done events
    have hskip := hopens.skipContinuation hc
    rw [readFrom_of_error (by rw [hskip]; exact hopens.peek_ne hc) (by rw [hskip]; exact h)]

end Rounds

/-! ## Runs -/

section Runs

variable {w more : List Char} {c : Cursor} (hw : ∀ y ∈ w, y ∈ Literal.figures) (hc : c.rest = w ++ '\n' :: more)

include hc

theorem width_rest : Literal.width c.rest = Literal.width w := by
  rw [hc]
  exact Literal.width_append_cons w more (by decide)

include hw

theorem peek_run (hne : w ≠ []) {x : Char} (hx : x ∉ Literal.figures) : c.peek ≠ x := by
  obtain ⟨y, rest, rfl⟩ := List.exists_cons_of_ne_nil hne
  rw [Cursor.peek, hc, List.cons_append, List.headD_cons]
  intro heq
  exact hx (heq ▸ hw y List.mem_cons_self)

theorem opens_run (hne : w ≠ []) : Opens w := by
  obtain ⟨y, rest, rfl⟩ := List.exists_cons_of_ne_nil hne
  have hy := hw y List.mem_cons_self
  have hfigure : ∀ x, x ∉ Literal.figures → y ≠ x := fun x hx heq => hx (heq ▸ hy)
  exact opens_of_head (hfigure _ (by decide)) (hfigure _ (by decide))

/-- One round at a figure at which no literal starts. -/
theorem round_single {n : Bool} {x : Char} {rest : List Char} (hrun : w = x :: rest)
    (h : n = true ∨ Literal.width w = 0) :
    segments files (.statement n) c =
        ⟨false, 1⟩ :: segments files (.statement (x.isAlpha || (x.isDigit && n))) (c.advance 1) ∧
      ∃ bytes, ∀ done events, readFrom files (.statement n) c done events =
        readFrom files (.statement (x.isAlpha || (x.isDigit && n))) (c.advance 1) (bytes ++ done) events := by
  have hne : w ≠ [] := by
    rw [hrun]
    exact List.cons_ne_nil _ _
  have hopens := opens_run hw hc hne
  have hplain : readsLiteral (.statement n) c = false := by
    rw [Bool.eq_false_iff, ne_eq, readsLiteral_iff, width_rest hc]
    rintro ⟨hn, -, hpos⟩
    rcases h with h | h
    · rw [h] at hn
      cases hn
    · omega
  obtain ⟨b, hb, htext, halpha, hdigit, -⟩ :=
    Literal.exists_token (hw x (by rw [hrun]; exact List.mem_cons_self))
  have hrest : ∀ y ∈ rest, y ∈ Literal.figures := fun y hy => hw y (by rw [hrun]; exact List.mem_cons_of_mem _ hy)
  have hfront : c.rest = [x] ++ (rest ++ '\n' :: more) := by rw [hc, hrun]; rfl
  have hmakes : Makes files (.statement n) c [b] (.statement (x.isAlpha || (x.isDigit && n))) 1 := by
    have hfigure : ∀ y, y ∉ Literal.figures → x ≠ y := fun y hy heq =>
      hy (heq ▸ hw x (by rw [hrun]; exact List.mem_cons_self))
    have hnext : (x.isAlpha || (x.isDigit && n)) = staysInName n b := by
      rw [halpha, hdigit, Bool.and_comm, staysInName]
    rw [hnext]
    refine makes_token hfront (List.cons_ne_nil _ _) ?_ (SpecialCode.scan?_eq_none_of_head ?_) ?_ ?_
      (Grammar.figure_read (hw x (by rw [hrun]; exact List.mem_cons_self)) hb htext hrest more)
    · rw [List.mem_singleton]
      exact (hfigure _ (by decide)).symm
    · rw [List.singleton_append, List.head?_cons, ne_eq, Option.some.injEq]
      exact hfigure _ (by decide)
    · rw [List.head?_cons, ne_eq, Option.some.injEq]
      exact hfigure _ (by decide)
    · rw [← hfront, width_rest hc]
      exact h
  refine ⟨?_, [b].reverse, fun done events => readFrom_of_makes hopens hc hmakes done events⟩
  rw [segments_of_makes hopens hc hmakes, hplain]

section Literals

variable (hpos : 0 < Literal.width w)

include hpos

/-- One round at a literal that can be stored. -/
theorem round_literal {stored : List UInt8}
    (hstored : StoredNumber.encode (Literal.value (w.take (Literal.width w))) = .ok stored) :
    segments files (.statement false) c =
        ⟨true, Literal.width w⟩ :: segments files (.statement false) (c.advance (Literal.width w)) ∧
      ∃ bytes, ∀ done events, readFrom files (.statement false) c done events =
        readFrom files (.statement false) (c.advance (Literal.width w)) (bytes ++ done) events := by
  have hne : w ≠ [] := by
    rintro rfl
    exact absurd hpos (by decide)
  have hopens := opens_run hw hc hne
  have hlength : (w.take (Literal.width w)).length = Literal.width w := by
    rw [List.length_take]
    exact Nat.min_eq_left (Literal.width_le w)
  have hfront : c.rest = w.take (Literal.width w) ++ (w.drop (Literal.width w) ++ '\n' :: more) := by
    rw [← List.append_assoc, List.take_append_drop, hc]
  obtain ⟨characters, hcharacters⟩ :=
    Literal.exists_tokens fun x hx => hw x (List.mem_of_mem_take hx : x ∈ w)
  have hmakes : Makes files (.statement false) c (characters ++ Token.number :: stored) (.statement false)
      (w.take (Literal.width w)).length := by
    refine makes_literal hfront ?_ ?_ ?_ hstored hcharacters
    · exact List.ne_nil_of_length_pos (by rw [hlength]; exact hpos)
    · intro hhead
      have hmem : Text.doubleQuote ∈ w := List.mem_of_mem_take (List.mem_of_head? hhead)
      exact absurd (hw _ hmem) (by decide)
    · rw [← hfront, width_rest hc, hlength]
  rw [hlength] at hmakes
  have hfound : readsLiteral (.statement false) c = true :=
    readsLiteral_iff.mpr ⟨rfl, peek_run hw hc hne (by decide), by rwa [width_rest hc]⟩
  refine ⟨?_, (characters ++ Token.number :: stored).reverse, fun done events =>
    readFrom_of_makes hopens hc hmakes done events⟩
  rw [segments_of_makes hopens hc hmakes, hfound]

/-- One round at a literal that cannot be stored. -/
theorem round_refused
    (hrefused : ∀ stored, StoredNumber.encode (Literal.value (w.take (Literal.width w))) ≠ .ok stored) :
    segments files (.statement false) c = [] ∧ ∀ done events,
      (readFrom files (.statement false) c done events).result =
        .error (c.fault (.numberOutOfRange (w.take (Literal.width w)))) := by
  have hne : w ≠ [] := by
    rintro rfl
    exact absurd hpos (by decide)
  have htake : c.rest.take (Literal.width c.rest) = w.take (Literal.width w) := by
    rw [width_rest hc, hc, List.take_append_of_le_length (Literal.width_le w)]
  refine stops_of_error (opens_run hw hc hne) hc ?_
  rw [piece, statementPiece_literal (peek_run hw hc hne (by decide)) (by rwa [width_rest hc]), htake,
    Literal.emit]
  cases hencode : StoredNumber.encode (Literal.value (w.take (Literal.width w))) with
  | ok stored => exact absurd hencode (hrefused stored)
  | error failure => rfl

end Literals

end Runs

/-! ## The whole run -/

/-- The reader takes the run at the cursor in the segments in which it is shown. It takes all of them and reaches the
line end, or it stops at the first literal that cannot be stored: the next segment of the run is this literal, and the
segments behind it are those of the text behind it. -/
def TakesRun (files : FileReader) (n : Bool) (w : List Char) (c : Cursor) : Prop :=
  ∃ read rest, Literal.segments n w = read ++ rest ∧ segments files (.statement n) c = read ∧
    ((rest = [] ∧ ∀ done events, ∃ bytes,
        (readFrom files (.statement n) c done events).result = .ok (bytes, c.advance w.length)) ∨
      ∃ literal behind, w.drop (Literal.totalWidth read) = literal ++ behind ∧
        rest = ⟨true, literal.length⟩ :: Literal.segments false behind ∧
        (∀ stored, StoredNumber.encode (Literal.value literal) ≠ .ok stored) ∧
        ∀ done events, (readFrom files (.statement n) c done events).result =
          .error ((c.advance (Literal.totalWidth read)).fault (.numberOutOfRange literal)))

theorem takesRun_nil {n : Bool} {c : Cursor} {more : List Char} (hc : c.rest = '\n' :: more) :
    TakesRun files n [] c := by
  have hskip : c.skipContinuation = c := by
    rw [Cursor.skipContinuation, hc]
    rfl
  have hpeek : c.skipContinuation.peek = '\n' := by
    rw [hskip, Cursor.peek, hc, List.headD_cons]
  refine ⟨[], [], by simp, ?_, .inl ⟨rfl, fun done events => ⟨done.reverse, ?_⟩⟩⟩
  · rw [segments, dif_pos hpeek]
  · rw [readFrom_of_lineEnd hpeek Mode.noConfusion, hskip]
    rfl

/-- One round that takes a segment of the run, and the rounds behind it. -/
theorem TakesRun.cons {n next : Bool} {w : List Char} {c : Cursor} {s : Literal.Segment} (hs : s.width ≤ w.length)
    (hshown : Literal.segments n w = s :: Literal.segments next (w.drop s.width))
    (hround : segments files (.statement n) c =
        s :: segments files (.statement next) (c.advance s.width) ∧
      ∃ bytes, ∀ done events, readFrom files (.statement n) c done events =
        readFrom files (.statement next) (c.advance s.width) (bytes ++ done) events)
    (h : TakesRun files next (w.drop s.width) (c.advance s.width)) : TakesRun files n w c := by
  obtain ⟨htaken, bytes, hfrom⟩ := hround
  obtain ⟨read, rest, hsegments, hread, hend⟩ := h
  refine ⟨s :: read, rest, by rw [hshown, hsegments, List.cons_append], by rw [htaken, hread], ?_⟩
  rcases hend with ⟨hrest, hok⟩ | ⟨literal, behind, hdrop, hrest, hrefused, herror⟩
  · refine .inl ⟨hrest, fun done events => ?_⟩
    have hadd : s.width + (w.drop s.width).length = w.length := by
      rw [List.length_drop]
      omega
    rw [hfrom, ← hadd, Cursor.advance_add]
    exact hok _ _
  · refine .inr ⟨literal, behind, ?_, hrest, hrefused, fun done events => ?_⟩
    · rw [Literal.totalWidth_cons, ← List.drop_drop]
      exact hdrop
    · rw [hfrom, Literal.totalWidth_cons, Cursor.advance_add]
      exact herror _ _

/-- **Scan.** In front of the end of a line, the reader takes a run of figures in the segments in which it is shown. -/
theorem takesRun (files : FileReader) (n : Bool) {w more : List Char} {c : Cursor}
    (hw : ∀ x ∈ w, x ∈ Literal.figures) (hc : c.rest = w ++ '\n' :: more) : TakesRun files n w c := by
  -- The induction is on the length of the run, because one round takes a character or a whole literal.
  induction hlength : w.length using Nat.strongRecOn generalizing w c n with
  | ind length ih =>
    subst hlength
    cases w with
    | nil => exact takesRun_nil hc
    | cons x tail =>
      -- What is behind a segment of the run is a shorter run in front of the line end.
      have hbehind : ∀ k next, 0 < k → k ≤ (x :: tail).length →
          TakesRun files next ((x :: tail).drop k) (c.advance k) := by
        intro k next hpos hle
        refine ih _ ?_ next (fun y hy => hw y (List.mem_of_mem_drop hy)) ?_ rfl
        · rw [List.length_drop, List.length_cons]
          omega
        · rw [Cursor.rest_advance, hc, List.drop_append_of_le_length hle]
      by_cases hsingle : n = true ∨ Literal.width (x :: tail) = 0
      · have hle : 1 ≤ (x :: tail).length := by simp
        exact .cons (s := ⟨false, 1⟩) hle (Literal.segments_single hsingle) (round_single hw hc rfl hsingle)
          (hbehind 1 _ Nat.one_pos hle)
      · obtain ⟨hn, hwidth⟩ := not_or.mp hsingle
        obtain rfl : n = false := Bool.eq_false_iff.mpr hn
        have hpos := Nat.pos_of_ne_zero hwidth
        have hle := Literal.width_le (x :: tail)
        by_cases hstored : ∃ stored,
            StoredNumber.encode (Literal.value ((x :: tail).take (Literal.width (x :: tail)))) = .ok stored
        · obtain ⟨stored, hstored⟩ := hstored
          exact .cons (s := ⟨true, Literal.width (x :: tail)⟩) hle (Literal.segments_literal hpos)
            (round_literal hw hc hpos hstored) (hbehind _ false hpos hle)
        · have hrefused := not_exists.mp hstored
          obtain ⟨htaken, herror⟩ : segments files (.statement false) c = [] ∧ _ :=
            round_refused hw hc hpos hrefused
          have hshown : Literal.segments false (x :: tail) =
              ⟨true, ((x :: tail).take (Literal.width (x :: tail))).length⟩ ::
                Literal.segments false ((x :: tail).drop (Literal.width (x :: tail))) := by
            rw [Literal.segments_literal hpos, List.length_take, Nat.min_eq_left hle]
          exact ⟨[], _, rfl, htaken, .inr ⟨_, _, (List.take_append_drop _ _).symm, hshown, hrefused, herror⟩⟩

/-- A name in front of digits, and a literal that cannot be stored behind one that can. -/
theorem takesRun_sample :
    (∀ x ∈ "E1+2.5E39".toList, x ∈ Literal.figures) ∧
      TakesRun (fun _ => .error []) false "E1+2.5E39".toList (.start "E1+2.5E39\n".toList) ∧
      Literal.segments false "E1+2.5E39".toList =
        [⟨false, 1⟩, ⟨false, 1⟩, ⟨false, 1⟩, ⟨true, 6⟩] := by
  have hfigures : "E1+2.5E39".toList.all Literal.figures.contains = true := by decide +kernel
  have hw : ∀ x ∈ "E1+2.5E39".toList, x ∈ Literal.figures :=
    fun x hx => List.contains_iff_mem.mp (List.all_eq_true.mp hfigures x hx)
  have hc : (Cursor.start "E1+2.5E39\n".toList).rest = "E1+2.5E39".toList ++ '\n' :: [] := rfl
  exact ⟨hw, takesRun _ false hw hc, by decide +kernel⟩

end Body

end TapeBasic
