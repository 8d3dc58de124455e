import TapeBasic.Proofs.PlainSpellings

/-!
# Plain lines are listed as they are

The bytes that a plain line is read as are cut into the pieces it was read as, and no step of a listing closes
one of them: every literal stands in front of its stored number and reads back as it, no other run of figures
is taken for a literal, and every token is read back.

* `Text.UpToLineEnd text`: an ASCII text that ends with its line end.

Results:
* `Piece.Plain.scanFrom`: the bytes of the pieces are cut into the pieces.
* `Piece.Plain.resolveFrom`: no number is written out, and no figure is written with its number.
* `Piece.Plain.separate`: no token is put in brackets.
-/
namespace TapeBasic

open Text (isAscii isBlank lookedUp)

namespace Text

/-- An ASCII text that ends with its line end, or an empty one. -/
structure UpToLineEnd (text : List Char) : Prop where
  ascii : ∀ c ∈ text, isAscii c = true
  last : ∀ c ∈ text.getLast?, c = '\n'

theorem UpToLineEnd.behind {part text : List Char} (h : UpToLineEnd (part ++ text)) : UpToLineEnd text := by
  refine ⟨fun c hc => h.ascii c (List.mem_append_right _ hc), fun c hc => h.last c ?_⟩
  cases text with
  | nil => cases hc
  | cons x text =>
    rw [List.getLast?_append_of_ne_nil _ (List.cons_ne_nil _ _)]
    exact hc

theorem UpToLineEnd.getLast? {text : List Char} (h : UpToLineEnd text) (hne : text ≠ []) :
    text.getLast? = some '\n' := by
  rw [List.getLast?_eq_some_getLast hne]
  exact congrArg some (h.last _ (List.getLast?_eq_some_getLast hne))

theorem lookedUp_eq_quote {c : Char} (hc : isAscii c = true) (h : lookedUp c = doubleQuote) : c = doubleQuote :=
  forall_ascii (P := fun c => lookedUp c = doubleQuote → c = doubleQuote) (by decide +kernel) hc h

end Text

open Text (UpToLineEnd)

/-! ## Quotation marks and numbers -/

namespace Grammar

variable {g : Grammar} {front tail : List Char} {b : UInt8}

/-- A spelling starts with a quotation mark only if it is one. -/
theorem Spells.quote_iff (h : Spells g front tail b) (hascii : ∀ c ∈ front, isAscii c = true) :
    front.head? = some Text.doubleQuote ↔ b = Token.quote := by
  obtain ⟨first, rest, ho⟩ := Token.exists_orderly b
  obtain ⟨c, more, rfl⟩ := List.exists_cons_of_ne_nil h.ne_nil
  have htext := h.text
  constructor
  · intro hhead
    rw [List.head?_cons, Option.some.injEq] at hhead
    rw [hhead, ho.text_eq, List.map_cons, List.cons.injEq] at htext
    exact ho.quote (htext.1.symm.trans (by decide))
  · rintro rfl
    rw [Token.text_quote, List.map_cons, List.cons.injEq] at htext
    rw [List.head?_cons, Text.lookedUp_eq_quote (hascii c List.mem_cons_self) htext.1]

theorem number_checked : ∀ x ∈ Token.table, x.1 = Token.number → '[' ∈ x.2 := by decide +kernel

theorem bracket_mem_text_number : '[' ∈ Token.text Token.number :=
  Token.forall_text (P := fun b text => b = Token.number → '[' ∈ text) number_checked Token.number rfl

/-- The mark of a stored number is never read from its spelling. -/
theorem Spells.ne_number (h : Spells g front tail b) : b ≠ Token.number := by
  rintro rfl
  exact h.bracket bracket_mem_text_number

theorem Spells.spelled (h : Spells remark front tail b) : Token.spelled b = Token.text b := by
  obtain ⟨before, behind, hrow, -⟩ := List.lookup_eq_some_iff.mp h.find
  have hmem : (Token.text b, b) ∈ remarkSymbols := by
    have hrow' : remarkSymbols = before ++ (Token.text b, b) :: behind := hrow
    rw [hrow']
    simp
  obtain ⟨b', -, hb'⟩ := List.mem_map.mp hmem
  rw [Prod.mk.injEq] at hb'
  obtain ⟨hspelled, rfl⟩ := hb'
  exact hspelled

end Grammar

namespace StoredNumber

theorem length_bytes (fraction : Nat) (exponent : Int) : (bytes fraction exponent).length = size := rfl

theorem length_encode {value : Binary64} {stored : List UInt8} (h : encode value = .ok stored) :
    stored.length = size := by
  unfold encode at h
  split at h
  · cases h
  · cases h
  · split at h
    · rw [← Except.ok.inj h]
      exact List.length_replicate
    · split at h
      · cases h
      · generalize round _ = rounded at h
        obtain ⟨fraction, exponent⟩ := rounded
        dsimp only at h
        split at h
        · cases h
        · rw [← Except.ok.inj h]
          exact length_bytes fraction exponent

end StoredNumber

namespace Piece

variable {mode : Body.Mode} {text : List Char} {ps : List Piece}

/-! ## Cutting the line -/

/-- A string of a plain line is closed. -/
theorem Plain.quote_mem (h : Plain mode text ps) (htext : UpToLineEnd text) (hmode : mode = .quotation) :
    Token.quote ∈ ps.flatMap bytes := by
  induction h with
  | lineEnd hopen => exact absurd hmode hopen
  | closed hopen => exact absurd hmode hopen
  | opening => cases hmode
  | literal => cases hmode
  | token => cases hmode
  | remark => cases hmode
  | @string b front text ps hspells _ ih =>
    rw [List.flatMap_cons]
    by_cases hquote : front.head? = some Text.doubleQuote
    · rw [hspells.quote_iff fun c hc => htext.ascii c (List.mem_append_left _ hc)] at hquote
      exact List.mem_append_left _ (hquote ▸ List.mem_cons_self)
    · exact List.mem_append_right _ (ih htext.behind (if_neg hquote))

theorem scanFrom_token {index : Nat} {place : Place} {b : UInt8} {rest : List UInt8} {done : List Piece}
    (hnumber : place = .statement → b ≠ Token.number) :
    scanFrom false index place (b :: rest) done =
      scanFrom false (index + 1) (ofToken false (index == 0) place b rest).2 rest
        ((ofToken false (index == 0) place b rest).1 :: done) := by
  rw [scanFrom, if_neg]
  rw [Bool.and_eq_true, beq_iff_eq, beq_iff_eq]
  exact fun h => hnumber h.1 h.2

/-- A piece that stands for one byte is cut off if its token gives it, and the line goes on at the place behind it. -/
theorem scanFrom_piece {index : Nat} {place next : Place} {p : Piece} {ps done : List Piece} (hstored : p.stored = none)
    (hnumber : place = .statement → p.byte ≠ Token.number)
    (htoken : ofToken false (index == 0) place p.byte (ps.flatMap bytes) = (p, next))
    (hrest : scanFrom false (index + 1) next (ps.flatMap bytes) (p :: done) = .ok ((p :: done).reverse ++ ps)) :
    scanFrom false index place ((p :: ps).flatMap bytes) done = .ok (done.reverse ++ p :: ps) := by
  rw [List.flatMap_cons, bytes_of_stored_eq_none hstored, List.singleton_append, scanFrom_token hnumber, htoken, hrest,
    List.reverse_cons, List.append_assoc, List.singleton_append]

theorem Figure.eq_plain {p : Piece} (h : Figure p) : p = ⟨p.byte, Token.text p.byte, true, none⟩ :=
  calc p = ⟨p.byte, p.text, p.inStatement, p.stored⟩ := rfl
    _ = ⟨p.byte, Token.text p.byte, true, none⟩ := by rw [h.text, h.inStatement, h.stored]

theorem scanFrom_figures {run : List Piece} (hrun : ∀ p ∈ run, Figure p) {index : Nat} (hindex : index ≠ 0)
    (rest : List UInt8) (done : List Piece) :
    ∃ next, next ≠ 0 ∧ scanFrom false index .statement (run.flatMap bytes ++ rest) done =
      scanFrom false next .statement rest (run.reverse ++ done) := by
  induction run generalizing index done with
  | nil => exact ⟨index, hindex, rfl⟩
  | cons p run ih =>
    obtain ⟨hp, hrest⟩ := List.forall_mem_cons.mp hrun
    have hbyte := hp.byte
    have hne : p.byte ≠ Token.number ∧ p.byte ≠ Token.quote := by
      constructor <;> (intro hb; rw [hb] at hbyte; exact absurd hbyte (by decide))
    obtain ⟨next, hnext, hscan⟩ := ih hrest (Nat.succ_ne_zero index) (p :: done)
    refine ⟨next, hnext, ?_⟩
    have htoken : ofToken false (index == 0) .statement p.byte (run.flatMap bytes ++ rest) = (p, .statement) := by
      conv_rhs => rw [hp.eq_plain]
      simp [ofToken, beq_false_of_ne hindex, hne.2]
    rw [List.flatMap_cons, bytes_of_stored_eq_none hp.stored, List.singleton_append, List.cons_append,
      scanFrom_token fun _ => hne.1, htoken, hscan, List.reverse_cons, List.append_assoc, List.singleton_append]

/-- **Cutting the line.** The bytes of the pieces are cut into the pieces. -/
theorem Plain.scanFrom (h : Plain mode text ps) (htext : UpToLineEnd text) {index : Nat} (hindex : index ≠ 0)
    {place : Place} {n : Bool} (hplace : place.mode n = mode) (done : List Piece) :
    scanFrom false index place (ps.flatMap bytes) done = .ok (done.reverse ++ ps) := by
  induction h generalizing index place n done with
  | lineEnd => rw [List.flatMap_nil, Piece.scanFrom, List.append_nil]
  | closed => rw [List.flatMap_nil, Piece.scanFrom, List.append_nil]
  | @opening m text ps hrest ih =>
    obtain rfl : place = .statement := by cases place <;> cases hplace; rfl
    have hclosed := hrest.quote_mem (@UpToLineEnd.behind [Text.doubleQuote] _ htext) rfl
    have htoken : ofToken false (index == 0) .statement Token.quote (ps.flatMap bytes) =
        (⟨Token.quote, Token.text Token.quote, true, none⟩, .string) := by
      simp [ofToken, beq_false_of_ne hindex, hclosed, show Token.isAmbiguous Token.quote = false by decide]
    exact scanFrom_piece rfl (fun _ => (by decide : Token.quote ≠ Token.number)) htoken
      (@ih (@UpToLineEnd.behind [Text.doubleQuote] _ htext) _ (Nat.succ_ne_zero index) .string false rfl _)
  | @literal front text run ps stored _ _ hrun _ hencode _ ih =>
    obtain rfl : place = .statement := by cases place <;> cases hplace; rfl
    obtain ⟨next, hnext, hscan⟩ := scanFrom_figures hrun hindex (Token.number :: (stored ++ ps.flatMap bytes)) done
    have hlength := StoredNumber.length_encode hencode
    have hbytes : (run ++ ⟨Token.number, [], true, some stored⟩ :: ps).flatMap bytes =
        run.flatMap bytes ++ Token.number :: (stored ++ ps.flatMap bytes) := by
      rw [List.flatMap_append, List.flatMap_cons, bytes, Option.getD_some, List.cons_append]
    rw [hbytes, hscan, Piece.scanFrom, if_pos (by decide), List.take_left' hlength, List.drop_left' hlength]
    dsimp only
    rw [if_neg (by omega), @ih htext.behind _ (by omega) .statement false rfl]
    simp [show Token.number = 0x7E from rfl]
  | @token m b front text ps hspells hhead _ _ ih =>
    obtain rfl : place = .statement := by cases place <;> cases hplace; rfl
    have hquote : b ≠ Token.quote := by
      rwa [ne_eq, ← hspells.quote_iff fun c hc => htext.ascii c (List.mem_append_left _ hc)]
    have htoken : ofToken false (index == 0) .statement b (ps.flatMap bytes) =
        (⟨b, Token.text b, true, none⟩, .statement) := by
      simp [ofToken, beq_false_of_ne hindex, hquote]
    exact scanFrom_piece rfl (fun _ => hspells.ne_number) htoken
      (@ih htext.behind _ (Nat.succ_ne_zero index) .statement (Body.staysInName m b) rfl _)
  | @remark b front text ps hspells _ ih =>
    obtain rfl : place = .remark := by cases place <;> cases hplace; rfl
    have htoken : ofToken false (index == 0) .remark b (ps.flatMap bytes) =
        (⟨b, Token.text b, false, none⟩, .remark) := by
      rw [← hspells.spelled]
      simp [ofToken, beq_false_of_ne hindex, Token.spelled]
    exact scanFrom_piece rfl (fun hplace => by cases hplace) htoken
      (@ih htext.behind _ (Nat.succ_ne_zero index) .remark false rfl _)
  | @string b front text ps hspells _ ih =>
    obtain rfl : place = .string := by cases place <;> cases hplace; rfl
    have hquote := hspells.quote_iff fun c hc => htext.ascii c (List.mem_append_left _ hc)
    have htoken : ofToken false (index == 0) .string b (ps.flatMap bytes) =
        (⟨b, Token.text b, false, none⟩, if b = Token.quote then .statement else .string) := by
      rw [← hspells.spelled]
      by_cases hb : b = Token.quote <;> simp [ofToken, beq_false_of_ne hindex, Token.spelled, hb]
    have hmode : Place.mode false (if b = Token.quote then .statement else .string) =
        if front.head? = some Text.doubleQuote then .statement false else .quotation := by
      simp only [hquote]
      split <;> rfl
    exact scanFrom_piece rfl (fun hplace => by cases hplace) htoken
      (@ih htext.behind _ (Nat.succ_ne_zero index) _ false hmode _)

/-! ## Runs of figures -/

/-- A run with no literal in it is left as it is. -/
theorem codeLiterals_singles {segments : List Literal.Segment} (h : ∀ s ∈ segments, s.isLiteral = false)
    (run : List Piece) : codeLiterals segments run = run := by
  induction segments generalizing run with
  | nil => rfl
  | cons segment segments ih =>
    obtain ⟨hsegment, hrest⟩ := List.forall_mem_cons.mp h
    rw [codeLiterals, hsegment, ih hrest, if_neg Bool.false_ne_true, List.take_append_drop]

theorem Figure.inRun {p : Piece} (h : Figure p) : p.inRun = true := by
  rw [Piece.inRun, h.inStatement, h.byte]
  rfl

/-- What a run of figures is and how the line goes on behind it: as it is read, no literal stands in the run, or
one at its end and in front of its stored number. -/
inductive RunsOn (n : Bool) : List Char → List Piece → List Piece → Prop where
  | singles {text : List Char} {run rest : List Piece} (m : Bool) :
    (∀ s ∈ Literal.segments n (join run), s.isLiteral = false) → (∀ q ∈ rest.head?, q.stored = none) →
    Plain (.statement m) text rest → RunsOn n text run rest
  | number {text : List Char} {front final behind : List Piece} {segments : List Literal.Segment}
    {stored : List UInt8} : Literal.segments n (join (front ++ final)) = segments ++ [⟨true, final.length⟩] →
    (∀ s ∈ segments, s.isLiteral = false) → Literal.readsBackAs (join final) (join behind) stored = true →
    Plain (.statement false) text behind →
    RunsOn n text (front ++ final) (⟨Token.number, [], true, some stored⟩ :: behind)

/-- A figure at which no literal starts, in front of a run. -/
theorem RunsOn.cons {n : Bool} {p : Piece} {run rest : List Piece} (hp : Figure p)
    (hsingle : n = true ∨ Literal.width (p.text ++ join run) = 0)
    (h : RunsOn (Body.staysInName n p.byte) text run rest) : RunsOn n text (p :: run) rest := by
  obtain ⟨c, hc, halpha, hdigit, -⟩ := hp.exists_character
  have hsegments : Literal.segments n (join (p :: run)) =
      ⟨false, 1⟩ :: Literal.segments (Body.staysInName n p.byte) (join run) := by
    rw [hc, List.singleton_append] at hsingle
    rw [join_cons, hc, List.singleton_append, Literal.segments_single hsingle, halpha, hdigit, Body.staysInName,
      Bool.and_comm]
  cases h with
  | singles m hnone hrest hplain =>
    refine .singles m ?_ hrest hplain
    rw [hsegments]
    exact List.forall_mem_cons.mpr ⟨rfl, hnone⟩
  | @number front final behind segments stored hsplit hnone hreads hplain =>
    have hwhole : Literal.segments n (join ((p :: front) ++ final)) =
        (⟨false, 1⟩ :: segments) ++ [⟨true, final.length⟩] := by
      rw [List.cons_append, hsegments, hsplit, List.cons_append]
    rw [← List.cons_append]
    exact .number hwhole (List.forall_mem_cons.mpr ⟨rfl, hnone⟩) hreads hplain

theorem inRun_number (stored : List UInt8) : (⟨Token.number, [], true, some stored⟩ : Piece).inRun = false := rfl

theorem takeWhile_inRun {run rest : List Piece} {q : Piece} (hrun : ∀ p ∈ run, Figure p) (hq : q.inRun = false) :
    (run ++ q :: rest).takeWhile inRun = run ∧ (run ++ q :: rest).dropWhile inRun = q :: rest := by
  induction run with
  | nil =>
    have hneg : ¬q.inRun = true := by simp [hq]
    exact ⟨List.takeWhile_cons_of_neg hneg, List.dropWhile_cons_of_neg hneg⟩
  | cons p run ih =>
    obtain ⟨hp, hrest⟩ := List.forall_mem_cons.mp hrun
    rw [List.cons_append, List.takeWhile_cons_of_pos hp.inRun, List.dropWhile_cons_of_pos hp.inRun, (ih hrest).1,
      (ih hrest).2]
    exact ⟨rfl, rfl⟩

/-- A literal is as long in the listing of a plain text. -/
theorem Plain.exists_width (h : Plain mode text ps) {part : List Char}
    (hascii : ∀ c ∈ part ++ text, isAscii c = true)
    {front : List Char} (hfront : front = part.map lookedUp) :
    ∃ more, Literal.width (front ++ (join ps ++ more)) = Literal.width (part ++ text) := by
  obtain ⟨line, tail, rfl, hline, -⟩ := h.exists_line
  refine ⟨tail.map lookedUp, ?_⟩
  rw [← Literal.width_capitals hascii, List.map_append, List.map_append, hline, hfront]

/-- **Runs.** The figures of a plain line are read as they stand in their run. -/
theorem Plain.runsOn {n : Bool} (h : Plain mode text ps) (htext : UpToLineEnd text) (hmode : mode = .statement n) :
    ∃ behind, UpToLineEnd behind ∧ RunsOn n behind (ps.takeWhile inRun) (ps.dropWhile inRun) := by
  induction h generalizing n with
  | lineEnd hopen => exact ⟨_, htext, .singles n (by simp [join]) (by simp) (.lineEnd nofun)⟩
  | closed hopen => exact ⟨_, htext, .singles n (by simp [join]) (by simp) (.closed nofun)⟩
  | remark => cases hmode
  | string => cases hmode
  | @opening m text ps hrest ih =>
    refine ⟨_, htext, ?_⟩
    rw [List.takeWhile_cons_of_neg (by decide), List.dropWhile_cons_of_neg (by decide)]
    exact .singles n (by simp [join]) (by simp) (.opening hrest)
  | @literal front text run ps stored hne hwidth hrun hjoin hencode hrest ih =>
    cases hmode
    refine ⟨text, htext.behind, ?_⟩
    have hlength : (join run).length = front.length := by rw [hjoin, List.length_map]
    obtain ⟨more, hmore⟩ := hrest.exists_width htext.ascii hjoin
    -- the literal takes the whole run, and nothing of what the listing shows behind it
    have hown : Literal.width (join run) = (join run).length := by
      have := Literal.width_append (join run) (join ps ++ more)
      omega
    have hreads : Literal.readsBackAs (join run) (join ps) stored = true := by
      have hjoined : join run ≠ [] := by
        rw [hjoin]
        simpa using hne
      rw [Literal.readsBackAs_iff hjoined]
      have hle := Literal.width_le_append (join run ++ join ps) more
      rw [List.append_assoc] at hle
      have hge := Literal.width_le_append (join run) (join ps)
      exact ⟨by omega, hencode⟩
    have hsegments : Literal.segments false (join ([] ++ run)) = [] ++ [⟨true, run.length⟩] := by
      rw [List.nil_append, List.nil_append, ← length_join_figures hrun]
      obtain ⟨c, rest, hcons⟩ : ∃ c rest, join run = c :: rest := by
        refine List.exists_cons_of_ne_nil (List.length_pos_iff.mp ?_)
        have := List.length_pos_iff.mpr hne
        omega
      rw [hcons] at hown ⊢
      rw [Literal.segments_literal (by rw [hown]; simp), hown, List.drop_length, Literal.segments_nil]
    rw [(takeWhile_inRun hrun (inRun_number stored)).1, (takeWhile_inRun hrun (inRun_number stored)).2]
    exact .number hsegments (by simp) hreads hrest
  | @token m b front text ps hspells hhead hsingle hrest ih =>
    cases hmode
    by_cases hfigure : isLiteralToken b = true
    · have hp : Figure ⟨b, Token.text b, true, none⟩ := ⟨hfigure, by dsimp only, rfl, rfl⟩
      rw [List.takeWhile_cons_of_pos hp.inRun, List.dropWhile_cons_of_pos hp.inRun]
      obtain ⟨behind, hbehind, hruns⟩ := ih htext.behind rfl
      refine ⟨behind, hbehind, hruns.cons hp (hsingle.imp_right fun hzero => ?_)⟩
      obtain ⟨more, hmore⟩ := hrest.exists_width htext.ascii hspells.text.symm
      have hle := Literal.width_le_append (Token.text b ++ join (ps.takeWhile inRun))
        (join (ps.dropWhile inRun) ++ more)
      rw [List.append_assoc, ← List.append_assoc (join _), ← join_append, List.takeWhile_append_dropWhile] at hle
      dsimp only
      omega
    · have hp : ¬(⟨b, Token.text b, true, none⟩ : Piece).inRun = true := by simpa [Piece.inRun] using hfigure
      refine ⟨_, htext, ?_⟩
      rw [List.takeWhile_cons_of_neg hp, List.dropWhile_cons_of_neg hp]
      exact .singles m (by simp [join]) (by simp) (.token hspells hhead hsingle hrest)

/-! ## Settling the numbers -/

/-- A run of a plain line and the stored number behind it are left as they are. -/
theorem settleNumber_number {n : Bool} {front final behind : List Piece} {number : Piece} {stored : List UInt8}
    {segments : List Literal.Segment}
    (hsegments : Literal.segments n (join (front ++ final)) = segments ++ [⟨true, final.length⟩])
    (hnone : ∀ s ∈ segments, s.isLiteral = false)
    (hreads : Literal.readsBackAs (join final) (join behind) stored = true) :
    settleNumber n (front ++ final) number stored (join behind) = (front ++ final ++ [number], []) := by
  rw [settleNumber_eq, hsegments, List.getLast?_concat, List.dropLast_concat, List.length_append]
  dsimp only
  rw [Nat.add_sub_cancel, List.take_left, List.drop_left, if_pos hreads, codeLiterals_singles hnone]

theorem run_ne_nil {run : List Piece} {literal : List Char} (hne : literal ≠ [])
    (hjoin : join run = literal.map lookedUp) : run ≠ [] := by
  rintro rfl
  exact hne (List.map_eq_nil_iff.mp hjoin.symm)

/-- A token that is no figure is read alike whether a name goes on in front of it or not. -/
theorem Plain.of_firm {n : Bool} {q : Piece} (h : Plain (.statement n) text (q :: ps)) (htext : UpToLineEnd text)
    (hq : q.inRun = false) (n' : Bool) : Plain (.statement n') text (q :: ps) := by
  generalize hmode : Body.Mode.statement n = mode at h
  generalize hall : q :: ps = all at h
  cases h with
  | lineEnd => cases hall
  | closed => cases hall
  | remark => cases hmode
  | string => cases hmode
  | opening hrest => exact .opening hrest
  | @literal front text run ps stored hne _ hrun hjoin =>
    obtain ⟨p, rest, rfl⟩ := List.exists_cons_of_ne_nil (run_ne_nil hne hjoin)
    cases hall
    rw [(hrun _ List.mem_cons_self).inRun] at hq
    cases hq
  | @token m b front text ps hspells hhead _ hrest =>
    cases hall
    cases hmode
    have hfigure : isLiteralToken b = false := by simpa [Piece.inRun] using hq
    obtain ⟨more, hmore⟩ := hrest.exists_width htext.ascii hspells.text.symm
    have hzero : Literal.width (front ++ text) = 0 := by
      rw [← hmore]
      exact (firm_text hfigure _).width_eq_zero
    have hfirm := firm_text hfigure []
    rw [staysInName_of_firm hfirm] at hrest
    rw [← staysInName_of_firm hfirm n'] at hrest
    exact .token hspells hhead (.inr hzero) hrest

/-- A piece that is no figure stands in front of no number, and what is read behind it. -/
theorem Plain.exists_next {p : Piece} (h : Plain mode text (p :: ps)) (hp : p.inRun = false) :
    p.stored = none ∧ ∃ part behind next, text = part ++ behind ∧ Plain next behind ps ∧
      ∀ n, next = .statement n → n = (p.inStatement && Token.isLetter p.byte) := by
  generalize hall : p :: ps = all at h
  cases h with
  | lineEnd => cases hall
  | closed => cases hall
  | opening hrest =>
    cases hall
    exact ⟨rfl, [Text.doubleQuote], _, .quotation, rfl, hrest, by rintro _ ⟨⟩⟩
  | @literal front text run ps stored hne _ hrun hjoin =>
    obtain ⟨q, rest, rfl⟩ := List.exists_cons_of_ne_nil (run_ne_nil hne hjoin)
    cases hall
    rw [(hrun _ List.mem_cons_self).inRun] at hp
    cases hp
  | @token m b front text ps hspells _ _ hrest =>
    cases hall
    have hfigure : isLiteralToken b = false := by simpa [Piece.inRun] using hp
    refine ⟨rfl, front, text, _, rfl, hrest, fun n hn => ?_⟩
    rw [staysInName_of_firm (firm_text hfigure [])] at hn
    cases hn
    rfl
  | @remark b front text ps hspells hrest =>
    cases hall
    exact ⟨rfl, front, text, .remark, rfl, hrest, by rintro _ ⟨⟩⟩
  | @string b front text ps hspells hrest =>
    cases hall
    refine ⟨rfl, front, text, _, rfl, hrest, fun n hn => ?_⟩
    split at hn
    · cases hn
      rfl
    · cases hn

/-- What starts with a figure is statement text. -/
theorem Plain.exists_statement {p : Piece} {rest : List Piece} (h : Plain mode text (p :: rest)) (hp : p.inRun = true) :
    ∃ n, mode = .statement n := by
  generalize hall : p :: rest = all at h
  cases h with
  | lineEnd => cases hall
  | closed => cases hall
  | opening => exact ⟨_, rfl⟩
  | literal => exact ⟨_, rfl⟩
  | token => exact ⟨_, rfl⟩
  | remark =>
    cases hall
    cases hp
  | string =>
    cases hall
    cases hp

/-- A line that goes on with a figure is a run and what follows it. -/
theorem Plain.run_of_inRun {p : Piece} {rest tail done : List Piece} (h : Plain mode text (p :: rest))
    (htext : UpToLineEnd text) (hp : p.inRun = true) (hname : ∀ n, mode = .statement n → n = endsInName done)
    (hafter : rest.dropWhile inRun = tail) :
    p :: rest = (p :: rest.takeWhile inRun) ++ tail ∧ ∃ behind, UpToLineEnd behind ∧
      RunsOn (endsInName done) behind (p :: rest.takeWhile inRun) tail := by
  subst hafter
  refine ⟨by rw [List.cons_append, List.takeWhile_append_dropWhile], ?_⟩
  obtain ⟨n, rfl⟩ := h.exists_statement hp
  obtain ⟨behind, hbehind, hruns⟩ := h.runsOn htext rfl
  rw [List.takeWhile_cons_of_pos hp, List.dropWhile_cons_of_pos hp, hname n rfl] at hruns
  exact ⟨behind, hbehind, hruns⟩

/-- **Settling the numbers.** The pieces of a plain line are left as they are. -/
theorem Plain.resolveFrom (h : Plain mode text ps) (htext : UpToLineEnd text) (done : List Piece) (events : Journal)
    (hname : ∀ n, mode = .statement n → n = endsInName done) :
    resolveFrom ps done events = (done.reverse ++ ps, events) := by
  unfold Piece.resolveFrom
  fun_induction resolveFromWith Slip.ignored ps done events generalizing mode text with
  | case2 done events p rest hp =>
    -- the line ends with the run
    rename_i run inName hafter
    obtain ⟨hall, behind, -, hruns⟩ : p :: rest = run ++ [] ∧ ∃ behind, UpToLineEnd behind ∧
      RunsOn inName behind run [] := h.run_of_inRun htext hp hname hafter
    rw [hall]
    clear_value run inName
    cases hruns with
    | singles m hnone => simp [settleRun, codeLiterals_singles hnone, pure]
  | case3 done events p rest hp =>
    rename_i run inName q behind hafter _ stored hstored ih
    obtain ⟨hall, after, hafterText, hruns⟩ : p :: rest = run ++ q :: behind ∧ ∃ after,
      UpToLineEnd after ∧ RunsOn inName after run (q :: behind) := h.run_of_inRun htext hp hname hafter
    rw [hall]
    clear_value run inName
    cases hruns with
    | singles m _ hnext =>
      rw [hnext q rfl] at hstored
      cases hstored
    | number hsegments hnone hreads hbehind =>
      cases hstored
      rw [show settleNumberWith Slip.ignored _ _ _ _ _ = _ from settleNumber_number hsegments hnone hreads]
      refine (ih _ _ hbehind hafterText fun n hn => ?_).trans ?_
      · cases hn
        simp [endsInName, show Token.isLetter Token.number = false by decide]
      · simp
  | case4 done events p rest hp =>
    rename_i run inName q behind hafter _ hstored ih
    obtain ⟨hall, after, hafterText, hruns⟩ : p :: rest = run ++ q :: behind ∧ ∃ after,
      UpToLineEnd after ∧ RunsOn inName after run (q :: behind) := h.run_of_inRun htext hp hname hafter
    have hq := not_inRun_of_dropWhile hafter
    rw [hall]
    clear_value run inName
    cases hruns with
    | number => cases hstored
    | singles m hnone _ hbehind =>
      -- no literal can start at the piece behind the run, so it does not matter whether a name goes on
      rw [settleRun, codeLiterals_singles hnone] at ih ⊢
      rw [ih (hbehind.of_firm hafterText hq (endsInName (run.reverse ++ done))) hafterText]
      · simp
      · intro n hn
        cases hn
        rfl
  | case1 done events =>
    rw [List.append_nil]
    rfl
  | case5 done events p rest hp stored hstored ih =>
    have := (h.exists_next (by simpa using hp)).1
    rw [hstored] at this
    cases this
  | case6 done events p rest hp hstored ih =>
    obtain ⟨-, part, behind, next, rfl, hrest, hnext⟩ := h.exists_next (by simpa using hp)
    rw [ih hrest htext.behind fun n hn => by simpa [endsInName] using hnext n hn]
    simp

/-! ## Keeping the tokens apart -/

/-- A token of a plain line is read back in front of the listing behind it. -/
theorem readsBack_token {n : Bool} {b : UInt8} {front : List Char} (hspells : Grammar.statement.Spells front text b)
    (hwhole : Plain (.statement n) (front ++ text) (⟨b, Token.text b, true, none⟩ :: ps))
    (htext : UpToLineEnd (front ++ text)) :
    Grammar.statement.ReadsBack (Token.text b) b (join ps ++ ['\n']) := by
  have hne : front ++ text ≠ [] := List.append_ne_nil_of_left_ne_nil hspells.ne_nil _
  have hwidth := hwhole.width?_join htext.ascii (htext.getLast? hne)
  rw [join_cons, hspells.width, List.append_assoc] at hwidth
  refine ⟨by rw [hwidth, ← hspells.text, List.length_map], ?_⟩
  have ht := Grammar.tidy_of_mem Grammar.statement_checked.1 (Grammar.mem_statementSymbols b)
  simp only [Grammar.isTidy, Bool.and_eq_true, Bool.not_eq_true', beq_iff_eq] at ht
  rw [Grammar.lookup, if_neg (by simp [ht.1.1]), ht.1.2, hspells.find]

/-- **One check.** No piece of a plain line is put in brackets. -/
theorem Plain.separatePass_fst (h : Plain mode text ps) (htext : UpToLineEnd text) : (separatePass ps).1 = ps := by
  induction h with
  | lineEnd => rfl
  | closed => rfl
  | @opening n text ps _ ih =>
    rw [separatePass_of_not_isOpen (by simp [isOpen]), ih (@UpToLineEnd.behind [Text.doubleQuote] _ htext)]
  | @literal front text run ps stored _ hwidth hrun hjoin _ hrest ih =>
    have hwhole : Literal.width (join run) = (join run).length := by
      obtain ⟨more, hmore⟩ := hrest.exists_width htext.ascii hjoin
      have := Literal.width_append (join run) (join ps ++ more)
      rw [hjoin, List.length_map] at *
      omega
    have hfigures : ∀ p ∈ [] ++ run, Figure p := hrun
    rw [separatePass_literal hfigures hwhole, separatePass_of_not_isOpen (by simp [isOpen]), ih htext.behind]
  | @token n b front text ps hspells hhead hsingle hrest ih =>
    have hread : Grammar.statement.ReadsBack (Piece.mk b (Token.text b) true none).text b (join ps ++ ['\n']) := by
      dsimp only
      exact readsBack_token hspells (.token hspells hhead hsingle hrest) htext
    rw [separatePass_cons, separatePass_snd, ih htext.behind, separated_of_readsBack hread]
  | remark _ _ ih => rw [separatePass_of_not_isOpen (by simp [isOpen]), ih htext.behind]
  | string _ _ ih => rw [separatePass_of_not_isOpen (by simp [isOpen]), ih htext.behind]

/-- **Keeping the tokens apart.** The pieces of a plain line are left as they are. -/
theorem Plain.separate (h : Plain mode text ps) (htext : UpToLineEnd text) : separate ps = ps := by
  rw [separate_eq, h.separatePass_fst htext, if_neg (Nat.lt_irrefl _)]

end Piece

end TapeBasic
