import Mathlib.Data.List.Forall2
import TapeBasic.Listing
import TapeBasic.Proofs.Reading

/-!
# The pieces of a line and the text they get

A line is cut into pieces, and the text of some pieces is then replaced by a text in brackets. No such
change touches the bytes of a piece, and a bracket never makes a literal in front of it longer.

* `Spelled place ps`: the pieces that cutting a line gives at this place.
* `Closes p q`: `q` is the piece `p` with its text or with a text in brackets.

Results:
* `scanFrom_spelled`: cutting a line gives spelled pieces, whose bytes are those of the line.
* `AllClose.bytes_eq`, `AllClose.head?_join`, `AllClose.width_le`: what closing pieces leaves as it is.
* `codeLiterals_closes`, `settleNumber_closes`, `separatePass_closes`: every step of a listing closes
  pieces.
-/
namespace TapeBasic.Piece

/-- The bytes that a piece stands for. -/
def bytes (p : Piece) : List UInt8 := p.byte :: p.stored.getD []

/-! ## Cutting a line -/

/-- The pieces behind the first token of a line, as they are spelled before numbers are settled. A string
is always closed. -/
inductive Spelled : Place → List Piece → Prop where
  | nil {place : Place} : place ≠ .string → Spelled place []
  | remark (b : UInt8) {ps : List Piece} :
    Spelled .remark ps → Spelled .remark (⟨b, Token.spelled b, false, none⟩ :: ps)
  | inside {b : UInt8} {ps : List Piece} : b ≠ Token.quote →
    Spelled .string ps → Spelled .string (⟨b, Token.spelled b, false, none⟩ :: ps)
  | closing {ps : List Piece} :
    Spelled .statement ps → Spelled .string (⟨Token.quote, Token.spelled Token.quote, false, none⟩ :: ps)
  | opening {ps : List Piece} :
    Spelled .string ps → Spelled .statement (⟨Token.quote, Token.text Token.quote, true, none⟩ :: ps)
  | lone {ps : List Piece} :
    Spelled .statement ps → Spelled .statement (⟨Token.quote, Token.code Token.quote, true, none⟩ :: ps)
  | number {stored : List UInt8} {ps : List Piece} :
    Spelled .statement ps → Spelled .statement (⟨Token.number, [], true, some stored⟩ :: ps)
  | plain {b : UInt8} {ps : List Piece} : b ≠ Token.quote →
    Spelled .statement ps → Spelled .statement (⟨b, Token.text b, true, none⟩ :: ps)
  | named {b : UInt8} {ps : List Piece} : Token.isAmbiguous b = true →
    Spelled .statement ps → Spelled .statement (⟨b, Token.bracketed b, true, none⟩ :: ps)

/-- A token becomes a piece of its byte, spelled for its place, and a string goes on only in front of a
quotation mark. -/
theorem ofToken_spelled {bracketed : Bool} {place next : Place} {b : UInt8} {rest : List UInt8}
    {piece : Piece} (h : ofToken bracketed false place b rest = (piece, next))
    (hplace : place = .string → Token.quote ∈ b :: rest) :
    piece.bytes = [b] ∧ (∀ ps, Spelled next ps → Spelled place (piece :: ps)) ∧
      (next = .string → Token.quote ∈ rest) := by
  have hplain : Token.isAmbiguous Token.quote = false := by decide
  cases place with
  | remark =>
    have h' : (⟨b, Token.spelled b, false, none⟩, Place.remark) = (piece, next) := by
      rw [← h]
      simp [ofToken, Token.spelled]
    cases h'
    exact ⟨rfl, fun ps => .remark b, by rintro ⟨⟩⟩
  | string =>
    by_cases hb : b = Token.quote
    · have h' : (⟨b, Token.spelled b, false, none⟩, Place.statement) = (piece, next) := by
        rw [← h]
        simp [ofToken, Token.spelled, hb]
      cases h'
      subst hb
      exact ⟨rfl, fun ps => .closing, by rintro ⟨⟩⟩
    · have h' : (⟨b, Token.spelled b, false, none⟩, Place.string) = (piece, next) := by
        rw [← h]
        simp [ofToken, Token.spelled, hb]
      cases h'
      refine ⟨rfl, fun ps => .inside hb, fun hs => ?_⟩
      exact (List.mem_cons.mp (hplace hs)).resolve_left (Ne.symm hb)
  | statement =>
    by_cases hb : b = Token.quote
    · subst hb
      by_cases hrest : Token.quote ∈ rest
      · have h' : (⟨Token.quote, Token.text Token.quote, true, none⟩, Place.string) = (piece, next) := by
          rw [← h]
          simp [ofToken, hplain, hrest]
        cases h'
        exact ⟨rfl, fun ps => .opening, fun _ => hrest⟩
      · have h' : (⟨Token.quote, Token.code Token.quote, true, none⟩, Place.statement) =
            (piece, next) := by
          rw [← h]
          simp [ofToken, hrest]
        cases h'
        exact ⟨rfl, fun ps => .lone, by rintro ⟨⟩⟩
    · by_cases hnamed : (Token.isAmbiguous b && bracketed) = true
      · have h' : (⟨b, Token.bracketed b, true, none⟩, Place.statement) = (piece, next) := by
          rw [← h]
          simp [ofToken, hb, Bool.and_eq_true_iff.mp hnamed]
        cases h'
        exact ⟨rfl, fun ps => .named (Bool.and_eq_true_iff.mp hnamed).1, by rintro ⟨⟩⟩
      · have h' : (⟨b, Token.text b, true, none⟩, Place.statement) = (piece, next) := by
          rw [← h]
          simpa [ofToken, hb] using fun ha hbracketed =>
            absurd (Bool.and_eq_true_iff.mpr ⟨ha, hbracketed⟩) hnamed
        cases h'
        exact ⟨rfl, fun ps => .plain hb, by rintro ⟨⟩⟩

/-- **Cutting a line.** The pieces are spelled for their places, and their bytes are those of the line. A
string only starts where it ends again. -/
theorem scanFrom_spelled {bracketed : Bool} {index : Nat} {place : Place} {tokens : List UInt8}
    {done pieces : List Piece} (h : scanFrom bracketed index place tokens done = .ok pieces)
    (hindex : index ≠ 0) (hplace : place = .string → Token.quote ∈ tokens) :
    ∃ ps, pieces = done.reverse ++ ps ∧ Spelled place ps ∧ ps.flatMap bytes = tokens := by
  fun_induction scanFrom bracketed index place tokens done with
  | case1 index place done =>
    cases h
    exact ⟨[], by simp, .nil fun hs => by simpa using hplace hs, rfl⟩
  | case2 => cases h
  | case3 index place done b rest hnumber stored hlength ih =>
    simp only [Bool.and_eq_true, beq_iff_eq] at hnumber
    obtain ⟨rfl, rfl⟩ := hnumber
    obtain ⟨ps, hpieces, hspelled, hbytes⟩ := ih h (by omega) nofun
    refine ⟨⟨Token.number, [], true, some stored⟩ :: ps, by simp [hpieces], .number hspelled, ?_⟩
    rw [List.flatMap_cons, hbytes, bytes, Option.getD_some, List.cons_append, List.take_append_drop]
  | case4 index place done b rest hnumber piece next hpiece ih =>
    rw [beq_false_of_ne hindex] at hpiece
    obtain ⟨hbyte, hgrow, hnext⟩ := ofToken_spelled hpiece hplace
    obtain ⟨ps, hpieces, hspelled, hbytes⟩ := ih h (by omega) hnext
    refine ⟨piece :: ps, by simp [hpieces], hgrow ps hspelled, ?_⟩
    rw [List.flatMap_cons, hbytes, hbyte, List.singleton_append]

/-! ## Closing pieces -/

/-- `q` is the piece `p`, with its text or with a text in brackets. -/
structure Closes (p q : Piece) : Prop where
  byte : q.byte = p.byte
  stored : q.stored = p.stored
  inStatement : q.inStatement = p.inStatement
  text : q.text = p.text ∨ ∃ rest, q.text = '[' :: rest

theorem Closes.refl (p : Piece) : Closes p p := ⟨rfl, rfl, rfl, .inl rfl⟩

theorem closes_coded (p : Piece) : Closes p p.coded := ⟨rfl, rfl, rfl, .inr ⟨_, rfl⟩⟩

theorem exists_enclosed (p : Piece) : ∃ rest, p.enclosed.text = '[' :: rest := by
  dsimp only [enclosed]
  split
  · next h =>
    obtain ⟨rest, hrest, -⟩ := Body.exists_of_isName (Token.bracketed_isName h)
    exact ⟨rest, hrest⟩
  · exact ⟨_, rfl⟩

theorem closes_enclosed (p : Piece) : Closes p p.enclosed :=
  ⟨rfl, rfl, rfl, .inr (exists_enclosed p)⟩

theorem exists_explicitNumber (stored : List UInt8) : ∃ rest, explicitNumber stored = '[' :: rest := by
  simp only [explicitNumber, numberText, Token.code, List.cons_append]
  exact ⟨_, rfl⟩

theorem closes_written (p : Piece) (stored : List UInt8) :
    Closes p { p with text := explicitNumber stored } :=
  ⟨rfl, rfl, rfl, .inr (exists_explicitNumber stored)⟩

theorem Closes.trans {p q r : Piece} (h₁ : Closes p q) (h₂ : Closes q r) : Closes p r := by
  refine ⟨h₂.byte.trans h₁.byte, h₂.stored.trans h₁.stored, h₂.inStatement.trans h₁.inStatement, ?_⟩
  rcases h₂.text with h | h
  · rcases h₁.text with h' | ⟨rest, h'⟩
    · exact .inl (h.trans h')
    · exact .inr ⟨rest, h.trans h'⟩
  · exact .inr h

/-- Every piece of a row is closed or left. -/
abbrev AllClose (ps qs : List Piece) : Prop := List.Forall₂ Closes ps qs

theorem allClose_refl (ps : List Piece) : AllClose ps ps := List.forall₂_same.mpr fun p _ => .refl p

/-- What two changes in a row make of pieces, piece by piece. -/
theorem forall₂_trans {R : Piece → Piece → Prop} (hR : ∀ p q r, R p q → R q r → R p r)
    {ps qs rs : List Piece} (h₁ : List.Forall₂ R ps qs) (h₂ : List.Forall₂ R qs rs) :
    List.Forall₂ R ps rs := by
  induction h₁ generalizing rs with
  | nil => exact h₂
  | cons h _ ih =>
    cases h₂ with
    | cons h' hrest => exact .cons (hR _ _ _ h h') (ih hrest)

theorem AllClose.trans {ps qs rs : List Piece} (h₁ : AllClose ps qs) (h₂ : AllClose qs rs) :
    AllClose ps rs := forall₂_trans (R := Closes) (fun _ _ _ => Closes.trans) h₁ h₂

theorem AllClose.append {ps ps' qs qs' : List Piece} (h : AllClose ps qs) (h' : AllClose ps' qs') :
    AllClose (ps ++ ps') (qs ++ qs') := List.rel_append h h'

theorem allClose_coded (ps : List Piece) : AllClose ps (ps.map coded) := by
  rw [AllClose, List.forall₂_map_right_iff]
  exact List.forall₂_same.mpr fun p _ => closes_coded p

/-- Closing pieces keeps their bytes. -/
theorem AllClose.bytes_eq {ps qs : List Piece} (h : AllClose ps qs) :
    qs.flatMap bytes = ps.flatMap bytes := by
  induction h with
  | nil => rfl
  | cons h _ ih => rw [List.flatMap_cons, List.flatMap_cons, ih, bytes, bytes, h.byte, h.stored]

theorem join_cons (p : Piece) (ps : List Piece) : join (p :: ps) = p.text ++ join ps := rfl

theorem join_append (ps qs : List Piece) : join (ps ++ qs) = join ps ++ join qs :=
  List.flatMap_append

/-- The text of closed pieces is the text they had, at most up to a bracket. -/
theorem AllClose.join_cases {ps qs : List Piece} (h : AllClose ps qs) :
    join qs = join ps ∨ ∃ front back rest, join ps = front ++ back ∧ join qs = front ++ '[' :: rest := by
  induction h with
  | nil => exact .inl rfl
  | @cons p q ps qs h _ ih =>
    rw [join_cons, join_cons]
    rcases h.text with htext | ⟨rest, htext⟩
    · rw [htext]
      rcases ih with ih | ⟨front, back, rest, hps, hqs⟩
      · exact .inl (by rw [ih])
      · exact .inr ⟨p.text ++ front, back, rest, by rw [hps, List.append_assoc],
          by rw [hqs, List.append_assoc]⟩
    · exact .inr ⟨[], p.text ++ join ps, rest ++ join qs, rfl, by rw [htext]; rfl⟩

theorem AllClose.head?_join {ps qs : List Piece} (h : AllClose ps qs) :
    (join qs).head? = (join ps).head? ∨ (join qs).head? = some '[' := by
  rcases h.join_cases with h | ⟨front, back, rest, hps, hqs⟩
  · exact .inl (by rw [h])
  · rw [hps, hqs]
    cases front with
    | nil => exact .inr rfl
    | cons c front => exact .inl rfl

/-- **Closing and literals.** A literal does not get longer when pieces behind it are closed. -/
theorem AllClose.width_le {ps qs : List Piece} (h : AllClose ps qs) (text : List Char) :
    Literal.width (text ++ join qs) ≤ Literal.width (text ++ join ps) := by
  rcases h.join_cases with h | ⟨front, back, rest, hps, hqs⟩
  · exact Nat.le_of_eq (by rw [h])
  · rw [hps, hqs, ← List.append_assoc, ← List.append_assoc, Literal.width_append_cons _ _ (by decide)]
    exact Literal.width_le_append _ _

/-! ## Every step closes pieces -/

theorem codeLiterals_closes (segments : List Literal.Segment) (run : List Piece) :
    AllClose run (codeLiterals segments run) := by
  induction segments generalizing run with
  | nil => exact allClose_refl run
  | cons segment segments ih =>
    have hrun : AllClose (run.take segment.width ++ run.drop segment.width)
        (codeLiterals (segment :: segments) run) := by
      refine AllClose.append ?_ (ih _)
      split
      · exact allClose_coded _
      · exact allClose_refl _
    rwa [List.take_append_drop] at hrun

/-! ## Steps whose slips are passed over -/

theorem settleNumber_eq (inName : Bool) (run : List Piece) (number : Piece) (stored : List UInt8)
    (following : List Char) :
    settleNumber inName run number stored following =
      match (Literal.segments inName (join run)).getLast? with
      | some ⟨true, width⟩ =>
        let front := codeLiterals (Literal.segments inName (join run)).dropLast (run.take (run.length - width))
        let final := run.drop (run.length - width)
        if Literal.readsBackAs (join final) following stored then (front ++ final ++ [number], [])
        else
          (front ++ final.map coded ++ [{ number with text := explicitNumber stored }],
            [.numberDiffers (storedValue stored) (join final)])
      | _ =>
        (codeLiterals (Literal.segments inName (join run)) run ++ [{ number with text := explicitNumber stored }],
          []) := by
  unfold settleNumber settleNumberWith
  simp only [explicitNumber, storedValue, Literal.readsBackAs]
  simp only [bind, pure]
  rfl

section Run

variable {m : Type → Type} [Monad m] (rule : Slip.Rule m) {p q : Piece} {rest behind : List Piece}

/-- At a figure, the loop takes the figures as far as they go. They are settled if nothing is behind them. -/
theorem resolveFromWith_of_last (hp : p.inRun = true) (hafter : rest.dropWhile inRun = []) (done : List Piece)
    (events : Journal) :
    resolveFromWith rule (p :: rest) done events =
      pure (((settleRun (endsInName done) (p :: rest.takeWhile inRun)).reverse ++ done).reverse, events) := by
  rw [resolveFromWith.eq_def rule (p :: rest)]
  dsimp only
  rw [if_pos hp]
  split
  · rfl
  · next heq => cases hafter.symm.trans heq

/-- A stored number behind the figures is settled with them. -/
theorem resolveFromWith_of_stored {stored : List UInt8} (hp : p.inRun = true)
    (hafter : rest.dropWhile inRun = q :: behind) (hstored : q.stored = some stored) (done : List Piece)
    (events : Journal) :
    resolveFromWith rule (p :: rest) done events =
      (settleNumberWith rule (endsInName done) (p :: rest.takeWhile inRun) q stored (join behind) >>= fun settled =>
        resolveFromWith rule behind (settled.1.reverse ++ done) (events ++ settled.2)) := by
  rw [resolveFromWith.eq_def rule (p :: rest)]
  dsimp only
  rw [if_pos hp]
  split
  · next heq => cases hafter.symm.trans heq
  · next heq =>
    cases hafter.symm.trans heq
    split
    · next heq' =>
      cases hstored.symm.trans heq'
      rfl
    · next heq' => cases hstored.symm.trans heq'

/-- In front of any other piece the figures are settled by themselves. -/
theorem resolveFromWith_of_other (hp : p.inRun = true) (hafter : rest.dropWhile inRun = q :: behind)
    (hstored : q.stored = none) (done : List Piece) (events : Journal) :
    resolveFromWith rule (p :: rest) done events =
      resolveFromWith rule (q :: behind)
        ((settleRun (endsInName done) (p :: rest.takeWhile inRun)).reverse ++ done) events := by
  rw [resolveFromWith.eq_def rule (p :: rest)]
  dsimp only
  rw [if_pos hp]
  split
  · next heq => cases hafter.symm.trans heq
  · next heq =>
    cases hafter.symm.trans heq
    split
    · next heq' => cases hstored.symm.trans heq'
    · rfl

/-- A stored number with no figure in front of it is written out. -/
theorem resolveFromWith_number {stored : List UInt8} (hp : p.inRun = false) (hstored : p.stored = some stored)
    (rest done : List Piece) (events : Journal) :
    resolveFromWith rule (p :: rest) done events =
      (rule.take .zero (checkedStoredValue stored) >>= fun value =>
        resolveFromWith rule rest ({ p with text := numberText stored value } :: done) events) := by
  rw [resolveFromWith, if_neg (by simp [hp])]
  split
  · next heq =>
    cases hstored.symm.trans heq
    rfl
  · next heq => cases hstored.symm.trans heq

end Run

/-- A piece that is neither a figure nor a stored number is left as it is. -/
theorem resolveFrom_cons {p : Piece} (hp : p.inRun = false) (hstored : p.stored = none) (rest done : List Piece)
    (events : Journal) : resolveFrom (p :: rest) done events = resolveFrom rest (p :: done) events := by
  rw [resolveFrom, resolveFromWith, if_neg (by simp [hp]), hstored]
  rfl

theorem separated_eq (p : Piece) (text : List Char) :
    p.separated text = if p.isOpen && !p.readsBack text then p.enclosed else p := by
  unfold separated separatedWith readsBack
  simp only [bind, pure]
  generalize Slip.ignored.take false (checkedReadsBack p text) = same
  generalize p.isOpen = isOpen
  cases isOpen <;> cases same <;> rfl

theorem separate_eq (ps : List Piece) :
    separate ps =
      if openCount (separatePass ps).1 < openCount ps then separate (separatePass ps).1 else ps := by
  rw [separate, separateWith]
  rfl

/-- Every round but the last closes a piece. -/
theorem separate_induction {motive : List Piece → Prop}
    (again : ∀ ps, openCount (separatePass ps).1 < openCount ps → motive (separatePass ps).1 → motive ps)
    (stop : ∀ ps, ¬openCount (separatePass ps).1 < openCount ps → motive ps) (ps : List Piece) : motive ps := by
  induction hcount : openCount ps using Nat.strongRecOn generalizing ps with
  | ind n ih =>
    by_cases hlt : openCount (separatePass ps).1 < openCount ps
    · exact again ps hlt (ih _ (hcount ▸ hlt) _ rfl)
    · exact stop ps hlt

theorem separateBehindFirst_cons (p : Piece) (ps : List Piece) :
    separateBehindFirst (p :: ps) = p :: separate ps := rfl

/-- The text of a line, step by step. -/
theorem renderLine_eq (bracketed : Bool) (tokens : List UInt8) :
    Listing.renderLine bracketed tokens =
      match scan bracketed tokens with
      | .error failure => .error failure
      | .ok pieces =>
        .ok (join (Listing.markLastSpace tokens (separateBehindFirst (resolveNumbers pieces).1)),
          (resolveNumbers pieces).2) := by
  unfold Listing.renderLine
  cases scan bracketed tokens <;> rfl

/-! ## Steps that close pieces -/

theorem settleNumber_closes (inName : Bool) (run : List Piece) (number : Piece) (stored : List UInt8)
    (following : List Char) :
    AllClose (run ++ [number]) (settleNumber inName run number stored following).1 := by
  have hnumber : AllClose [number] [{ number with text := explicitNumber stored }] :=
    .cons (closes_written number stored) .nil
  rw [settleNumber_eq]
  dsimp only
  split
  · next width hlast =>
    have hfront := codeLiterals_closes (Literal.segments inName (join run)).dropLast
      (run.take (run.length - width))
    split
    · have h := (hfront.append (allClose_refl (run.drop (run.length - width)))).append
        (allClose_refl [number])
      rwa [List.take_append_drop] at h
    · have h := (hfront.append (allClose_coded (run.drop (run.length - width)))).append hnumber
      rwa [List.take_append_drop] at h
  · exact (codeLiterals_closes _ run).append hnumber

theorem separatePass_cons (p : Piece) (ps : List Piece) :
    separatePass (p :: ps) =
      (p.separated (p.text ++ (separatePass ps).2) :: (separatePass ps).1,
        p.text ++ (separatePass ps).2) := rfl

theorem separatePass_snd (ps : List Piece) : (separatePass ps).2 = join ps ++ ['\n'] := by
  induction ps with
  | nil => rfl
  | cons p ps ih => rw [separatePass_cons, ih, join_cons, List.append_assoc]

theorem separatePass_closes (ps : List Piece) : AllClose ps (separatePass ps).1 := by
  induction ps with
  | nil => exact .nil
  | cons p ps ih =>
    rw [separatePass_cons]
    refine .cons ?_ ih
    rw [separated_eq]
    split
    · exact closes_enclosed p
    · exact .refl p

end TapeBasic.Piece
