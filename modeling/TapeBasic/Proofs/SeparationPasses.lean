import Mathlib.Logic.Function.Iterate
import TapeBasic.Proofs.CheckedListing

/-!
# How often neighbouring pieces are checked

Keeping the pieces of a line apart is a loop: all pieces behind the first are checked against the texts
they have before the check, and as long as a check closes a piece, another one follows. A piece that has
been closed is never opened again, so the open pieces are the measure of the loop, and the last check, which
closes nothing, speaks about the final texts.

* `pass ps`: the pieces after one check.
* `Encloses p q`: `q` is the piece `p`, or `p` was open and `q` is its name or its number in brackets.

Results:
* `pass_eq_self_iff`: a check changes nothing exactly where all pieces are apart.
* `separate_iterate`: the loop ends with the first row of pieces that a check leaves as it is.
* `Apart.reads_at`: pieces that are apart are read at their places in the line.
* `separation_settles`: the loop as a whole, for any pieces.
-/
namespace TapeBasic.Piece

/-! ## One check -/

/-- The pieces after one check. -/
def pass (ps : List Piece) : List Piece := (separatePass ps).1

theorem pass_cons (p : Piece) (ps : List Piece) :
    pass (p :: ps) = p.separated (p.text ++ (join ps ++ ['\n'])) :: pass ps := by
  rw [pass, separatePass_cons, separatePass_snd, pass]

theorem separated_eq_self_iff {p : Piece} {tail : List Char} :
    p.separated (p.text ++ tail) = p ↔
      (p.isOpen = true → Grammar.statement.ReadsBack p.text p.byte tail) := by
  constructor
  · intro hsame hopen
    by_contra hread
    rw [separated_of_not_readsBack hopen hread] at hsame
    have hclosed := isOpen_enclosed p
    rw [hsame, hopen] at hclosed
    cases hclosed
  · intro hread
    cases hopen : p.isOpen with
    | false => exact separated_of_isOpen hopen _
    | true => exact separated_of_readsBack (hread hopen)

/-- **A check that changes nothing** finds every open piece where it is read back, and only such a check
changes nothing. -/
theorem pass_eq_self_iff {ps : List Piece} : pass ps = ps ↔ Apart ps := by
  induction ps with
  | nil => exact ⟨fun _ => trivial, fun _ => rfl⟩
  | cons p ps ih => rw [pass_cons, List.cons.injEq, separated_eq_self_iff, ih, Apart]

/-- A check that changes something closes a piece. -/
theorem openCount_pass_lt {ps : List Piece} (h : pass ps ≠ ps) : openCount (pass ps) < openCount ps :=
  (apart_or_openCount_lt ps).2.resolve_left (mt pass_eq_self_iff.mpr h)

/-! ## What may become of a piece -/

/-- `q` is the piece `p`, or `p` was open and `q` is its name or its number in brackets. -/
def Encloses (p q : Piece) : Prop := q = p ∨ p.isOpen = true ∧ q = p.enclosed

theorem Encloses.refl (p : Piece) : Encloses p p := .inl rfl

/-- A closed piece stays as it is. -/
theorem Encloses.trans {p q r : Piece} (h : Encloses p q) (h' : Encloses q r) : Encloses p r := by
  rcases h with hq | ⟨hopen, hq⟩
  · rw [hq] at h'
    exact h'
  · rw [hq] at h'
    rcases h' with hr | ⟨hopen', -⟩
    · exact .inr ⟨hopen, hr⟩
    · rw [isOpen_enclosed] at hopen'
      cases hopen'

theorem encloses_separated (p : Piece) (text : List Char) : Encloses p (p.separated text) := by
  rw [separated_eq]
  split
  · next h => exact .inr ⟨(Bool.and_eq_true_iff.mp h).1, rfl⟩
  · exact .refl p

theorem encloses_pass (ps : List Piece) : List.Forall₂ Encloses ps (pass ps) := by
  induction ps with
  | nil => exact .nil
  | cons p ps ih =>
    rw [pass_cons]
    exact .cons (encloses_separated p _) ih

/-- **Any number of checks.** What a check keeps, all checks in a row keep. -/
theorem encloses_iterate (n : Nat) (ps : List Piece) : List.Forall₂ Encloses ps (pass^[n] ps) := by
  induction n with
  | zero => exact List.forall₂_same.mpr fun p _ => .refl p
  | succ n ih =>
    rw [Function.iterate_succ_apply']
    exact forall₂_trans (R := Encloses) (fun _ _ _ => Encloses.trans) ih (encloses_pass _)

/-! ## The loop -/

/-- **The loop.** It goes through as many checks that change something as it takes until a check changes
nothing, and each of them closes a piece. -/
theorem separate_iterate (ps : List Piece) :
    ∃ n, separate ps = pass^[n] ps ∧ n + openCount (separate ps) ≤ openCount ps ∧
      pass (separate ps) = separate ps ∧ ∀ k < n, pass (pass^[k] ps) ≠ pass^[k] ps := by
  induction ps using separate_induction with
  | again ps hlt ih =>
    rw [separate_eq, if_pos hlt]
    obtain ⟨n, heq, hcount, hstable, hbefore⟩ := ih
    refine ⟨n + 1, heq, ?_, hstable, fun k hk hsame => ?_⟩
    · omega
    · cases k with
      | zero =>
        have hfirst : (separatePass ps).1 = ps := hsame
        rw [hfirst] at hlt
        exact Nat.lt_irrefl _ hlt
      | succ k => exact hbefore k (by omega) hsame
  | stop ps hstop =>
    rw [separate_eq, if_neg hstop]
    have hstable : pass ps = ps := by
      by_contra hne
      exact hstop (openCount_pass_lt hne)
    exact ⟨0, rfl, by omega, hstable, fun k hk => absurd hk (Nat.not_lt_zero k)⟩

/-! ## The final line -/

/-- Pieces that are apart are read at their places in the line: behind the text in front of an open piece,
the longest spelling is the piece, and its token is that of the piece. -/
theorem Apart.reads_at {front back : List Piece} {p : Piece} (h : Apart (front ++ p :: back))
    (hopen : p.isOpen = true) (first : List Char) :
    ∃ place, place = (first ++ join (front ++ p :: back) ++ ['\n']).drop (first ++ join front).length ∧
      Grammar.statement.width? place = some p.text.length ∧ place.take p.text.length = p.text ∧
        Grammar.statement.lookup p.text = .ok p.byte := by
  have hplace : (first ++ join (front ++ p :: back) ++ ['\n']).drop (first ++ join front).length =
      p.text ++ (join back ++ ['\n']) := by
    rw [join_append, join_cons, ← List.append_assoc, List.append_assoc, List.drop_left' rfl,
      List.append_assoc]
  obtain ⟨hwidth, hlookup⟩ := h.append_right.1 hopen
  exact ⟨_, hplace.symm, hwidth, List.take_left, hlookup⟩

theorem separateBehindFirst_eq (ps : List Piece) :
    separateBehindFirst ps = ps.take 1 ++ separate (ps.drop 1) := by
  cases ps with
  | nil =>
    rw [List.drop_nil, separate_eq]
    rfl
  | cons first rest => rfl

/-- **Keeping a line apart.** Take any pieces at all. The loop leaves the first piece alone and checks those behind
it: some checks that each change something and then one that changes nothing, so at most one check more than
there are open pieces. It changes no piece but by writing its name or its number in brackets. In the final line
with its line end, the reader finds each open piece behind the first at its place, with exactly its own text
and its own token. Where the pieces come from the tokens of a line with its numbers settled, no token that a
check looks up is missing. -/
theorem separation_settles (ps : List Piece) :
    (∃ final n, separateBehindFirst ps = ps.take 1 ++ final ∧ final = pass^[n] (ps.drop 1) ∧
      (∀ k < n, pass (pass^[k] (ps.drop 1)) ≠ pass^[k] (ps.drop 1)) ∧ pass final = final ∧
      n + 1 ≤ openCount (ps.drop 1) + 1 ∧ List.Forall₂ Encloses (ps.drop 1) final) ∧
    (∀ front p back, separateBehindFirst ps = front ++ p :: back → front ≠ [] → p.isOpen = true →
      ∃ place, place = (join (separateBehindFirst ps) ++ ['\n']).drop (join front).length ∧
        Grammar.statement.width? place = some p.text.length ∧ place.take p.text.length = p.text ∧
          Grammar.statement.lookup p.text = .ok p.byte) ∧
    ∀ bracketed tokens cut, scan bracketed tokens = .ok cut → ps = (resolveNumbers cut).1 →
      checkedSeparateBehindFirst ps = .ok (separateBehindFirst ps) := by
  obtain ⟨n, heq, hcount, hstable, hbefore⟩ := separate_iterate (ps.drop 1)
  refine ⟨⟨separate (ps.drop 1), n, separateBehindFirst_eq ps, heq, hbefore, hstable, by omega,
    heq ▸ encloses_iterate n _⟩, fun front p back hfinal hfront hopen => ?_,
    fun bracketed tokens cut hscan hps => ?_⟩
  · have hapart : Apart (separate (ps.drop 1)) := pass_eq_self_iff.mp hstable
    cases ps with
    | nil =>
      exact absurd (List.append_eq_nil_iff.mp hfinal.symm).1 hfront
    | cons first rest =>
      cases front with
      | nil => exact absurd rfl hfront
      | cons q front =>
        rw [separateBehindFirst_cons, List.cons_append, List.cons.injEq] at hfinal
        obtain ⟨rfl, hrest⟩ := hfinal
        rw [List.drop_succ_cons, List.drop_zero, hrest] at hapart
        rw [separateBehindFirst_cons, hrest, join_cons, join_cons]
        exact hapart.reads_at hopen first.text
  · have hshown : AllShown ps := by
      rw [hps]
      exact shown_resolveFrom (shown_scanFrom hscan (by simp [AllShown])) (by simp [AllShown])
    exact checkedSeparateBehindFirst_eq hshown

end TapeBasic.Piece
