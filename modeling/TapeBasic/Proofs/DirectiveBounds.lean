import TapeBasic.Proofs.LineBounds

/-!
# Items stay inside their text

Like a line, a directive is read inside its text: what it says, the fault that it comes to and the place where the
reading goes on do not depend on the text behind it. So one item of a listing, be it a directive or a line, does the
same in front of any further text.

Results:
* `Pairing.SharesText.readsDirectives`: two readings in front of the same shut texts keep in step over directives.
* `Assembly.step_agree`: an item of a contained line.
-/
namespace TapeBasic

open Text (isContained)

namespace Directive

/-! ## Numbers and names -/

theorem marked?_inLine (u v : List Char) :
    marked? (u ++ '\n' :: v) = marked? u ∧ ∀ x ∈ marked? u, x.2 ≤ u.length := by
  have hdigits : ∀ mark ≤ u.length, ((u ++ '\n' :: v).drop mark).takeWhile Text.isHexDigit =
      (u.drop mark).takeWhile Text.isHexDigit := fun mark hmark => by
    rw [Text.drop_lineEnd hmark, Text.takeWhile_lineEnd rfl]
  have hwithin : ∀ mark ≤ u.length, mark + ((u.drop mark).takeWhile Text.isHexDigit).length ≤ u.length := by
    intro mark hmark
    have := (List.takeWhile_prefix Text.isHexDigit (l := u.drop mark)).length_le
    rw [List.length_drop] at this
    omega
  have hfound : ∀ mark ≤ u.length, ∀ x ∈ (if ((u.drop mark).takeWhile Text.isHexDigit).isEmpty then none
      else some (Text.hexDigitsValue ((u.drop mark).takeWhile Text.isHexDigit),
        mark + ((u.drop mark).takeWhile Text.isHexDigit).length)), x.2 ≤ u.length := by
    intro mark hmark x hx
    split at hx
    · cases hx
    · cases hx
      exact hwithin mark hmark
  unfold marked?
  dsimp only
  cases u with
  | nil => exact ⟨rfl, nofun⟩
  | cons a u =>
    by_cases hdollar : a = '$'
    · subst hdollar
      have := hdigits 1 (by simp)
      simp only [List.cons_append] at this ⊢
      rw [this]
      exact ⟨rfl, hfound 1 (by simp)⟩
    · by_cases hzero : a = '0'
      · subst hzero
        cases u with
        | nil => exact ⟨rfl, nofun⟩
        | cons x u =>
          have := hdigits 2 (by simp)
          simp only [List.cons_append] at this ⊢
          rw [this]
          refine ⟨rfl, fun y hy => ?_⟩
          split at hy
          · exact hfound 2 (by simp) y hy
          · cases hy
      · simp [hdollar, hzero]

theorem nameWidth_inLine (u v : List Char) :
    nameWidth (u ++ '\n' :: v) = nameWidth u ∧ nameWidth u ≤ u.length := by
  have hhead : (u ++ '\n' :: v).head?.any (fun x => Text.isLatinLetter x || x == '_') =
      u.head?.any fun x => Text.isLatinLetter x || x == '_' := by
    cases u with
    | nil => exact (by decide : (Text.isLatinLetter '\n' || '\n' == '_') = false)
    | cons x u => rfl
  unfold nameWidth
  rw [hhead, Text.countWhile_lineEnd (by decide), Text.countWhile_lineEnd rfl]
  exact ⟨rfl, by split <;> exact Text.countWhile_le _ u⟩

theorem equalsWidth_inLine (u v : List Char) :
    equalsWidth (u ++ '\n' :: v) = equalsWidth u ∧ equalsWidth u ≤ u.length := by
  have hfront := Text.countWhile_le Text.isSpacing u
  unfold equalsWidth
  dsimp only
  rw [Text.countWhile_lineEnd rfl, Text.drop_lineEnd hfront]
  have hlength : (u.drop (Text.countWhile Text.isSpacing u)).length =
    u.length - Text.countWhile Text.isSpacing u := List.length_drop
  cases hbehind : u.drop (Text.countWhile Text.isSpacing u) with
  | nil => exact ⟨rfl, Nat.zero_le _⟩
  | cons x rest =>
    rw [hbehind, List.length_cons] at hlength
    have hrest := Text.countWhile_le Text.isSpacing rest
    by_cases hx : x = '='
    · subst hx
      simp only [List.cons_append, Text.countWhile_lineEnd (p := Text.isSpacing) rfl, true_and]
      omega
    · simp [hx]

/-! ## Keywords -/

/-- A character at which every keyword ends that is known: no spacing, no equals sign, no part of a word and no letter
of a keyword. -/
def isStop (stop : Char) : Bool :=
  !Text.isSpacing stop && stop != '=' && !Text.isWordCharacter stop &&
    ["basic-start", "dfile-collapsed", "dfile:", "basic-vars:", "system-vars:"].all fun word =>
      word.toList.all fun a => !Text.sameLetter a stop

theorem isStop_lineEnd : isStop '\n' = true := by decide

section Stop

variable {stop : Char} (hstop : isStop stop = true)

include hstop

theorem stop_facts : Text.isSpacing stop = false ∧ stop ≠ '=' ∧ Text.isWordCharacter stop = false ∧
    ∀ word ∈ ["basic-start", "dfile-collapsed", "dfile:", "basic-vars:", "system-vars:"],
      ∀ a ∈ word.toList, Text.sameLetter a stop = false := by
  simpa only [isStop, Bool.and_eq_true, Bool.not_eq_true', bne_iff_ne, List.all_eq_true, and_assoc] using hstop

theorem startWidth?_stop (u v : List Char) :
    startWidth? (u ++ stop :: v) = startWidth? u ∧ ∀ x ∈ startWidth? u, x.1 ≤ u.length := by
  obtain ⟨hspacing, hsign, -, hwords⟩ := stop_facts hstop
  unfold startWidth?
  dsimp only
  rw [Text.startsWithLetters_stop u v (hwords "basic-start" (by simp))]
  split
  · next hword =>
    have hle := Text.length_le_of_startsWithLetters hword
    rw [List.drop_append_of_le_length hle]
    have hlength : (u.drop "basic-start".toList.length).length = u.length - "basic-start".toList.length :=
      List.length_drop
    generalize u.drop "basic-start".toList.length = behind at hlength
    generalize "basic-start".toList.length = width at hle hlength
    have hfront := Text.countWhile_le Text.isSpacing behind
    rw [Text.countWhile_stop hspacing, List.drop_append_of_le_length hfront]
    have hlength' : (behind.drop (Text.countWhile Text.isSpacing behind)).length =
      behind.length - Text.countWhile Text.isSpacing behind := List.length_drop
    cases hbehind : behind.drop (Text.countWhile Text.isSpacing behind) with
    | nil =>
      refine ⟨by simp [hsign], ?_⟩
      rintro x ⟨⟩
      dsimp only
      omega
    | cons y rest =>
      rw [hbehind, List.length_cons] at hlength'
      have hrest := Text.countWhile_le Text.isSpacing rest
      by_cases hy : y = '='
      · subst hy
        simp only [List.cons_append, Text.countWhile_stop hspacing, true_and]
        rintro x ⟨⟩
        dsimp only
        omega
      · simp [hy]
        omega
  · exact ⟨rfl, nofun⟩

theorem colonWidth?_stop {word : List Char} (hword : ∀ a ∈ word, Text.sameLetter a stop = false)
    (takesSpacing : Bool) (u v : List Char) :
    colonWidth? word takesSpacing (u ++ stop :: v) = colonWidth? word takesSpacing u ∧
      ∀ width ∈ colonWidth? word takesSpacing u, width ≤ u.length := by
  obtain ⟨hspacing, -, -, -⟩ := stop_facts hstop
  unfold colonWidth?
  dsimp only
  rw [Text.startsWithLetters_stop u v hword]
  split
  · next hstarts =>
    have hle := Text.length_le_of_startsWithLetters hstarts
    have hcount := Text.countWhile_le Text.isSpacing (u.drop word.length)
    rw [List.length_drop] at hcount
    rw [List.drop_append_of_le_length hle, Text.countWhile_stop hspacing]
    refine ⟨rfl, ?_⟩
    rintro width ⟨⟩
    split <;> omega
  · exact ⟨rfl, nofun⟩

theorem collapseWidth?_stop (u v : List Char) :
    collapseWidth? (u ++ stop :: v) = collapseWidth? u ∧ ∀ width ∈ collapseWidth? u, width ≤ u.length := by
  obtain ⟨-, -, hpart, hwords⟩ := stop_facts hstop
  unfold collapseWidth?
  dsimp only
  rw [Text.startsWithLetters_stop u v (hwords "dfile-collapsed" (by simp))]
  cases hword : Text.startsWithLetters "dfile-collapsed".toList u with
  | false => exact ⟨rfl, nofun⟩
  | true =>
    have hle := Text.length_le_of_startsWithLetters hword
    rw [List.drop_append_of_le_length hle]
    have hnext : ∀ behind : List Char, (behind ++ stop :: v).head?.any Text.isWordCharacter =
        behind.head?.any Text.isWordCharacter := fun behind => by
      cases behind with
      | nil => exact hpart
      | cons x behind => rfl
    rw [hnext]
    refine ⟨rfl, fun width hwidth => ?_⟩
    split at hwidth
    · cases hwidth
      exact hle
    · cases hwidth

omit hstop in
/-- Either of two lengths that are measured in the text itself. -/
theorem orElse_stop {x x' y y' : Option Nat} {n : Nat} (hx : x' = x ∧ ∀ width ∈ x, width ≤ n)
    (hy : y' = y ∧ ∀ width ∈ y, width ≤ n) :
    (x' <|> y') = (x <|> y) ∧ ∀ width ∈ (x <|> y), width ≤ n := by
  obtain ⟨rfl, hx⟩ := hx
  obtain ⟨rfl, hy⟩ := hy
  refine ⟨rfl, ?_⟩
  cases x' with
  | none => exact hy
  | some width => exact hx

/-- The length of a known keyword other than the one for the line to start with. -/
theorem known_stop (u v : List Char) :
    (collapseWidth? (u ++ stop :: v) <|> colonWidth? "dfile:".toList false (u ++ stop :: v) <|>
        colonWidth? "basic-vars:".toList true (u ++ stop :: v) <|>
          colonWidth? "system-vars:".toList true (u ++ stop :: v)) =
      (collapseWidth? u <|> colonWidth? "dfile:".toList false u <|> colonWidth? "basic-vars:".toList true u <|>
        colonWidth? "system-vars:".toList true u) ∧
    ∀ width ∈ (collapseWidth? u <|> colonWidth? "dfile:".toList false u <|>
      colonWidth? "basic-vars:".toList true u <|>
      colonWidth? "system-vars:".toList true u), width ≤ u.length := by
  obtain ⟨-, -, -, hwords⟩ := stop_facts hstop
  exact orElse_stop (collapseWidth?_stop hstop u v)
    (orElse_stop (colonWidth?_stop hstop (hwords "dfile:" (by simp)) false u v)
      (orElse_stop (colonWidth?_stop hstop (hwords "basic-vars:" (by simp)) true u v)
        (colonWidth?_stop hstop (hwords "system-vars:" (by simp)) true u v)))

/-- The start of a directive ends in front of such a character, or an unknown keyword reaches beyond it. -/
theorem head_stop {u : List Char} (hu : 2 ≤ u.length) :
    ((∀ v, head (u ++ stop :: v) = head u) ∧ (head u).width ≤ u.length) ∨
      stop ≠ '\n' ∧ ∀ v, u.length < (head (u ++ stop :: v)).width := by
  obtain ⟨hblank, -, -, -⟩ := stop_facts hstop
  have hspacing := Text.countWhile_le Text.isSpacing (u.drop 2)
  rw [List.length_drop] at hspacing
  have hindent : 2 + Text.countWhile Text.isSpacing (u.drop 2) ≤ u.length := by omega
  have hcount : ∀ v, Text.countWhile Text.isSpacing ((u ++ stop :: v).drop 2) =
      Text.countWhile Text.isSpacing (u.drop 2) := fun v => by
    rw [List.drop_append_of_le_length hu, Text.countWhile_stop hblank]
  have hlength : (u.drop (2 + Text.countWhile Text.isSpacing (u.drop 2))).length =
      u.length - (2 + Text.countWhile Text.isSpacing (u.drop 2)) := List.length_drop
  unfold head Head.width
  simp only [hcount, List.drop_append_of_le_length hindent]
  generalize u.drop (2 + Text.countWhile Text.isSpacing (u.drop 2)) = behind at hlength ⊢
  have hstart := startWidth?_stop hstop behind
  have hknown := known_stop hstop behind
  simp only [fun v => (hstart v).1, fun v => (hknown v).1]
  cases hfound : startWidth? behind with
  | some x =>
    have hle := (hstart []).2 x hfound
    refine .inl ⟨fun v => by dsimp only; rw [List.take_append_of_le_length hle], ?_⟩
    dsimp only
    rw [List.length_take_of_le hle]
    omega
  | none =>
    have hwithin := (hknown []).2
    dsimp only
    generalize (collapseWidth? behind <|> colonWidth? "dfile:".toList false behind <|>
      colonWidth? "basic-vars:".toList true behind <|> colonWidth? "system-vars:".toList true behind) = known
      at hwithin ⊢
    cases known with
    | some width =>
      have hle := hwithin width rfl
      simp only [Option.getD_some]
      refine .inl ⟨fun v => by rw [List.take_append_of_le_length hle], ?_⟩
      rw [List.length_take_of_le hle]
      omega
    | none =>
      -- the rest of the line is the keyword, and the character may belong to it
      simp only [Option.getD_none]
      rcases Text.countWhile_stop_or_lt (p := (· != '\n')) stop behind with hsame | ⟨hne, hlt⟩
      · have hle := Text.countWhile_le (· != '\n') behind
        refine .inl ⟨fun v => by rw [hsame, List.take_append_of_le_length hle], ?_⟩
        rw [List.length_take_of_le hle]
        omega
      · refine .inr ⟨by simpa using hne, fun v => ?_⟩
        have hlt := hlt v
        rw [List.length_take_of_le (Text.countWhile_le _ _)]
        omega

end Stop

theorem head_inLine {u : List Char} (hu : 2 ≤ u.length) (v : List Char) :
    head (u ++ '\n' :: v) = head u ∧ (head u).width ≤ u.length := by
  obtain ⟨hsame, hwidth⟩ := (head_stop isStop_lineEnd hu).resolve_right fun h => h.1 rfl
  exact ⟨hsame v, hwidth⟩

end Directive

theorem Assembly.startsDirective_inLine (u v : List Char) : startsDirective (u ++ '\n' :: v) = startsDirective u := by
  rcases u with _ | ⟨x, _ | ⟨y, u⟩⟩
  · rfl
  · by_cases hx : x = '#'
    · subst hx
      rfl
    · simp [startsDirective, hx]
  · by_cases hx : x = '#'
    · subst hx
      by_cases hy : y = '!'
      · subst hy
        rfl
      · simp [startsDirective, hy]
    · simp [startsDirective, hx]

theorem Assembly.two_le_of_startsDirective {u : List Char} (h : startsDirective u = true) : 2 ≤ u.length := by
  obtain ⟨rest, rfl⟩ := startsDirective_iff.mp h
  simp

namespace Pairing.SharesText

variable {p : Pairing} (h : p.SharesText)

include h

/-- **Directives.** Two readings in front of the same shut texts keep in step over directives, too. -/
theorem readsDirectives (files : FileReader) (filename : List Char) : p.ReadsDirectives files filename where
  toReadsPieces := h.readsPieces files filename
  next hc := (h.peek hc).2
  starts {c d} hc := by
    obtain ⟨u, w, w', hshare, -⟩ := h.share hc
    obtain ⟨hx, hy⟩ := hshare.measure (Assembly.startsDirective_inLine u)
    exact hy.trans hx.symm
  head {c d} hc hstart := by
    obtain ⟨u, w, w', hshare, hadvance⟩ := h.share hc
    rw [(hshare.measure (Assembly.startsDirective_inLine u)).1] at hstart
    have hu := Assembly.two_le_of_startsDirective hstart
    obtain ⟨hx, hy⟩ := hshare.measure fun v => (Directive.head_inLine hu v).1
    have hle := (Directive.head_inLine hu []).2
    rw [hx, hy]
    exact ⟨rfl, rfl, hadvance _ (Nat.le_trans (Nat.le_add_right _ _) hle), hadvance _ hle⟩
  marked hc := h.measure? (g := Prod.snd) (fun _ v => Directive.marked?_inLine _ v) hc
  nameWidth := h.sees fun _ => Directive.nameWidth_inLine _
  equalsWidth := h.sees fun _ => Directive.equalsWidth_inLine _
  variableName {c d} hc := by
    have hname := h.measure (f := fun text => text.take (Directive.nameWidth text)) (g := List.length)
      (fun {u} _ v => by
        obtain ⟨hwidth, hle⟩ := Directive.nameWidth_inLine u v
        rw [hwidth, Text.take_lineEnd hle]
        exact ⟨rfl, List.length_take_le' _ _⟩) hc
    rw [(h.sees (fun _ => Directive.nameWidth_inLine _) hc).1] at hname
    rw [hname.1]
    exact h.name _

end Pairing.SharesText

/-! ## Items of contained lines -/

/-- **Items.** Two readings of the same contained line keep in step. -/
theorem sameLine_readsItems (line : Nat) (v v' : List Char) (files : FileReader) (filename : List Char) :
    (sameLine line v v').ReadsItems files filename where
  toReadsDirectives := (sharesText_sameLine line v v').readsDirectives files filename
  samePlace hs := hs.1
  assign {c d name name' s t} a setting hc hname hs := by
    obtain rfl := hname
    obtain rfl := hs.1
    unfold Assembly.assign
    cases a.system.set (.name name) setting with
    | error failure =>
      exact matches_error (((sharesText_sameLine line v v').readsPieces files filename).refusal failure hc hs)
    | ok system => exact matches_ok ⟨rfl, trivial⟩

namespace Assembly

variable {line : Nat} {v v' : List Char} {c c' : Cursor}

/-- Where a directive names the line to start with, it does so in its own line. -/
theorem pendingStart_obey {a a' : Assembly} {place : Position} {directive : Directive} {noted : Journal}
    (h : a.obey place c directive = .ok (a', noted)) :
    ∀ start ∈ a'.pendingStart, start ∈ a.pendingStart ∨ start.2 = place := by
  intro start hstart
  cases obey_eq_ok_iff.mp h with
  | start =>
    cases hstart
    exact .inr rfl
  | _ => exact .inl hstart

/-- A place that an item notes for the line to start with is its own. -/
theorem pendingStart_step {files : FileReader} {filename : List Char} {a : Assembly} {c : Cursor} :
    ∀ start ∈ (step files filename a c).assembly.pendingStart,
      start ∈ a.pendingStart ∨ start.2 = c.position := by
  intro start hmem
  unfold step at hmem
  split at hmem
  · unfold stepDirective at hmem
    dsimp only at hmem
    split at hmem
    · exact .inl hmem
    · split at hmem
      · exact .inl hmem
      · next hobey => exact pendingStart_obey hobey start hmem
  · unfold stepLine at hmem
    dsimp only at hmem
    split at hmem
    · exact .inl hmem
    · unfold addRecord at hmem
      dsimp only at hmem
      split at hmem
      · cases hmem
      · exact .inl hmem

/-- The same collection, and cursors at the same place of the line or the same fault in it. -/
structure SameStep (line : Nat) (v v' : List Char) (a : Assembly) (x y : Step) : Prop where
  assembly : x.assembly = y.assembly
  next : Matches (sameLine line v v').Faults (Cursor.Alike line v v') x.next y.next
  pending : ∀ start ∈ x.assembly.pendingStart, start ∈ a.pendingStart ∨ start.2.line = line

/-- **Items.** What an item does, and where it ends, does not depend on the text behind its line. -/
theorem step_agree {files : FileReader} {filename : List Char} {a : Assembly}
    (h : Cursor.Alike line v v' c c') :
    SameStep line v v' a (step files filename a c) (step files filename a c') := by
  have hstep := (sameLine_readsItems line v v' files filename).step (a := a) h
  refine ⟨hstep.assembly, hstep.next, fun start hmem => ?_⟩
  exact (pendingStart_step start hmem).imp_right fun hplace => (congrArg Position.line hplace).trans h.line_eq

end Assembly

end TapeBasic
