import TapeBasic.Proofs.AsciiSpellings
import TapeBasic.Proofs.DirectiveBounds
import TapeBasic.Proofs.MemoryLayout
import TapeBasic.Proofs.ShownTexts

/-!
# What lies outside the program

The text of an image ends with comments that list the bytes outside its program. Every item in front of them
stays inside its line, and the comments are skipped, so a text with them comes to the same end as a text
without: the same bytes, or the same failure at the same place.

* `Cursor.Beside size tail`: two cursors at the same place of some lines, behind which one text goes on.

Results:
* `Cursor.Beside.skipGaps`: what is skipped between the items ends at the same place.
* `Assembly.run_beside`: the same is collected, with the same fault.
* `Source.encodeImage_outside`: what an image shows of the bytes outside its program makes no difference.
-/
namespace TapeBasic

open Text (isContained)

/-! ## Calm lines -/

namespace Text

/-- Only the exclamation mark itself is read like an exclamation mark. -/
theorem eq_mark_of_sameLetter {c : Char} (hc : isPrintable c = true) (h : sameLetter '!' c = true) :
    c = '!' := by
  have hfold : fold c = c.toLower := fold_of_isAscii (isAscii_of_isPrintable hc)
  rw [sameLetter_iff, hfold] at h
  exact forall_ascii (P := fun c => '!' = c.toLower → c = '!') (by decide) (isAscii_of_isPrintable hc) h

/-- No word is opened in a calm line, and no calm line ends in a backslash. -/
theorem isContained_of_isCalm {text : List Char} (h : isCalm text = true) : isContained text = true := by
  induction text with
  | nil => rfl
  | cons c rest ih =>
    have hline := lineEnd_not_mem_of_isCalm h
    have hprintable := isPrintable_of_isCalm h
    simp only [isCalm, Bool.and_eq_true] at h
    obtain ⟨⟨⟨-, hbracket⟩, hback⟩, hrest⟩ := h
    simp only [isContained, Bool.and_eq_true]
    refine ⟨⟨⟨?_, ?_⟩, hback⟩, ih hrest⟩
    · rw [bne_iff_ne]
      rintro rfl
      exact hline List.mem_cons_self
    · rw [Bool.or_eq_true] at hbracket ⊢
      refine hbracket.imp_right fun hnext => ?_
      cases rest with
      | nil => cases hnext
      | cons x rest =>
        have hx : x ≠ '!' := by simpa using hnext
        rw [Bool.not_eq_true', ← Bool.not_eq_true]
        exact fun hmark => hx (eq_mark_of_sameLetter (hprintable x (by simp)) hmark)

end Text

namespace Cursor

/-- Two cursors at the same place of contained lines, with another text behind the lines of the first. There
are at most `size` lines in all. -/
inductive Beside (size : Nat) (tail : List Char) : Cursor → Cursor → Prop where
  | inside {u : List Char} {lines : List (List Char)} (line column : Nat) : isContained u = true →
    (∀ l ∈ lines, isContained l = true) → line + lines.length < size →
    Beside size tail ⟨u ++ '\n' :: (lines.flatMap (· ++ ['\n']) ++ tail), ⟨line, column⟩⟩
      ⟨u ++ '\n' :: lines.flatMap (· ++ ['\n']), ⟨line, column⟩⟩
  | behind (line column : Nat) : line ≤ size →
    Beside size tail ⟨tail, ⟨line, column⟩⟩ ⟨[], ⟨line, column⟩⟩

variable {size : Nat} {tail : List Char}

/-- Cursors at the start of a line. -/
theorem beside_lines {lines : List (List Char)} (h : ∀ l ∈ lines, isContained l = true) {line : Nat}
    (hsize : line + lines.length ≤ size) (column : Nat) :
    Beside size tail ⟨lines.flatMap (· ++ ['\n']) ++ tail, ⟨line, column⟩⟩
      ⟨lines.flatMap (· ++ ['\n']), ⟨line, column⟩⟩ := by
  cases lines with
  | nil => exact .behind line column hsize
  | cons l lines =>
    rw [List.length_cons] at hsize
    obtain ⟨hl, hlines⟩ := List.forall_mem_cons.mp h
    have := @Beside.inside size tail l lines line column hl hlines (by omega)
    simpa using this

theorem advance_lineEnd (rest : List Char) (line column : Nat) :
    advance ⟨'\n' :: rest, ⟨line, column⟩⟩ 1 = ⟨rest, ⟨line + 1, 0⟩⟩ := rfl

/-- Neither a blank nor a comment stands in front, and a contained line is not continued. -/
theorem gapWidth_inLine {x : Char} {u : List Char} (hu : isContained (x :: u) = true)
    (hblank : Text.isBlank x = false) (hcomment : x = '#' → u.head? = some '!') (w : List Char) :
    gapWidth (x :: u ++ '\n' :: w) = 0 := by
  have hcount : Text.countWhile Text.isBlank (x :: u ++ '\n' :: w) = 0 := by
    simp [Text.countWhile, hblank]
  have hwidth : commentWidth (x :: u ++ '\n' :: w) = 0 := by
    by_cases hx : x = '#'
    · subst hx
      have hmark := hcomment rfl
      cases u with
      | nil => cases hmark
      | cons y u =>
        cases hmark
        rfl
    · simp [commentWidth, hx]
  rw [gapWidth, hcount, continuationWidth_inLine hu, hwidth]
  rfl

/-- **Between the items.** Both texts are read to their ends, or up to the same item of a line. -/
theorem Beside.skipGaps (hskips : Skips tail) {c c' : Cursor} (h : Beside size tail c c') :
    (c.skipGaps.rest = [] ∧ c'.skipGaps.rest = []) ∨
      ∃ (line : Nat) (lines : List (List Char)), (∀ l ∈ lines, isContained l = true) ∧
        line + lines.length < size ∧
        Alike line (lines.flatMap (· ++ ['\n']) ++ tail) (lines.flatMap (· ++ ['\n']))
          c.skipGaps c'.skipGaps := by
  have hnil : ∀ c : Cursor, c.rest = [] → c.skipGaps.rest = [] := fun c hc => by
    rw [skipGaps_of_gapWidth (by rw [hc]; rfl), hc]
  -- a step goes on at the same place of both texts
  induction hlength : c'.rest.length using Nat.strongRecOn generalizing c c' with
  | ind n ih =>
    cases h with
    | behind line column hline =>
      obtain ⟨c', hc', heq⟩ := hskips ⟨tail, ⟨line, column⟩⟩ [] (List.append_nil tail).symm
      rw [heq]
      exact .inl ⟨hnil c' hc', hnil _ rfl⟩
    | @inside u lines line column hu hlines hsize =>
      have hlineEnd := Text.lineEnd_not_mem hu
      have hnext : Beside size tail ⟨lines.flatMap (· ++ ['\n']) ++ tail, ⟨line + 1, 0⟩⟩
          ⟨lines.flatMap (· ++ ['\n']), ⟨line + 1, 0⟩⟩ := beside_lines hlines (by omega) 0
      cases u with
      | nil =>
        have hstep : ∀ w : List Char, Cursor.skipGaps ⟨'\n' :: w, ⟨line, column⟩⟩ =
            Cursor.skipGaps ⟨w, ⟨line + 1, 0⟩⟩ := fun w => skipGaps_blank rfl rfl
        rw [List.nil_append, List.nil_append, hstep, hstep]
        exact ih _ (by simp [← hlength]) hnext rfl
      | cons x u =>
        by_cases hblank : Text.isBlank x = true
        · have hstep : ∀ w : List Char, Cursor.skipGaps ⟨x :: u ++ '\n' :: w, ⟨line, column⟩⟩ =
              Cursor.skipGaps ⟨u ++ '\n' :: w, ⟨line, column + 1⟩⟩ := fun w => by
            rw [skipGaps_blank hblank rfl, advance_inLine hlineEnd (by simp)]
            rfl
          rw [hstep, hstep]
          exact ih _ (by simp [← hlength]) (.inside line (column + 1) (Text.isContained_tail hu) hlines hsize) rfl
        · rw [Bool.not_eq_true] at hblank
          by_cases hcomment : x = '#' ∧ u.head? ≠ some '!'
          · obtain ⟨rfl, hmark⟩ := hcomment
            have hinner : '\n' ∉ u := fun hmem => hlineEnd (List.mem_cons_of_mem _ hmem)
            have hstep : ∀ w : List Char, Cursor.skipGaps ⟨'#' :: u ++ '\n' :: w, ⟨line, column⟩⟩ =
                Cursor.skipGaps ⟨w, ⟨line + 1, 0⟩⟩ := by
              intro w
              rw [skipGaps_comment hinner hmark rfl, show u.length + 2 = (u.length + 1) + 1 from rfl,
                advance_add, advance_inLine hlineEnd (by simp)]
              simp [advance_lineEnd]
            rw [hstep, hstep]
            exact ih _ (by simp only [← hlength, List.length_append, List.length_cons]; omega) hnext rfl
          · rw [not_and, not_not] at hcomment
            rw [skipGaps_of_gapWidth (gapWidth_inLine hu hblank hcomment _),
              skipGaps_of_gapWidth (gapWidth_inLine hu hblank hcomment _)]
            exact .inr ⟨line, lines, hlines, hsize, .intro _ _ hu⟩

end Cursor

namespace Assembly

variable {files : FileReader} {filename : List Char} {size : Nat} {tail : List Char}

/-- The same collection and the same fault, which lies in the first `size` lines or just behind them. -/
structure SamePass (size : Nat) (x y : Pass) : Prop where
  assembly : x.assembly = y.assembly
  fault : x.fault = y.fault
  within : ∀ fault ∈ x.fault, ∀ n ∈ fault.line?, n ≤ size

/-- **Whole listings.** What is skipped behind the lines of a listing changes neither what is collected nor
the fault. -/
theorem run_beside (hskips : Cursor.Skips tail) {a : Assembly} {c c' : Cursor} {events events' : Journal}
    (h : Cursor.Beside size tail c c') (hpending : ∀ start ∈ a.pendingStart, start.2.line ≤ size) :
    SamePass size (run files filename a c events) (run files filename a c' events') := by
  induction hlength : c.rest.length using Nat.strongRecOn generalizing a c c' events events' with
  | ind n ih =>
    rw [run_eq, run_eq a c']
    rcases h.skipGaps hskips with ⟨hend, hend'⟩ | ⟨line, lines, hlines, hsize, halike⟩
    · rw [if_pos hend, if_pos hend']
      unfold finish
      have hsnippet : c.skipGaps.snippet = c'.skipGaps.snippet := by
        rw [Cursor.snippet, Cursor.snippet, hend, hend']
      cases hstart : a.pendingStart with
      | none => exact ⟨rfl, rfl, by rintro _ ⟨⟩⟩
      | some start =>
        dsimp only
        rw [Cursor.faultAt, Cursor.faultAt, hsnippet]
        refine ⟨rfl, rfl, ?_⟩
        rintro fault ⟨⟩ n ⟨⟩
        exact hpending start hstart
    · have hne : c.skipGaps.rest ≠ [] ∧ c'.skipGaps.rest ≠ [] := by
        generalize c.skipGaps = here at halike
        generalize c'.skipGaps = here' at halike
        cases halike
        simp
      rw [if_neg hne.1, if_neg hne.2]
      have hstep := @step_agree _ _ _ _ _ files filename a halike
      have hpending' : ∀ start ∈ (step files filename a c.skipGaps).assembly.pendingStart,
          start.2.line ≤ size := fun start hmem =>
        (hstep.pending start hmem).elim (hpending start) fun hline => by omega
      rcases hstep.next with ⟨fault, _, hnext, hnext', rfl, hfault⟩ | ⟨next, next', hnext, hnext', hbehind⟩
      · rw [hnext, hnext']
        refine ⟨hstep.assembly, rfl, ?_⟩
        rintro fault ⟨⟩ n hn
        have := hfault n hn
        omega
      · have hlt : next.rest.length < c.rest.length :=
          Nat.lt_of_lt_of_le (length_step_lt hne.1 hnext) c.length_skipGaps_le
        rw [hnext, hnext']
        dsimp only
        rw [← hstep.assembly]
        refine ih _ (hlength ▸ hlt) ?_ hpending' rfl
        cases hbehind with
        | intro u column hu => exact .inside line column hu hlines hsize

end Assembly

namespace Source

theorem length_lt_splitOn (lines : List (List Char)) :
    lines.length < ((lines.flatMap (· ++ ['\n'])).splitOn '\n').length := by
  induction lines with
  | nil => exact List.length_pos_iff.mpr (List.splitOn_ne_nil _ _)
  | cons line lines ih =>
    have hpos := List.length_pos_iff.mpr (List.splitOn_ne_nil '\n' line)
    rw [List.flatMap_cons, List.append_assoc, List.singleton_append, Text.splitOn_append_cons, List.length_append,
      List.length_cons]
    omega

/-- The lines of a text up to the end of its last line, whatever goes on behind. -/
theorem getElem?_splitOn {lines : List (List Char)} {n : Nat} (hn : n ≤ lines.length) (tail : List Char) :
    ((lines.flatMap (· ++ ['\n']) ++ '\n' :: tail).splitOn '\n')[n]? =
      ((lines.flatMap (· ++ ['\n'])).splitOn '\n')[n]? := by
  rw [Text.splitOn_append_cons,
    List.getElem?_append_left (Nat.lt_of_le_of_lt hn (length_lt_splitOn lines))]

/-- A listing that is made of lines is kept as it is. -/
theorem ofText_of_lined {filename text : List Char} (h : Text.Lined text) (hne : text ≠ []) :
    ofText filename text = ⟨filename, text⟩ := by
  have hfilter : text.filter (· != '\r') = text := by
    rw [List.filter_eq_self]
    intro c hc
    rw [bne_iff_ne]
    rintro rfl
    exact h.lineReturn_not_mem hc
  have hlast : text.getLast? = some '\n' := by
    obtain ⟨lines, rfl, -⟩ := h
    rcases List.eq_nil_or_concat lines with rfl | ⟨front, line, rfl⟩
    · exact absurd rfl hne
    · simp
  unfold ofText
  dsimp only
  rw [hfilter, hlast, if_pos (beq_self_eq_true _)]

/-- What is skipped behind the lines of a listing makes no difference to what it encodes as. -/
theorem encodeImage_of_skips (files : FileReader) {filename text tail : List Char} (h : Text.Lined text)
    (hskips : Cursor.Skips ('\n' :: tail)) :
    (encodeImage files ⟨filename, text ++ '\n' :: tail⟩).result =
      (encodeImage files ⟨filename, text⟩).result := by
  obtain ⟨lines, rfl, hcalm⟩ := h
  have hbeside := @Cursor.beside_lines lines.length ('\n' :: tail) lines
    (fun l hl => Text.isContained_of_isCalm (hcalm l hl)) 0 (Nat.le_of_eq (Nat.zero_add _)) 0
  obtain ⟨hassembly, hfault, hwithin⟩ := @Assembly.run_beside files filename _ _ hskips {} _ _ [] [] hbeside
    nofun
  have hfailure : ∀ fault : Fault, (∀ n ∈ fault.line?, n ≤ lines.length) →
      failure ⟨filename, lines.flatMap (· ++ ['\n']) ++ '\n' :: tail⟩ fault =
        failure ⟨filename, lines.flatMap (· ++ ['\n'])⟩ fault := by
    intro fault hline
    cases fault with
    | complaint what snippet place =>
      simp only [failure, line?, getElem?_splitOn (hline place.line rfl)]
    | unreadable path cause place =>
      simp only [failure, line?, getElem?_splitOn (hline place.line rfl)]
    | unknownSymbol => rfl
    | numeralTooLong => rfl
  unfold encodeImage collect
  dsimp only [Cursor.start]
  rw [← hassembly, ← hfault]
  cases hcase : (Assembly.run files filename {}
      ⟨lines.flatMap (· ++ ['\n']) ++ '\n' :: tail, ⟨0, 0⟩⟩ []).fault with
  | some fault =>
    dsimp only
    rw [hfailure fault (hwithin fault hcase)]
  | none =>
    dsimp only
    cases (Assembly.run files filename {}
      ⟨lines.flatMap (· ++ ['\n']) ++ '\n' :: tail, ⟨0, 0⟩⟩ []).assembly.image <;> rfl

end Source

/-! ## The bytes outside the program -/

namespace Image

/-- The comments about the bytes outside the program are skipped. -/
theorem skips_outsideText (i : Image) {entries : List Listing.Entry} (h : ∀ e ∈ entries, e.Calm) :
    ∃ tail, i.outsideText entries = '\n' :: tail ∧ Cursor.Skips ('\n' :: tail) := by
  obtain ⟨comments, heq, hcalm⟩ := i.exists_comments h
  refine ⟨_, heq, @Cursor.Skips.append ['\n'] _ (Cursor.skips_blank rfl) ?_⟩
  clear heq
  induction comments with
  | nil => exact Cursor.skips_nil
  | cons comment comments ih =>
    obtain ⟨hcomment, hcomments⟩ := List.forall_mem_cons.mp hcalm
    have hline : '\n' ∉ ' ' :: comment :=
      List.not_mem_cons_of_ne_of_not_mem (by decide) (Text.lineEnd_not_mem_of_isCalm hcomment)
    exact (Cursor.skips_comment hline (by simp)).append (ih hcomments)

/-- An image with bytes outside its program has a directive or a note about the line to run next. -/
theorem header_ne_nil (style : Style) {i : Image} (h : i.outside.isEmpty = false) : i.header style ≠ [] := by
  have hbehind : ¬i.nextLineAddress ≤ i.displayAddress := by
    intro hle
    rw [outside, if_pos hle] at h
    cases h
  have hstart : i.startDirective ≠ [] := by
    unfold startDirective
    rw [if_neg (by rw [beq_iff_eq]; omega)]
    split
    · simp
    · rw [List.append_assoc]
      exact List.append_ne_nil_of_left_ne_nil (by decide) _
  have hkept : i.startDirective.isEmpty = false := by simpa using hstart
  unfold header
  dsimp only
  rw [List.filter_cons_of_pos (by rw [hkept]; rfl), List.flatMap_cons]
  simp

end Image

namespace Source

/-- **The bytes outside the program.** For every image that is long enough to be split, in every style: its
text, with the comments about the bytes outside its program, encodes as its directives and its program alone
do. Both give the same bytes or both fail alike, with the same message about the same place. -/
theorem encodeImage_outside (files : FileReader) (filename : List Char) (style : Image.Style)
    {data : List UInt8} (h : SystemVariables.blockSize ≤ data.length) :
    ∃ i, Image.split data = .ok i ∧
      (encodeImage files (ofText filename (i.text style))).result =
        (encodeImage files
          (ofText filename (i.header style ++ Listing.programText style.bracketed i.program))).result := by
  obtain ⟨i, hsplit⟩ := Image.exists_split h
  refine ⟨i, hsplit, ?_⟩
  rw [Image.text_eq]
  cases houtside : i.outside.isEmpty with
  | true => rw [if_pos rfl, List.append_nil]
  | false =>
    obtain ⟨tail, htail, hskips⟩ :=
      i.skips_outsideText (Listing.calm_ofProgram style.bracketed i.outside)
    have hlined := (i.lined_header style).append (Listing.lined_programText style.bracketed i.program)
    have hwhole := i.lined_text style
    rw [Image.text_eq, houtside, if_neg Bool.false_ne_true, htail, ← List.append_assoc] at hwhole
    have hne := List.append_ne_nil_of_left_ne_nil (Image.header_ne_nil style houtside)
      (Listing.programText style.bracketed i.program)
    rw [if_neg Bool.false_ne_true, htail, ← List.append_assoc, ofText_of_lined hlined hne,
      ofText_of_lined hwhole (List.append_ne_nil_of_left_ne_nil hne _)]
    exact encodeImage_of_skips files hlined hskips

/-- An image with no program, an empty screen and no variables, and with a line behind them at which the machine
goes on. -/
def outsideSample : List UInt8 :=
  [0, 0, 0, 0x7D, 0x40, 0, 0, 0x7E, 0x40, 0, 0, 0x7F, 0x40] ++ List.replicate 19 0 ++ [0x7F, 0x40] ++
    List.replicate 82 0 ++ [0x76, 0x80] ++ [0x00, 0x0A, 0x02, 0x00, 0xF5, 0x76]

theorem encodeImage_outside_sample :
    SystemVariables.blockSize ≤ outsideSample.length ∧
      ∃ i, Image.split outsideSample = .ok i ∧ i.outside = [0x00, 0x0A, 0x02, 0x00, 0xF5, 0x76] ∧
        (encodeImage (fun _ => .error []) (ofText defaultName (i.text {}))).result =
          (encodeImage (fun _ => .error [])
            (ofText defaultName (i.header {} ++ Listing.programText false i.program))).result := by
  have hlength : SystemVariables.blockSize ≤ outsideSample.length := by decide +kernel
  have houtside : (Image.split outsideSample).map Image.outside =
      .ok [0x00, 0x0A, 0x02, 0x00, 0xF5, 0x76] := by decide +kernel
  obtain ⟨i, hsplit, hencode⟩ := encodeImage_outside (fun _ => .error []) defaultName {} hlength
  rw [hsplit] at houtside
  exact ⟨hlength, i, hsplit, Except.ok.inj houtside, hencode⟩

end Source

end TapeBasic
