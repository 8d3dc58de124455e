import TapeBasic.Proofs.OutsideListing
import TapeBasic.Proofs.PlainLines

/-!
# Plain listings

A listing in ASCII without brackets and continuations is read line by line: blank lines, comments and directives
add nothing to the program, and every other line adds a record, which is listed as the line itself, tidied up.

* `Source.programLines lines`: the lines that are part of the program.
* `Source.hasContinuation text`: a line of the text is continued.

Results:
* `Assembly.step_plain`: a line adds its record, and a directive none.
* `Assembly.run_plain`: the records of a plain listing are listed as its program lines.
* `Source.encodeProgram_plain`: the program of a plain listing is listed as its program lines, tidied up.
* `Source.encodeProgram_open_end`: a backslash that ends the whole text counts as a continuation.
-/
namespace TapeBasic

open Text (isAscii isBlank PlainLine)

namespace Source

/-- Whether a line without blanks in front is part of the program: it is neither empty nor a comment nor a
directive. -/
def isProgramLine (line : List Char) : Bool := line.head?.any (· != '#')

/-- The lines that are part of the program, without the blanks in front of them. -/
def programLines (lines : List (List Char)) : List (List Char) :=
  (lines.map (List.dropWhile isBlank)).filter isProgramLine

/-- Whether a line of the text is continued: it ends with a backslash that only spacing divides from its line
end. -/
def hasContinuation : List Char → Bool
  | [] => false
  | c :: rest => Cursor.continuationWidth (c :: rest) != 0 || hasContinuation rest

end Source

/-! ## Plain lines of a text -/

namespace Text

/-- A line of a text without brackets and continuations is contained. -/
theorem isContained_of_tails {line more : List Char} (hline : '\n' ∉ line) (hbracket : '[' ∉ line)
    (h : Source.hasContinuation (line ++ '\n' :: more) = false) : isContained line = true := by
  induction line with
  | nil => rfl
  | cons c rest ih =>
    rw [List.mem_cons, not_or] at hline hbracket
    rw [List.cons_append, Source.hasContinuation, Bool.or_eq_false_iff] at h
    obtain ⟨hwidth, hrest⟩ := h
    have hback : c = '\\' → rest.all isSpacing = false := by
      rintro rfl
      by_contra hall
      rw [Bool.not_eq_false] at hall
      have hcount : countWhile isSpacing (rest ++ '\n' :: more) = rest.length := by
        rw [countWhile_lineEnd rfl, countWhile, ← List.append_nil rest,
          List.takeWhile_append_of_pos (List.all_eq_true.mp hall)]
        simp
      simp [Cursor.continuationWidth, hcount] at hwidth
    simp only [isContained, Bool.and_eq_true, Bool.or_eq_true, Bool.not_eq_true', bne_iff_ne, ne_eq]
    refine ⟨⟨⟨Ne.symm hline.1, .inl (Ne.symm hbracket.1)⟩, ?_⟩, ih hline.2 hbracket.2 hrest⟩
    by_cases hc : c = '\\'
    · exact .inr (hback hc)
    · exact .inl hc

theorem hasContinuation_append (front : List Char) {text : List Char}
    (h : Source.hasContinuation (front ++ text) = false) : Source.hasContinuation text = false := by
  induction front with
  | nil => exact h
  | cons c front ih =>
    rw [List.cons_append, Source.hasContinuation, Bool.or_eq_false_iff] at h
    exact ih h.2

/-- A text that ends with a line end is made of lines. -/
theorem exists_lines {text : List Char} (h : ∀ c ∈ text.getLast?, c = '\n') :
    ∃ lines : List (List Char), text = lines.flatMap (· ++ ['\n']) ∧ ∀ line ∈ lines, '\n' ∉ line := by
  induction text with
  | nil => exact ⟨[], rfl, nofun⟩
  | cons c text ih =>
    cases text with
    | nil =>
      obtain rfl := h c rfl
      exact ⟨[[]], rfl, by simp⟩
    | cons x text =>
      obtain ⟨lines, hlines, hmem⟩ := ih (by rwa [List.getLast?_cons_cons] at h)
      by_cases hc : c = '\n'
      · subst hc
        exact ⟨[] :: lines, by rw [hlines]; rfl, List.forall_mem_cons.mpr ⟨List.not_mem_nil, hmem⟩⟩
      · cases lines with
        | nil => cases hlines
        | cons line lines =>
          obtain ⟨hline, hrest⟩ := List.forall_mem_cons.mp hmem
          refine ⟨(c :: line) :: lines, by rw [hlines]; rfl, List.forall_mem_cons.mpr ⟨?_, hrest⟩⟩
          exact List.not_mem_cons_of_ne_of_not_mem (Ne.symm hc) hline

/-- The lines of a plain text are plain. -/
theorem plainLine_of_mem {lines : List (List Char)} (hline : ∀ line ∈ lines, '\n' ∉ line)
    (hascii : ∀ c ∈ lines.flatMap (· ++ ['\n']), isAscii c = true)
    (hbracket : '[' ∉ lines.flatMap (· ++ ['\n']))
    (hcontinued : Source.hasContinuation (lines.flatMap (· ++ ['\n'])) = false) :
    ∀ line ∈ lines, PlainLine line := by
  induction lines with
  | nil => exact nofun
  | cons line lines ih =>
    obtain ⟨hown, hrest⟩ := List.forall_mem_cons.mp hline
    rw [List.flatMap_cons] at hascii hbracket hcontinued
    obtain ⟨hasciiLine, hasciiRest⟩ := List.forall_mem_append.mp hascii
    rw [List.mem_append, not_or] at hbracket
    refine List.forall_mem_cons.mpr ⟨⟨?_, fun c hc => hasciiLine c (List.mem_append_left _ hc), ?_⟩,
      ih hrest hasciiRest hbracket.2 (hasContinuation_append _ hcontinued)⟩
    · rw [List.append_assoc, List.singleton_append] at hcontinued
      exact isContained_of_tails hown (fun hmem => hbracket.1 (List.mem_append_left _ hmem)) hcontinued
    · exact fun hmem => hbracket.1 (List.mem_append_left _ hmem)

end Text

/-- A plain line tidied up has no bracket. -/
theorem Line.SameCharacters.bracket_not_mem {line shown : List Char} (h : SameCharacters line shown)
    (hline : PlainLine line) : '[' ∉ shown := by
  obtain ⟨front, tail, hsplit, -, rfl⟩ := h
  obtain ⟨hascii, hbracket⟩ := ((hline.dropWhile Text.isDecimal).dropWhile Text.isSpacing).lineEnd
  change ∀ c ∈ behindNumber line, isAscii c = true at hascii
  change '[' ∉ behindNumber line at hbracket
  rw [hsplit] at hascii hbracket
  intro hmem
  rcases List.mem_append.mp hmem with hmem | hmem
  · exact absurd (Text.isDigit_of_mem_decimal hmem) (by decide)
  · rcases List.mem_cons.mp hmem with hmem | hmem
    · exact absurd hmem (by decide)
    · obtain ⟨c, hc, hlooked⟩ := List.mem_map.mp hmem
      have hfront := List.mem_append_left tail hc
      exact hbracket (Text.lookedUp_eq_bracket (hascii c hfront) hlooked ▸ hfront)

/-! ## One item -/

/-- Where a contained line ends, its line end is left, and the text behind it. -/
theorem Cursor.Alike.rest_of_peek {line : Nat} {v v' : List Char} {c c' : Cursor} (h : Alike line v v' c c')
    (hpeek : c.peek = '\n') : c.rest = '\n' :: v := by
  obtain ⟨u, column, hu⟩ := h
  cases u with
  | nil => rfl
  | cons x u =>
    obtain rfl : x = '\n' := hpeek
    exact absurd List.mem_cons_self (Text.lineEnd_not_mem hu)

namespace Assembly

variable {files : FileReader} {filename : List Char} {a : Assembly} {c next : Cursor} {more : List Char}

/-- The listing of records. -/
def listing (records : List LineRecord) : List Char :=
  Listing.text (records.map fun r => Listing.entry false r.number r.payload)

theorem listing_append (records others : List LineRecord) :
    listing (records ++ others) = listing records ++ listing others := by
  rw [listing, List.map_append]
  exact List.flatMap_append

/-- No directive adds a record. -/
theorem Obeys.records_eq {b : Assembly} {place : Position} {directive : Directive} {events : Journal}
    (h : a.Obeys place directive b events) : b.records = a.records := by
  cases h <;> rfl

/-- A directive is read up to the end of its line. -/
theorem stepDirective_plain {line : List Char} (hc : c.rest = line ++ '\n' :: more)
    (hline : Text.isContained line = true) (hstart : startsDirective c.rest = true)
    (h : (step files filename a c).next = .ok next) :
    next.rest = '\n' :: more ∧ (step files filename a c).assembly.records = a.records := by
  have halike := (@step_agree _ _ _ _ _ files filename a (Cursor.alike_self hc hline)).next
  rw [h] at halike
  rcases halike with ⟨_, _, herror, -⟩ | ⟨_, _, hnext, hnext', hplace⟩
  · cases herror
  cases hnext
  have hgoes := goes_of_step h
  generalize (step files filename a c).assembly = b at hgoes ⊢
  cases hgoes with
  | directive _ _ hobey hend =>
    obtain ⟨-, hpeek⟩ := expectLineEnd_eq_ok_iff.mp hend
    exact ⟨hplace.rest_of_peek hpeek, hobey.records_eq⟩
  | line hline => cases hstart.symm.trans hline

/-- A line is read up to its end, and its record is listed as the line itself, tidied up. -/
theorem stepLine_plain {line : List Char} (hc : c.rest = line ++ '\n' :: more) (hline : PlainLine line)
    (hstart : startsDirective c.rest = false) (h : (step files filename a c).next = .ok next) :
    next.rest = '\n' :: more ∧ Line.SameCharacters line (Line.tidied line) ∧
      ∃ r, (step files filename a c).assembly = a.addRecord r ∧
        (Listing.entry false r.number r.payload).text = Line.listed line ++ ['\n'] := by
  have hgoes := goes_of_step h
  generalize (step files filename a c).assembly = b at hgoes ⊢
  cases hgoes with
  | directive hdirective => cases hstart.symm.trans hdirective
  | line _ hread =>
    obtain ⟨hnext, hlisted, hsame⟩ := Line.listed_of_read hc hline hread
    exact ⟨hnext, hsame, _, rfl, hlisted⟩

/-- In a listing that is read to its end, every item is read. -/
theorem exists_step_of_run {events : Journal} (hgap : Cursor.gapWidth c.rest = 0) (hne : c.rest ≠ [])
    (h : (run files filename a c events).fault = none) : ∃ next, (step files filename a c).next = .ok next := by
  rw [run_eq, Cursor.skipGaps_of_gapWidth hgap, if_neg hne] at h
  split at h
  · cases h
  · next next hnext => exact ⟨next, hnext⟩

/-- **Items.** The item of a plain line adds its record if it is part of the program, and no record else. -/
theorem step_plain {x : Char} {u : List Char} (hc : c.rest = x :: u ++ '\n' :: more) (hline : PlainLine (x :: u))
    (hcomment : x = '#' → u.head? = some '!') (h : (step files filename a c).next = .ok next) :
    next.rest = '\n' :: more ∧
      listing (step files filename a c).assembly.records.toList = listing a.records.toList ++
        (if Source.isProgramLine (x :: u) then Line.listed (x :: u) ++ ['\n'] else []) ∧
      (Source.isProgramLine (x :: u) = true → Line.SameCharacters (x :: u) (Line.tidied (x :: u))) := by
  by_cases hx : x = '#'
  · subst hx
    obtain ⟨rest, rfl⟩ := List.head?_eq_some_iff.mp (hcomment rfl)
    obtain ⟨hnext, hrecords⟩ := stepDirective_plain hc hline.contained (by rw [hc]; rfl) h
    have hdirective : ¬Source.isProgramLine ('#' :: '!' :: rest) = true := by simp [Source.isProgramLine]
    refine ⟨hnext, ?_, fun hprogram => absurd hprogram hdirective⟩
    rw [hrecords, if_neg hdirective, List.append_nil]
  · have hstart : startsDirective c.rest = false := by
      rw [hc]
      simp [startsDirective, hx]
    obtain ⟨hnext, hsame, r, hrecord, hlisted⟩ := stepLine_plain hc hline hstart h
    refine ⟨hnext, ?_, fun _ => hsame⟩
    rw [hrecord, records_addRecord, listing_append, if_pos (by simp [Source.isProgramLine, hx])]
    simp only [listing, Listing.text, List.map_cons, List.map_nil, List.flatMap_cons, List.flatMap_nil,
      List.append_nil, hlisted]

/-- **Whole listings.** The records of a plain listing are listed as its program lines, tidied up, with the
characters that they have. By induction on the lines: what stands in front of an item is skipped, and an item is
one step. -/
theorem run_plain {lines : List (List Char)} (hlines : ∀ line ∈ lines, PlainLine line) {events : Journal}
    (hc : c.rest = lines.flatMap (· ++ ['\n'])) (h : (run files filename a c events).fault = none) :
    listing (run files filename a c events).assembly.records.toList =
        listing a.records.toList ++ (Source.programLines lines).flatMap (Line.listed · ++ ['\n']) ∧
      ∀ line ∈ Source.programLines lines, Line.SameCharacters line (Line.tidied line) := by
  induction lines generalizing a c events with
  | nil =>
    rw [run_end hc]
    refine ⟨?_, nofun⟩
    unfold finish
    split <;> exact (List.append_nil _).symm
  | cons line lines ih =>
    obtain ⟨hline, hrest⟩ := List.forall_mem_cons.mp hlines
    have hsplit : c.rest = line.takeWhile isBlank ++
        (line.dropWhile isBlank ++ '\n' :: lines.flatMap (· ++ ['\n'])) := by
      rw [hc, List.flatMap_cons, ← List.append_assoc, List.takeWhile_append_dropWhile, List.append_assoc,
        List.singleton_append]
    have hblanks : Cursor.Skips (line.takeWhile isBlank) :=
      Cursor.skips_blanks fun x hx => List.all_eq_true.mp List.all_takeWhile x hx
    obtain ⟨c₁, hc₁, hrun₁⟩ := @run_of_skips files filename _ _ hblanks a _ events hsplit
    rw [hrun₁] at h ⊢
    have hitem := hline.dropWhile isBlank
    have hhead := List.head?_dropWhile_not isBlank line
    rw [Source.programLines, List.map_cons]
    generalize line.dropWhile isBlank = item at hc₁ hitem hhead ⊢
    rcases item with _ | ⟨x, u⟩
    · -- a line of blanks
      obtain ⟨c₂, hc₂, hrun₂⟩ := @run_of_skips files filename _ _
        (Cursor.skips_blank (show isBlank '\n' = true from rfl)) a _ events hc₁
      rw [hrun₂] at h ⊢
      exact ih hrest hc₂ h
    by_cases hcomment : x = '#' → u.head? = some '!'
    · -- a directive or a line
      have hgap : Cursor.gapWidth c₁.rest = 0 := by
        rw [hc₁]
        exact Cursor.gapWidth_inLine hitem.contained (by simpa using hhead) hcomment _
      have hne : c₁.rest ≠ [] := by
        rw [hc₁]
        simp
      obtain ⟨c₂, hc₂⟩ := exists_step_of_run hgap hne h
      rw [run_of_step hgap hne hc₂] at h ⊢
      obtain ⟨hnext, hlisted, hsame⟩ := step_plain hc₁ hitem hcomment hc₂
      obtain ⟨c₃, hc₃, hrun₃⟩ := @run_of_skips files filename _ _
        (Cursor.skips_blank (show isBlank '\n' = true from rfl)) (step files filename a c₁).assembly _
        (events ++ (step files filename a c₁).events) hnext
      rw [hrun₃] at h ⊢
      obtain ⟨hlines, hsames⟩ := ih hrest hc₃ h
      rw [hlines, hlisted, List.filter_cons, List.append_assoc]
      split
      · next hprogram =>
        exact ⟨by simp [Source.programLines], List.forall_mem_cons.mpr ⟨hsame hprogram, hsames⟩⟩
      · exact ⟨by simp [Source.programLines], hsames⟩
    · -- a comment
      rw [Classical.not_imp] at hcomment
      obtain ⟨rfl, hmark⟩ := hcomment
      have hline : '\n' ∉ u := fun hmem => Text.lineEnd_not_mem hitem.contained (List.mem_cons_of_mem _ hmem)
      obtain ⟨c₂, hc₂, hrun₂⟩ := @run_of_skips files filename _ (lines.flatMap (· ++ ['\n']))
        (Cursor.skips_comment hline hmark) a _ events (by simpa using hc₁)
      rw [hrun₂] at h ⊢
      rw [List.filter_cons_of_neg (by simp [Source.isProgramLine])]
      exact ih hrest hc₂ h

end Assembly

namespace Source

/-! ## Whole programs -/

theorem mem_ofText {filename text : List Char} {c : Char} (h : c ∈ (ofText filename text).text) :
    c ∈ text ∨ c = '\n' := by
  unfold ofText at h
  dsimp only at h
  split at h
  · exact .inl (List.mem_filter.mp h).1
  · rcases List.mem_append.mp h with h | h
    · exact .inl (List.mem_filter.mp h).1
    · exact .inr (List.mem_singleton.mp h)

theorem splitOn_lines {lines : List (List Char)} (h : ∀ line ∈ lines, '\n' ∉ line) :
    (lines.flatMap (· ++ ['\n'])).splitOn '\n' = lines ++ [[]] := by
  simpa using Text.splitOn_lines_append h []

/-- The lines of a listing that are part of its program. -/
def program (s : Source) : List (List Char) := programLines (s.text.splitOn '\n')

/-- **Plain listings.** Let a text in ASCII without brackets encode, with no line of it continued, once its
carriage returns are left out and its last line is ended. Then its program is listed as its program lines, one
after the other: each tidied up, with no more than its own characters and without brackets, but for the number of
a space that ends a remark. -/
theorem encodeProgram_plain (files : FileReader) {filename text : List Char} {bytes : List UInt8}
    (hascii : ∀ c ∈ text, isAscii c = true) (hbracket : '[' ∉ text)
    (hcontinued : hasContinuation (ofText filename text).text = false)
    (h : (encodeProgram files (ofText filename text)).result = .ok bytes) :
    Listing.programText false bytes = (ofText filename text).program.flatMap (Line.listed · ++ ['\n']) ∧
      ∀ line ∈ (ofText filename text).program,
        Line.SameCharacters line (Line.tidied line) ∧ '[' ∉ Line.tidied line := by
  obtain ⟨hfault, rfl⟩ := encodeProgram_eq_ok_iff.mp h
  have hwell := (collect_consistent files (ofText filename text)).program
  have hasciiText : ∀ c ∈ (ofText filename text).text, isAscii c = true := fun c hc =>
    (mem_ofText hc).elim (hascii c) fun hend => hend ▸ rfl
  have hbracketText : '[' ∉ (ofText filename text).text := fun hmem =>
    (mem_ofText hmem).elim hbracket (by decide)
  obtain ⟨lines, hlines, hline⟩ := Text.exists_lines (getLast?_ofText filename text)
  generalize ofText filename text = s at hfault hwell hasciiText hbracketText hcontinued hlines ⊢
  rw [hlines] at hasciiText hbracketText hcontinued
  have hplain := Text.plainLine_of_mem hline hasciiText hbracketText hcontinued
  have hprogram : s.program = programLines lines := by
    rw [program, hlines, splitOn_lines hline, programLines, List.map_append, List.filter_append]
    simp [programLines, isProgramLine]
  obtain ⟨hrun, hsame⟩ := Assembly.run_plain (c := Cursor.start s.text) hplain hlines hfault
  rw [hprogram]
  refine ⟨?_, fun line hmem => ⟨hsame line hmem, (hsame line hmem).bracket_not_mem ?_⟩⟩
  · rw [Assembly.program, Listing.programText, Listing.ofProgram, Listing.ofProgramFrom_programBytes false hwell,
      List.reverse_nil, List.nil_append]
    exact hrun
  · obtain ⟨whole, hwhole, rfl⟩ := List.mem_map.mp (List.mem_filter.mp hmem).1
    exact (hplain whole hwhole).dropWhile _

/-- A literal behind a name with a figure, and a remark that ends with a space. -/
def plainSample : List Char := "\t020\tlet a1=.5\n40 rem go  ".toList

theorem encodeProgram_plain_sample :
    (∀ c ∈ plainSample, isAscii c = true) ∧ '[' ∉ plainSample ∧
      hasContinuation (ofText defaultName plainSample).text = false ∧
      ∃ bytes, (encodeProgram (fun _ => .error []) (ofText defaultName plainSample)).result = .ok bytes ∧
        Listing.programText false bytes = "20 LET A1=.5\n40 REM GO [0]\n".toList := by
  have hascii : ∀ c ∈ plainSample, isAscii c = true := Text.forall_mem_of_all (by decide)
  have hbracket : '[' ∉ plainSample := by decide
  have hcontinued : hasContinuation (ofText defaultName plainSample).text = false := by decide +kernel
  obtain ⟨hencode, hlisted⟩ : (encodeProgram (fun _ => .error []) (ofText defaultName plainSample)).result =
        .ok [0, 20, 13, 0, 241, 38, 29, 20, 27, 33, 126, 128, 0, 0, 0, 0, 118, 0, 40, 6, 0, 234, 44, 52, 0, 0, 118] ∧
      (ofText defaultName plainSample).program.flatMap (Line.listed · ++ ['\n']) =
        "20 LET A1=.5\n40 REM GO [0]\n".toList := by
    decide +kernel
  obtain ⟨htext, -⟩ := encodeProgram_plain (fun _ => .error []) hascii hbracket hcontinued hencode
  exact ⟨hascii, hbracket, hcontinued, _, hencode, htext.trans hlisted⟩

/-- **An open end.** A backslash at the very end of a text is no continuation yet, but it becomes one when the last
line is ended, and is lost. -/
theorem encodeProgram_open_end :
    (∀ c ∈ "10 PRINT \\".toList, isAscii c = true) ∧ '[' ∉ "10 PRINT \\".toList ∧
      hasContinuation "10 PRINT \\".toList = false ∧
      (encodeProgram (fun _ => .error []) (ofText defaultName "10 PRINT \\".toList)).result =
        .ok [0, 10, 2, 0, 245, 118] ∧
      Listing.programText false [0, 10, 2, 0, 245, 118] = "10 PRINT \n".toList ∧
      (ofText defaultName "10 PRINT \\".toList).program.flatMap (Line.listed · ++ ['\n']) =
        "10 PRINT \\\n".toList :=
  ⟨Text.forall_mem_of_all (by decide), by decide +kernel⟩

end Source

end TapeBasic
