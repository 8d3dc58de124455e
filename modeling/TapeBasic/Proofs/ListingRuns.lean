import TapeBasic.Proofs.LineRoundTrip
import TapeBasic.Proofs.StoredPrograms
import TapeBasic.Source.Assembly

/-!
# Running through a listing

What collecting a listing makes of the lines of a stored program. One item is one step, and blanks and
comments between items are no step at all, so a listing is collected item by item.

* `Cursor.Skips front`: the text `front` is skipped between items.

Results:
* `run_line`: a line is one step, which adds its record.
* `run_entries`: the listing of a program adds the records that can be shown, one after the other.
-/
namespace TapeBasic

/-! ## Records that can be shown -/

/-- Whether no stored number of a line is cut short: every mark in statement text has five bytes between it
and the last byte of the record. -/
def LineRecord.isWhole (r : LineRecord) : Bool :=
  match r.payload.dropLast with
  | [] => true
  | command :: body => Piece.wholeNumbers 0 (Listing.placeBehind command) body

theorem LineRecord.WellFormed.dropLast_payload {r : LineRecord} (h : r.WellFormed) :
    ∃ command body, r.payload = command :: (body ++ [Token.lineEnd]) ∧
      r.payload.dropLast = command :: body ∧ Token.isCommand command = true := by
  obtain ⟨command, body, hpayload, hcommand⟩ := h.payload_eq
  refine ⟨command, body, hpayload, ?_, hcommand⟩
  rw [hpayload, ← List.cons_append, List.dropLast_concat]

/-- A record can be shown if and only if no stored number of it is cut short, with keywords in brackets or
without. -/
theorem LineRecord.WellFormed.isOk_renderLine {r : LineRecord} (h : r.WellFormed) (bracketed : Bool) :
    (Listing.renderLine bracketed r.payload.dropLast).isOk = r.isWhole := by
  obtain ⟨command, body, -, hdrop, hcommand⟩ := h.dropLast_payload
  rw [isWhole, hdrop]
  exact Listing.isOk_renderLine bracketed hcommand body

/-! ## Between the items -/

namespace Cursor

theorem advance_add (c : Cursor) (m n : Nat) : c.advance (m + n) = (c.advance m).advance n := by
  induction m generalizing c with
  | zero => rw [Nat.zero_add]; rfl
  | succ m ih =>
    rw [Nat.succ_add, advance, advance.eq_def c (m + 1)]
    dsimp only
    split
    · next h => rw [advance.eq_def]; cases n <;> simp [h]
    · exact ih _

/-- The text is skipped between the items of a listing. -/
def Skips (front : List Char) : Prop :=
  ∀ (c : Cursor) (tail : List Char), c.rest = front ++ tail →
    ∃ c' : Cursor, c'.rest = tail ∧ c.skipGaps = c'.skipGaps

theorem skips_nil : Skips [] := fun c _ hc => ⟨c, hc, rfl⟩

theorem Skips.append {front more : List Char} (h : Skips front) (h' : Skips more) :
    Skips (front ++ more) := by
  intro c tail hc
  obtain ⟨c₁, hc₁, hskip₁⟩ := h c (more ++ tail) (by rw [hc, List.append_assoc])
  obtain ⟨c₂, hc₂, hskip₂⟩ := h' c₁ tail hc₁
  exact ⟨c₂, hc₂, hskip₁.trans hskip₂⟩

theorem skipGaps_of_gapWidth {c : Cursor} (h : gapWidth c.rest = 0) : c.skipGaps = c := by
  rw [skipGaps, dif_pos h]

theorem skipGaps_advance (c : Cursor) : c.skipGaps = (c.advance (gapWidth c.rest)).skipGaps := by
  by_cases h : gapWidth c.rest = 0
  · rw [h]; rfl
  · rw [skipGaps, dif_neg h]

theorem gapWidth_skipGaps (c : Cursor) : gapWidth c.skipGaps.rest = 0 := by
  fun_induction skipGaps c with
  | case1 c h => exact h
  | case2 c h _ ih => exact ih

theorem rest_skipGaps_suffix (c : Cursor) : c.skipGaps.rest <:+ c.rest := by
  fun_induction skipGaps c with
  | case1 c h => exact List.suffix_rfl
  | case2 c h _ ih => exact ih.trans (rest_advance c _ ▸ List.drop_suffix _ c.rest)

theorem gapWidth_blank {x : Char} (hx : Text.isBlank x = true) (text : List Char) :
    gapWidth (x :: text) = 1 + Text.countWhile Text.isBlank text := by
  have hcount : Text.countWhile Text.isBlank (x :: text) = 1 + Text.countWhile Text.isBlank text := by
    simp [Text.countWhile, hx, Nat.add_comm]
  rw [gapWidth, hcount, if_pos]
  simp

/-- A blank is skipped, alone as well as in front of others. -/
theorem skipGaps_blank {x : Char} (hx : Text.isBlank x = true) {c : Cursor} {tail : List Char}
    (hc : c.rest = x :: tail) : c.skipGaps = (c.advance 1).skipGaps := by
  rw [skipGaps_advance, hc, gapWidth_blank hx, advance_add]
  by_cases h : Text.countWhile Text.isBlank tail = 0
  · rw [h]; rfl
  · have hgap : gapWidth (c.advance 1).rest = Text.countWhile Text.isBlank tail := by
      simp [gapWidth, hc, h]
    rw [← hgap, ← skipGaps_advance]

theorem skips_blank {x : Char} (hx : Text.isBlank x = true) : Skips [x] := fun c tail hc =>
  ⟨c.advance 1, by rw [rest_advance, hc]; rfl, skipGaps_blank hx hc⟩

theorem skips_blanks {blanks : List Char} (h : ∀ x ∈ blanks, Text.isBlank x = true) : Skips blanks := by
  induction blanks with
  | nil => exact skips_nil
  | cons x blanks ih =>
    obtain ⟨hx, hblanks⟩ := List.forall_mem_cons.mp h
    exact (skips_blank hx).append (ih hblanks)

/-- A comment is skipped with its line end. -/
theorem skipGaps_comment {inner : List Char} (hline : '\n' ∉ inner) (hmark : inner.head? ≠ some '!')
    {c : Cursor} {tail : List Char} (hc : c.rest = '#' :: (inner ++ '\n' :: tail)) :
    c.skipGaps = (c.advance (inner.length + 2)).skipGaps := by
  have htake : (inner ++ '\n' :: tail).takeWhile (· != '\n') = inner :=
    Text.takeWhile_append_cons (fun x hx => by
      rw [bne_iff_ne]
      rintro rfl
      exact hline hx) (by decide)
  have hhead : (inner ++ '\n' :: tail).head? ≠ some '!' := by
    cases inner with
    | nil => simp
    | cons x inner => exact hmark
  have hgap : gapWidth c.rest = inner.length + 2 := by
    have hblank : Text.countWhile Text.isBlank ('#' :: (inner ++ '\n' :: tail)) = 0 := rfl
    have hcontinue : continuationWidth ('#' :: (inner ++ '\n' :: tail)) = 0 := rfl
    rw [hc, gapWidth, hblank, hcontinue]
    simp only [bne_self_eq_false, Bool.false_eq_true, if_false, commentWidth, Text.countWhile, htake,
      beq_false_of_ne hhead, List.drop_left, List.isEmpty_cons, Bool.or_self]
  rw [skipGaps_advance, hgap]

theorem skips_comment {inner : List Char} (hline : '\n' ∉ inner) (hmark : inner.head? ≠ some '!') :
    Skips ('#' :: (inner ++ ['\n'])) := by
  intro c tail hc
  have htext : c.rest = '#' :: (inner ++ '\n' :: tail) := by simp [hc]
  exact ⟨c.advance (inner.length + 2), by simp [hc], skipGaps_comment hline hmark htext⟩

end Cursor

/-! ## One item -/

namespace Assembly

variable {files : FileReader} {filename : List Char}

theorem run_eq (a : Assembly) (c : Cursor) (events : Journal) :
    run files filename a c events =
      if c.skipGaps.rest = [] then a.finish events c.skipGaps
      else
        match (step files filename a c.skipGaps).next with
        | .error fault =>
          ⟨(step files filename a c.skipGaps).assembly,
            events ++ (step files filename a c.skipGaps).events, some fault⟩
        | .ok next =>
          run files filename (step files filename a c.skipGaps).assembly next
            (events ++ (step files filename a c.skipGaps).events) := by
  rw [run.eq_def]
  by_cases h : c.skipGaps.rest = []
  · rw [dif_pos h, if_pos h]
  · rw [dif_neg h, if_neg h]
    dsimp only
    split <;> simp_all

theorem run_congr {a : Assembly} {c c' : Cursor} {events : Journal} (h : c.skipGaps = c'.skipGaps) :
    run files filename a c events = run files filename a c' events := by
  rw [run_eq, run_eq a c' events, h]

/-- What is skipped is no step. -/
theorem run_of_skips {front tail : List Char} (h : Cursor.Skips front) {a : Assembly} {c : Cursor}
    {events : Journal} (hc : c.rest = front ++ tail) :
    ∃ c' : Cursor, c'.rest = tail ∧ run files filename a c events = run files filename a c' events := by
  obtain ⟨c', hc', hskip⟩ := h c tail hc
  exact ⟨c', hc', run_congr hskip⟩

theorem run_end {a : Assembly} {c : Cursor} {events : Journal} (hc : c.rest = []) :
    run files filename a c events = a.finish events c := by
  have hskip : c.skipGaps = c := Cursor.skipGaps_of_gapWidth (by rw [hc]; rfl)
  rw [run_eq, hskip, if_pos hc]

/-- An item that is read is one step. -/
theorem run_of_step {a : Assembly} {c c' : Cursor} {events : Journal} (hgap : Cursor.gapWidth c.rest = 0)
    (hc : c.rest ≠ []) (hstep : (step files filename a c).next = .ok c') :
    run files filename a c events =
      run files filename (step files filename a c).assembly c'
        (events ++ (step files filename a c).events) := by
  rw [run_eq, Cursor.skipGaps_of_gapWidth hgap, if_neg hc, hstep]

theorem isBlank_of_isDigit {x : Char} (h : x.isDigit = true) : Text.isBlank x = false := by
  rw [Text.isBlank, if_pos (Text.isAscii_of_isDigit h)]
  simp only [Char.isDigit, Bool.and_eq_true, decide_eq_true_eq, ge_iff_le] at h
  have hlow : '0'.toNat ≤ x.toNat := h.1
  have hlow' : 48 ≤ x.toNat := hlow
  simp only [Bool.or_eq_false_iff, beq_eq_false_iff_ne, Bool.and_eq_false_imp, decide_eq_true_eq,
    decide_eq_false_iff_not]
  refine ⟨⟨?_, by omega⟩, by omega⟩
  rintro rfl
  exact absurd hlow' (by decide)

/-- A number is neither skipped nor a directive. -/
theorem gapWidth_decimal (n : Nat) (rest : List Char) :
    Cursor.gapWidth (Text.decimal n ++ rest) = 0 ∧ startsDirective (Text.decimal n ++ rest) = false := by
  obtain ⟨x, digits, hx, hdigit⟩ := Text.decimal_eq_cons n
  have hne : ∀ y : Char, y.isDigit = false → x ≠ y := by
    rintro y hy rfl
    rw [hy] at hdigit
    cases hdigit
  have hback := hne '\\' (by decide)
  have hmark := hne '#' (by decide)
  rw [hx, List.cons_append]
  constructor
  · have hblank : Text.countWhile Text.isBlank (x :: (digits ++ rest)) = 0 := by
      simp [Text.countWhile, isBlank_of_isDigit hdigit]
    have hcontinue : Cursor.continuationWidth (x :: (digits ++ rest)) = 0 := by
      unfold Cursor.continuationWidth
      split <;> simp_all
    rw [Cursor.gapWidth, hblank, hcontinue]
    simp only [bne_self_eq_false, Bool.false_eq_true, if_false]
    unfold Cursor.commentWidth
    split <;> simp_all
  · unfold startsDirective
    split <;> simp_all

/-- **A line.** It is one step, which adds its record. -/
theorem run_line {a : Assembly} {c : Cursor} {events : Journal} {bracketed : Bool} {r : LineRecord}
    {text tail : List Char} {shown : Journal} (hr : r.WellFormed)
    (hlast : ∀ n ∈ a.lastNumber, n < r.number)
    (htext : Listing.renderLine bracketed r.payload.dropLast = .ok (text, shown))
    (hc : c.rest = Text.decimal r.number ++ ' ' :: (text ++ '\n' :: tail)) :
    ∃ (c' : Cursor) (events' : Journal), c'.rest = tail ∧
      run files filename a c events = run files filename (a.addRecord r) c' events' := by
  obtain ⟨b, body, hpayload, hdrop, hb⟩ := hr.dropLast_payload
  rw [hdrop] at htext
  obtain ⟨c₁, hc₁, hread⟩ := @Line.read_line files filename _ _ _ _ _ _ _ _ _ hr.number_le hlast hb
    (hpayload ▸ hr.length_le) htext hc
  rw [← hpayload] at hread
  obtain ⟨hgap, hdirective⟩ := gapWidth_decimal r.number (' ' :: (text ++ '\n' :: tail))
  rw [← hc] at hgap hdirective
  have hstep : step files filename a c =
      ⟨a.addRecord r, (Line.read files filename a.lastNumber c).events, .ok c₁⟩ := by
    rw [step, hdirective, if_neg (by decide), stepLine]
    simp only [hread]
  have hne : c.rest ≠ [] := by
    rw [hc]
    simp
  have hnext : (step files filename a c).next = .ok c₁ := by rw [hstep]
  obtain ⟨c₂, hc₂, hskip⟩ := Cursor.skips_blank (show Text.isBlank '\n' = true from rfl) c₁ tail hc₁
  refine ⟨c₂, events ++ (step files filename a c).events, hc₂, ?_⟩
  rw [run_of_step hgap hne hnext, run_congr hskip, hstep]

/-! ## The listing of a program -/

theorem lastNumber_addRecord (a : Assembly) (r : LineRecord) :
    (a.addRecord r).lastNumber = some r.number := by
  unfold addRecord lastNumber
  split <;> simp

/-- The comment that stands for a record that cannot be shown is skipped. -/
theorem skips_broken (number : Nat) (failure : CutShort) :
    Cursor.Skips (Listing.Entry.broken number failure.message).text := by
  have hstart : "\n# Error: Line ".toList = '\n' :: '#' :: " Error: Line ".toList := by
    decide
  have hshape : ∀ a d e r : List Char, '\n' :: '#' :: a ++ d ++ e ++ r ++ ['\n'] =
      ['\n'] ++ '#' :: (a ++ (d ++ (e ++ r)) ++ ['\n']) := by simp
  rw [Listing.Entry.text.eq_def]
  dsimp only
  rw [hstart, hshape]
  refine (Cursor.skips_blank rfl).append (Cursor.skips_comment ?_ ?_)
  · have hnumber := Piece.printable_decimal number
    have hmessage := Piece.printable_message failure
    refine List.not_mem_append ?_ (List.not_mem_append (Piece.not_mem_of_printable hnumber (by decide))
      (List.not_mem_append ?_ (Piece.not_mem_of_printable hmessage (by decide))))
    all_goals decide
  · rw [List.head?_append_of_ne_nil _ (by decide)]
    decide

theorem text_line (number : Nat) (text : List Char) (events : Journal) :
    (Listing.Entry.line number text Token.lineEnd events).text =
      Text.decimal number ++ ' ' :: (text ++ ['\n']) := by
  unfold Listing.Entry.text
  simp only [beq_self_eq_true, if_true]

/-- **The listing of a program.** Every record that can be shown is one step, which adds it, and all
others are skipped. -/
theorem run_entries (bracketed : Bool) {records : List LineRecord} (h : WellFormedProgram records)
    {a : Assembly} {c : Cursor} {events : Journal} {tail : List Char}
    (hlast : ∀ n ∈ a.lastNumber, ∀ r ∈ records, n < r.number)
    (hc : c.rest = Listing.text (records.map fun r => Listing.entry bracketed r.number r.payload) ++
      tail) :
    ∃ (c' : Cursor) (events' : Journal), c'.rest = tail ∧
      run files filename a c events =
        run files filename
          ((records.filter fun r => (Listing.renderLine bracketed r.payload.dropLast).isOk).foldl
            addRecord a) c' events' := by
  induction records generalizing a c events with
  | nil => exact ⟨c, events, hc, rfl⟩
  | cons r records ih =>
    have hr := h.wellFormed r List.mem_cons_self
    have hend := hr.lineEnd
    rw [List.map_cons, Listing.text, List.flatMap_cons, List.append_assoc] at hc
    have hlast' : ∀ n ∈ a.lastNumber, ∀ s ∈ records, n < s.number := fun n hn s hs =>
      hlast n hn s (List.mem_cons_of_mem _ hs)
    cases hrender : Listing.renderLine bracketed r.payload.dropLast with
    | error failure =>
      have hentry : Listing.entry bracketed r.number r.payload = .broken r.number failure.message := by
        simp only [Listing.entry, hend, hrender]
      rw [hentry] at hc
      obtain ⟨c₁, hc₁, hrun₁⟩ := run_of_skips (skips_broken r.number failure) hc
      obtain ⟨c₂, events₂, hc₂, hrun₂⟩ := ih h.tail hlast' hc₁
      refine ⟨c₂, events₂, hc₂, ?_⟩
      rw [hrun₁, hrun₂, List.filter_cons_of_neg (by rw [hrender]; exact Bool.false_ne_true)]
    | ok shown =>
      obtain ⟨text, shown⟩ := shown
      have hentry : Listing.entry bracketed r.number r.payload =
          .line r.number text Token.lineEnd shown := by
        simp only [Listing.entry, hend, hrender]
      rw [hentry] at hc
      have hc' : c.rest = Text.decimal r.number ++ ' ' :: (text ++ '\n' ::
          (Listing.text (records.map fun r => Listing.entry bracketed r.number r.payload) ++ tail)) := by
        rw [hc, text_line, Listing.text]
        simp only [List.append_assoc, List.cons_append, List.nil_append]
      obtain ⟨c₁, events₁, hc₁, hrun₁⟩ := run_line hr
        (fun n hn => hlast n hn r List.mem_cons_self) hrender hc'
      have hnext : ∀ n ∈ (a.addRecord r).lastNumber, ∀ s ∈ records, n < s.number := by
        intro n hn
        rw [lastNumber_addRecord, Option.mem_some] at hn
        exact hn ▸ (List.pairwise_cons.mp h.increasing).1
      obtain ⟨c₂, events₂, hc₂, hrun₂⟩ := ih h.tail hnext hc₁
      refine ⟨c₂, events₂, hc₂, ?_⟩
      rw [hrun₁, hrun₂, List.filter_cons_of_pos (by rw [hrender]; rfl), List.foldl_cons]

end Assembly

end TapeBasic
