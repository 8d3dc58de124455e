import TapeBasic.Proofs.ListingRuns
import TapeBasic.Source.Encoding

/-!
# The round trip of a program

Every program that the machine could hold is got back from its listing, however keywords are written,
if each of its lines can be shown.

Results:
* `text_ofText`: the text of a listing is kept, but for a line end behind it.
* `collect_programText`: the records that are collected from the listing of a program.
* `encodeProgram_programText`: the listing of a program encodes as the program.
-/
namespace TapeBasic

/-! ## The text of a listing -/

theorem lineReturn_not_mem_of_printable {text : List Char}
    (h : ∀ c ∈ text, Text.isPrintable c = true) : '\r' ∉ text :=
  Piece.not_mem_of_printable h (by decide)

theorem lineReturn_not_mem_decimal (n : Nat) : '\r' ∉ Text.decimal n :=
  lineReturn_not_mem_of_printable (Piece.printable_decimal n)

theorem lineReturn_not_mem_entry (bracketed : Bool) {r : LineRecord} (hr : r.WellFormed) :
    '\r' ∉ (Listing.entry bracketed r.number r.payload).text := by
  obtain ⟨b, body, -, hdrop, hb⟩ := hr.dropLast_payload
  have hnumber := lineReturn_not_mem_decimal
  unfold Listing.entry
  rw [hr.lineEnd, hdrop]
  dsimp only
  split
  · next failure _ =>
    rw [Listing.Entry.text.eq_def]
    have hmessage := lineReturn_not_mem_of_printable (Piece.printable_message failure)
    refine List.not_mem_append (List.not_mem_append (List.not_mem_append (List.not_mem_append ?_
      (hnumber _)) ?_) hmessage) ?_
    all_goals decide
  · next text events hrender =>
    obtain ⟨rest, -, hprint, -⟩ := Listing.renderLine_reads hb hrender
    rw [Assembly.text_line]
    refine List.not_mem_append (hnumber _) (List.not_mem_cons_of_ne_of_not_mem (by decide) ?_)
    exact List.not_mem_append (lineReturn_not_mem_of_printable hprint) (by decide)

theorem lineReturn_not_mem_listing (bracketed : Bool) {records : List LineRecord}
    (h : WellFormedProgram records) :
    '\r' ∉ Listing.text (records.map fun r => Listing.entry bracketed r.number r.payload) := by
  intro hmem
  obtain ⟨entry, hentry, hmem⟩ := List.mem_flatMap.mp hmem
  obtain ⟨r, hr, rfl⟩ := List.mem_map.mp hentry
  exact lineReturn_not_mem_entry bracketed (h.wellFormed r hr) hmem

namespace Source

theorem filter_lineReturn {text : List Char} (h : '\r' ∉ text) : text.filter (· != '\r') = text := by
  rw [List.filter_eq_self]
  intro c hc
  rw [bne_iff_ne]
  rintro rfl
  exact h hc

/-- A text without carriage returns is kept, but for a line end behind it. -/
theorem text_ofText {filename text : List Char} (h : '\r' ∉ text) :
    ∃ tail, (ofText filename text).text = text ++ tail ∧ Cursor.Skips tail := by
  unfold ofText
  dsimp only
  rw [filter_lineReturn h]
  split
  · exact ⟨[], by simp, Cursor.skips_nil⟩
  · exact ⟨['\n'], rfl, Cursor.skips_blank rfl⟩

theorem getLast?_ofText (filename text : List Char) : ∀ c ∈ (ofText filename text).text.getLast?, c = '\n' := by
  intro c hc
  unfold ofText at hc
  dsimp only at hc
  split at hc
  · next hlast =>
    rw [beq_iff_eq.mp hlast] at hc
    exact (Option.mem_some.mp hc).symm
  · rw [List.getLast?_concat] at hc
    exact (Option.mem_some.mp hc).symm

end Source

/-! ## Adding records -/

namespace Assembly

/-- The line to start with is none of these records nor in front of one. -/
def StartsBehind (a : Assembly) (records : List LineRecord) : Prop :=
  ∀ r ∈ records, (a.pendingStart.any fun start => start.1 ≤ r.number) = false

/-- Where the line to start with is not reached, adding records adds nothing else. -/
theorem foldl_addRecord {a : Assembly} {records : List LineRecord} (h : a.StartsBehind records) :
    records.foldl addRecord a = { a with records := a.records ++ records } := by
  induction records generalizing a with
  | nil => simp
  | cons r records ih =>
    obtain ⟨hr, hrecords⟩ := List.forall_mem_cons.mp h
    have hadd : a.addRecord r = { a with records := a.records.push r } := by
      rw [addRecord, hr, if_neg Bool.false_ne_true]
    rw [List.foldl_cons, hadd, ih (a := { a with records := a.records.push r }) hrecords]
    simp

theorem startsBehind_of_none {a : Assembly} (h : a.pendingStart = none) (records : List LineRecord) :
    a.StartsBehind records := by
  intro r _
  rw [h]
  rfl

end Assembly

namespace Source

/-- The listing of a program is read to its end, and its records are those that can be shown. -/
theorem collect_programText (files : FileReader) (filename : List Char) (bracketed : Bool)
    {records : List LineRecord} (h : WellFormedProgram records)
    (hshown : ∀ r ∈ records, (Listing.renderLine bracketed r.payload.dropLast).isOk = true) :
    ∃ events, (ofText filename (Listing.programText bracketed (programBytes records))).collect files =
      ⟨{ records := records.toArray }, events, none⟩ := by
  have hlisting : Listing.programText bracketed (programBytes records) =
      Listing.text (records.map fun r => Listing.entry bracketed r.number r.payload) := by
    rw [Listing.programText, Listing.ofProgram, Listing.ofProgramFrom_programBytes bracketed h]
    rfl
  obtain ⟨tail, htext, hskips⟩ := @text_ofText filename _ (lineReturn_not_mem_listing bracketed h)
  rw [hlisting]
  generalize ofText filename _ = source at htext ⊢
  have hall : (records.filter fun r => (Listing.renderLine bracketed r.payload.dropLast).isOk) =
      records := List.filter_eq_self.mpr hshown
  obtain ⟨c₁, events₁, hc₁, hrun₁⟩ := @Assembly.run_entries files source.filename bracketed records h
    {} (Cursor.start source.text) [] tail (by simp [Assembly.lastNumber]) htext
  obtain ⟨c₂, hc₂, hrun₂⟩ := Assembly.run_of_skips hskips (hc₁.trans (List.append_nil tail).symm)
  rw [collect, hrun₁, hrun₂, hall, Assembly.run_end hc₂,
    Assembly.foldl_addRecord (Assembly.startsBehind_of_none rfl records)]
  exact ⟨_, by simp [Assembly.finish]; rfl⟩

/-- **The round trip of a program.** A program of well-formed records that can all be shown is the program
that its listing encodes, with keywords in brackets or without, whichever files could be included. A record
can be shown if and only if none of its stored numbers is cut short. -/
theorem encodeProgram_programText (files : FileReader) (filename : List Char) (bracketed : Bool)
    {records : List LineRecord} (h : WellFormedProgram records) :
    (∀ r ∈ records,
      (Listing.renderLine bracketed r.payload.dropLast).isOk = true ↔ r.isWhole = true) ∧
    ((∀ r ∈ records, (Listing.renderLine bracketed r.payload.dropLast).isOk = true) →
      (encodeProgram files
        (ofText filename (Listing.programText bracketed (programBytes records)))).result =
          .ok (programBytes records)) := by
  refine ⟨fun r hr => by rw [(h.wellFormed r hr).isOk_renderLine], fun hshown => ?_⟩
  obtain ⟨events, hcollect⟩ := collect_programText files filename bracketed h hshown
  rw [encodeProgram, hcollect]
  simp [Assembly.program]

/-- A number, its literal and a string, two tokens that would be read as one, and a remark that holds the
mark of a number. -/
def sampleRecords : List LineRecord :=
  [ ⟨10, [0xF1, 0x26, 0x14, 0x1D, 0x7E, 0x81, 0, 0, 0, 0, 0x76]⟩,
    ⟨20, [0xF5, 0x0B, 0x26, 0xE1, 0x0B, 0x13, 0x14, 0x7E, 0x81, 0, 0, 0, 0, 0x0B, 0x76]⟩,
    ⟨9999, [0xEA, 0x7E, 0x00, 0x76]⟩ ]

theorem isWhole_sampleRecords : ∀ r ∈ sampleRecords, r.isWhole = true := by decide

theorem encodeProgram_programText_sample :
    WellFormedProgram sampleRecords ∧
      (encodeProgram (fun _ => .error [])
        (ofText defaultName (Listing.programText true (programBytes sampleRecords)))).result =
          .ok (programBytes sampleRecords) := by
  have hwell : WellFormedProgram sampleRecords := by decide
  obtain ⟨hiff, hencode⟩ := encodeProgram_programText (fun _ => .error []) defaultName true hwell
  exact ⟨hwell, hencode fun r hr => (hiff r hr).mpr (isWhole_sampleRecords r hr)⟩

/-- The listing of the sample. -/
def sampleSource : Source :=
  ofText defaultName (Listing.programText false (programBytes sampleRecords))

theorem collect_sampleSource :
    ∃ events, sampleSource.collect (fun _ => .error []) =
      ⟨{ records := sampleRecords.toArray }, events, none⟩ := by
  have hwell : WellFormedProgram sampleRecords := by decide
  refine collect_programText _ defaultName false hwell fun r hr => ?_
  rw [(hwell.wellFormed r hr).isOk_renderLine]
  exact isWhole_sampleRecords r hr

end Source

end TapeBasic
