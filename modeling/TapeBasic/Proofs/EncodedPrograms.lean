import TapeBasic.Proofs.ProgramRoundTrip
import TapeBasic.Proofs.SystemFields

/-!
# What an encoded program looks like

Whatever a listing holds, the program that is made of it is one that the machine could hold.

Results:
* `Line.wellFormed_of_read`: the record of a line is well formed, and its number is higher than the last.
* `step_change`: reading one item is one of the changes of `Assembly.Change`, whatever the text is.
* `run_consistent`: `Assembly.Consistent` is kept by every change, so it holds at the end of a listing.
* `encodeProgram_wellFormed`: an encoded program is a row of well-formed records with rising numbers, and
  they are found where they start.
-/
namespace TapeBasic

/-! ## One line -/

namespace Line

/-- **The record of a line.** It is well formed, and its number is higher than the last. -/
theorem wellFormed_of_read {files : FileReader} {filename : List Char} {last : Option Nat}
    {c next : Cursor} {r : LineRecord} (h : (read files filename last c).result = .ok (r, next)) :
    r.WellFormed ∧ ∀ n ∈ last, n < r.number := by
  obtain ⟨hnumber, horder, -, hcommand, -, hlength⟩ := read_eq_ok_iff.mp h
  obtain ⟨-, -, hmax, -⟩ := readNumber_eq_ok_iff.mp hnumber
  obtain ⟨token, -, -, hcommand, -⟩ := readCommand_eq_ok_iff.mp hcommand
  exact ⟨LineRecord.wellFormed_of_payload hmax hcommand hlength, horder⟩

end Line

/-! ## Screen rows -/

/-- No screen row holds a line end. -/
theorem Row.lineEnd_not_mem {files : FileReader} {c next : Cursor} {done bytes : List UInt8}
    {events : Journal} (h : (readFrom files c done events).result = .ok (bytes, next))
    (hdone : Token.lineEnd ∉ done) : Token.lineEnd ∉ bytes := by
  fun_induction readFrom files c done events with
  | case1 =>
    cases h
    rwa [List.mem_reverse]
  | case2 => cases h
  | case3 => cases h
  | case4 c done events hpeek lexeme hread next' events' hbytes hlt ih =>
    refine ih h (List.not_mem_append ?_ hdone)
    rw [List.mem_reverse]
    simpa using hbytes

/-! ## The events of a listing -/

/-- Whether an event says that a file was included. -/
def Event.isInclusion : Event → Bool
  | .fileIncluded .. => true
  | _ => false

/-- Whether nothing but files were included. -/
def Journal.OnlyIncludes (events : Journal) : Prop := ∀ event ∈ events, event.isInclusion = true

theorem Journal.OnlyIncludes.nil : OnlyIncludes [] := nofun

theorem Journal.OnlyIncludes.append {events more : Journal} (h : OnlyIncludes events) (hmore : OnlyIncludes more) :
    OnlyIncludes (events ++ more) := List.forall_mem_append.mpr ⟨h, hmore⟩

theorem SpecialCode.onlyIncludes_read? {files : FileReader} {c : Cursor} {lexeme : Lexeme Emission}
    (h : SpecialCode.read? files c = .ok (some lexeme)) : Journal.OnlyIncludes lexeme.value.events := by
  obtain ⟨code, -, hemit, -⟩ := exists_of_read? h
  rcases emit_cases hemit with ⟨-, he⟩ | ⟨_, _, -, -, -, he⟩ | ⟨_, _, -, -, -, he⟩ |
    ⟨_, _, -, -, he⟩ <;> rw [he]
  · exact .nil
  · exact .nil
  · exact .nil
  · exact List.forall_mem_singleton.mpr rfl

theorem onlyIncludes_readLetters {files : FileReader} {context : Context} {c : Cursor}
    {lexeme : Lexeme Emission} (h : readLetters files context c = .ok lexeme) :
    Journal.OnlyIncludes lexeme.value.events := by
  rcases readLetters_eq_ok_iff.mp h with hcode | ⟨-, token, -, rfl⟩
  · exact SpecialCode.onlyIncludes_read? hcode
  · exact .nil

theorem Row.onlyIncludes_readFrom {files : FileReader} {c : Cursor} {done : List UInt8} {events : Journal}
    (h : Journal.OnlyIncludes events) : Journal.OnlyIncludes (readFrom files c done events).events := by
  fun_induction readFrom files c done events with
  | case1 => exact h
  | case2 => exact h
  | case3 c done events hpeek lexeme hread => exact h.append (onlyIncludes_readLetters hread)
  | case4 c done events hpeek lexeme hread next' events' hbytes hlt ih =>
    exact ih (h.append (onlyIncludes_readLetters hread))

theorem Body.onlyIncludes_piece {files : FileReader} {mode : Mode} {c : Cursor} {lexeme : Lexeme Piece}
    (h : piece files mode c = .ok lexeme) : Journal.OnlyIncludes lexeme.value.emission.events := by
  cases piece_eq_ok_iff.mp h with
  | remark hletters | string hletters => exact onlyIncludes_readLetters hletters
  | code _ _ hcode => exact SpecialCode.onlyIncludes_read? hcode
  | opening | literal | token => exact .nil

theorem Body.onlyIncludes_readFrom {files : FileReader} {mode : Mode} {c : Cursor} {done : List UInt8}
    {events : Journal} (h : Journal.OnlyIncludes events) :
    Journal.OnlyIncludes (readFrom files mode c done events).events := by
  fun_induction readFrom files mode c done events with
  | case1 => exact h
  | case2 => exact h
  | case3 => exact h
  | case4 mode c done events here hpeek lexeme hlexeme hlt ih =>
    exact ih (h.append (onlyIncludes_piece hlexeme))

theorem Directive.onlyIncludes_read (files : FileReader) (c : Cursor) :
    Journal.OnlyIncludes (read files c).events := by
  unfold read readBehind
  dsimp only
  split
  · exact .nil
  · exact .nil
  · exact .nil
  · have hrow : Journal.OnlyIncludes (Row.read files (c.advance (head c.rest).width)).events :=
      Row.onlyIncludes_readFrom .nil
    change Journal.OnlyIncludes (Outcome.andThen _ _).events
    unfold Outcome.andThen
    split
    · exact hrow
    · exact hrow.append .nil
  · exact .nil
  · exact .nil
  · exact .nil

/-! ## One step -/

namespace Assembly

/-- What reading one item can do to what has been collected: nothing, or one thing that a line or a directive
says. -/
inductive Change (a : Assembly) : Assembly → Prop where
  | none : Change a a
  | line {r : LineRecord} : r.WellFormed → (∀ n ∈ a.lastNumber, n < r.number) → Change a (a.addRecord r)
  | start (number : Nat) (place : Position) : Change a { a with pendingStart := some (number, place) }
  | collapse : Change a { a with collapsed := true }
  | row {bytes : List UInt8} : Token.lineEnd ∉ bytes → Change a { a with rows := a.rows.push bytes }
  | variableBytes (bytes : List UInt8) : Change a { a with variableBytes := a.variableBytes ++ bytes }
  | assign (system : SystemVariables) : Change a { a with system }

theorem lineEnd_not_mem_of_readBehind {files : FileReader} {c behind next : Cursor}
    {head : Directive.Head} {bytes : List UInt8}
    (h : (Directive.readBehind files c head behind).result = .ok (.row bytes, next)) :
    Token.lineEnd ∉ bytes := by
  have hsays := Directive.readBehind_eq_ok_iff.mp h
  generalize Directive.subject head.keyword = subject at hsays
  cases hsays with
  | row hrow => exact Row.lineEnd_not_mem hrow List.not_mem_nil

theorem obey_change {a a' : Assembly} {place : Position} {c : Cursor} {directive : Directive}
    {events : Journal} (h : a.obey place c directive = .ok (a', events))
    (hrow : ∀ bytes, directive = .row bytes → Token.lineEnd ∉ bytes) : Change a a' := by
  cases obey_eq_ok_iff.mp h with
  | nothing => exact .none
  | start => exact .start _ place
  | collapse => exact .collapse
  | row bytes => exact .row (hrow bytes rfl)
  | variableBytes bytes => exact .variableBytes bytes
  | assign _ hset => exact .assign _

/-- **One step.** Whatever the text is, reading an item is one of the changes. -/
theorem step_change (files : FileReader) (filename : List Char) (a : Assembly) (c : Cursor) :
    Change a (step files filename a c).assembly := by
  unfold step
  split
  · unfold stepDirective
    dsimp only
    split
    · exact .none
    · next directive behind hread =>
      split
      · exact .none
      · next a' events hobey =>
        refine obey_change hobey fun bytes hbytes => ?_
        subst hbytes
        exact lineEnd_not_mem_of_readBehind hread
  · unfold stepLine
    dsimp only
    split
    · exact .none
    · next r next hread =>
      obtain ⟨hr, hlast⟩ := Line.wellFormed_of_read hread
      exact .line hr hlast

end Assembly

/-! ## Whole listings -/

theorem recordStarts_append (offset : Nat) (records : List LineRecord) (r : LineRecord) :
    recordStarts offset (records ++ [r]) =
      recordStarts offset records ++ [offset + (programBytes records).length] := by
  induction records generalizing offset with
  | nil => rfl
  | cons s records ih =>
    rw [List.cons_append, recordStarts, ih, recordStarts, programBytes_cons, List.length_append,
      s.length_bytes, Nat.add_assoc]
    rfl

theorem WellFormedProgram.append {records : List LineRecord} {r : LineRecord}
    (h : WellFormedProgram records) (hr : r.WellFormed)
    (hlast : ∀ n ∈ records.getLast?.map LineRecord.number, n < r.number) :
    WellFormedProgram (records ++ [r]) := by
  refine ⟨fun s hs => ?_, List.pairwise_append.mpr ⟨h.increasing, List.pairwise_singleton _ _, ?_⟩⟩
  · rcases List.mem_append.mp hs with hs | hs
    · exact h.wellFormed s hs
    · exact List.mem_singleton.mp hs ▸ hr
  · intro s hs t ht
    rw [List.mem_singleton.mp ht]
    -- the numbers rise, so the last number is the highest
    obtain ⟨front, last, rfl⟩ := (List.eq_nil_or_concat' records).resolve_left (List.ne_nil_of_mem hs)
    have hlt : last.number < r.number := hlast _ (by simp)
    rcases List.mem_append.mp hs with hs | hs
    · exact Nat.lt_trans ((List.pairwise_append.mp h.increasing).2.2 s hs last (by simp)) hlt
    · exact List.mem_singleton.mp hs ▸ hlt

namespace Assembly

/-- What holds of a collection at any time: the records are a program, the line to start with is one of them, and
no row holds a line end. -/
structure Consistent (a : Assembly) : Prop where
  program : WellFormedProgram a.records.toList
  start : ∀ offset ∈ a.startOffset, offset ∈ recordStarts 0 a.records.toList
  rows : ∀ row ∈ a.rows.toList, Token.lineEnd ∉ row

theorem consistent_empty : Consistent {} :=
  ⟨⟨nofun, .nil⟩, nofun, nofun⟩

theorem programSize_eq (a : Assembly) : a.programSize = (programBytes a.records.toList).length := by
  rw [programSize, ← Array.foldl_toList]
  have hsum : ∀ (records : List LineRecord) (size : Nat),
      records.foldl (fun size r => size + r.size) size = size + (programBytes records).length := by
    intro records
    induction records with
    | nil => exact fun size => rfl
    | cons r records ih =>
      intro size
      rw [List.foldl_cons, ih, programBytes_cons, List.length_append, r.length_bytes, Nat.add_assoc]
  rw [hsum, Nat.zero_add]

theorem records_addRecord (a : Assembly) (r : LineRecord) :
    (a.addRecord r).records.toList = a.records.toList ++ [r] := by
  unfold addRecord
  split <;> simp

theorem start_addRecord {a : Assembly} {r : LineRecord}
    (h : ∀ offset ∈ a.startOffset, offset ∈ recordStarts 0 a.records.toList) :
    ∀ offset ∈ (a.addRecord r).startOffset, offset ∈ recordStarts 0 (a.addRecord r).records.toList := by
  intro offset hoffset
  rw [records_addRecord, recordStarts_append, List.mem_append]
  unfold addRecord at hoffset
  split at hoffset
  · right
    rw [← Option.mem_some.mp hoffset, programSize_eq]
    simp
  · exact .inl (h offset hoffset)

/-- A line is added to a program as one that goes on with a higher number. -/
theorem Consistent.addRecord {a : Assembly} (h : a.Consistent) {r : LineRecord} (hr : r.WellFormed)
    (hlast : ∀ n ∈ a.lastNumber, n < r.number) : (a.addRecord r).Consistent := by
  refine ⟨?_, start_addRecord h.start, ?_⟩
  · rw [records_addRecord]
    refine h.program.append hr ?_
    rwa [lastNumber, ← Array.getLast?_toList] at hlast
  · unfold Assembly.addRecord
    split <;> exact h.rows

/-- **What a step keeps.** -/
theorem Change.consistent {a a' : Assembly} (h : Change a a') (ha : a.Consistent) : a'.Consistent := by
  cases h with
  | none => exact ha
  | line hr hlast => exact ha.addRecord hr hlast
  | start | collapse | variableBytes | assign => exact ⟨ha.program, ha.start, ha.rows⟩
  | row hbytes =>
    refine ⟨ha.program, ha.start, fun row hrow => ?_⟩
    rw [Array.toList_push, List.mem_append, List.mem_singleton] at hrow
    rcases hrow with hrow | rfl
    · exact ha.rows row hrow
    · exact hbytes

/-- **What a listing keeps.** By induction on the run, with one step at a time. -/
theorem run_consistent (files : FileReader) (filename : List Char) {a : Assembly} (c : Cursor) (events : Journal)
    (h : a.Consistent) : (run files filename a c events).assembly.Consistent := by
  fun_induction run files filename a c events with
  | case1 a c events here hend =>
    unfold finish
    split <;> exact h
  | case2 a c events here hend item fault hnext => exact (step_change files filename a here).consistent h
  | case3 a c events here hend item next hnext hlt ih => exact ih ((step_change files filename a here).consistent h)

end Assembly

namespace Source

theorem collect_consistent (files : FileReader) (s : Source) : (s.collect files).assembly.Consistent :=
  Assembly.run_consistent files s.filename _ [] Assembly.consistent_empty

theorem encodeProgram_eq_ok_iff {files : FileReader} {s : Source} {program : List UInt8} :
    (s.encodeProgram files).result = .ok program ↔
      (s.collect files).fault = none ∧ (s.collect files).assembly.program = program := by
  unfold encodeProgram
  dsimp only
  split
  · next fault hfault => simp [hfault]
  · next hfault => simp [hfault]

/-- **Encoded programs.** The program of a listing is a row of records, whichever files it includes. Their
numbers rise and are not too high, each record counts the bytes of its payload, which starts with a
statement keyword and ends with the line end, and the records are found exactly where they start. -/
theorem encodeProgram_wellFormed (files : FileReader) (s : Source) {program : List UInt8}
    (h : (s.encodeProgram files).result = .ok program) :
    ∃ records, program = programBytes records ∧ WellFormedProgram records ∧
      (∀ r ∈ records, 2 ≤ r.payload.length ∧ r.payload.length ≤ 65535 ∧ r.StoredAs r.bytes) ∧
      Listing.recordOffsets program 0 = recordStarts 0 records := by
  obtain ⟨-, rfl⟩ := encodeProgram_eq_ok_iff.mp h
  have hprogram := (s.collect_consistent files).program
  refine ⟨_, rfl, hprogram, fun r hr => ?_, Listing.recordOffsets_programBytes hprogram 0⟩
  have hwell := hprogram.wellFormed r hr
  exact ⟨hwell.length_pos, hwell.length_le, hwell.storedAs_bytes⟩

theorem encodeProgram_sampleSource :
    (sampleSource.encodeProgram (fun _ => .error [])).result = .ok (programBytes sampleRecords) := by
  obtain ⟨events, hcollect⟩ := collect_sampleSource
  exact encodeProgram_eq_ok_iff.mpr (by rw [hcollect]; exact ⟨rfl, rfl⟩)

theorem encodeProgram_wellFormed_sample :
    (sampleSource.encodeProgram (fun _ => .error [])).result = .ok (programBytes sampleRecords) ∧
    ∃ records, programBytes sampleRecords = programBytes records ∧ WellFormedProgram records ∧
      (∀ r ∈ records, 2 ≤ r.payload.length ∧ r.payload.length ≤ 65535 ∧ r.StoredAs r.bytes) ∧
      Listing.recordOffsets (programBytes sampleRecords) 0 = recordStarts 0 records :=
  ⟨encodeProgram_sampleSource, encodeProgram_wellFormed _ _ encodeProgram_sampleSource⟩

end Source

end TapeBasic
