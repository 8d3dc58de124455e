import TapeBasic.Listing
import TapeBasic.Source.Line

/-!
# Stored programs

A program that the machine could hold is a row of records with rising numbers, each of which starts with
a statement keyword and ends with the line end.

* `LineRecord.WellFormed`, `WellFormedProgram`: such records and such programs.
* `LineRecord.Storable`: a record of any content that can be found again.
* `recordStarts`: the places at which the records of a program start.

Results:
* `head_storable`: a record is found at the start of its bytes, whatever follows them.
* `ofProgram_append`, `ofProgramFrom_programBytes`, `recordOffsets_programBytes`: a program is listed record by
  record, and its records are found at their places.
* `programBytes_injective`: the bytes of a program tell its records.
-/
namespace TapeBasic

/-- A record of a line that can be typed in: a number that is not too high, a statement keyword first and
a line end last, and no more bytes than a record can count. -/
structure LineRecord.WellFormed (r : LineRecord) : Prop where
  number_le : r.number ≤ maxLineNumber
  length_le : r.payload.length ≤ maxPayload
  command : r.payload.head?.any Token.isCommand = true
  lineEnd : r.payload.getLast? = some Token.lineEnd

/-- A record of any content: its number and its size fit into two bytes each, and there is something in it. -/
structure LineRecord.Storable (r : LineRecord) : Prop where
  number_lt : r.number < 65536
  length_pos : 0 < r.payload.length
  length_lt : r.payload.length < 65536

/-- Records with rising numbers. -/
structure WellFormedProgram (records : List LineRecord) : Prop where
  wellFormed : ∀ r ∈ records, r.WellFormed
  increasing : records.Pairwise fun r s => r.number < s.number

instance (r : LineRecord) : Decidable r.WellFormed :=
  decidable_of_iff (r.number ≤ maxLineNumber ∧ r.payload.length ≤ maxPayload ∧
      r.payload.head?.any Token.isCommand = true ∧ r.payload.getLast? = some Token.lineEnd)
    ⟨fun h => ⟨h.1, h.2.1, h.2.2.1, h.2.2.2⟩,
      fun h => ⟨h.number_le, h.length_le, h.command, h.lineEnd⟩⟩

instance (records : List LineRecord) : Decidable (WellFormedProgram records) :=
  decidable_of_iff ((∀ r ∈ records, r.WellFormed) ∧ records.Pairwise fun r s => r.number < s.number)
    ⟨fun h => ⟨h.1, h.2⟩, fun h => ⟨h.wellFormed, h.increasing⟩⟩

/-- The bytes are the number of a record, its high byte first, the size of the payload, its low byte first,
and the payload. -/
def LineRecord.StoredAs (r : LineRecord) (bytes : List UInt8) : Prop :=
  ∃ numberHigh numberLow lengthLow lengthHigh,
    bytes = numberHigh :: numberLow :: lengthLow :: lengthHigh :: r.payload ∧
      word numberHigh numberLow = r.number ∧ word lengthHigh lengthLow = r.payload.length

/-- The places at which records start, from an offset on. -/
def recordStarts (offset : Nat) : List LineRecord → List Nat
  | [] => []
  | r :: records => offset :: recordStarts (offset + r.size) records

/-! ## Words -/

theorem word_of_lt {n : Nat} (h : n < 65536) : word (UInt8.ofNat (n / 256)) (UInt8.ofNat n) = n := by
  simp only [word, UInt8.toNat_ofNat']
  omega

/-- Between the keyword and the line end there is the rest of the line. -/
theorem LineRecord.WellFormed.payload_eq {r : LineRecord} (h : r.WellFormed) :
    ∃ command body, r.payload = command :: (body ++ [Token.lineEnd]) ∧ Token.isCommand command = true := by
  obtain ⟨front, hfront⟩ := List.getLast?_eq_some_iff.mp h.lineEnd
  have hcommand := h.command
  cases front with
  | nil =>
    rw [hfront] at hcommand
    exact absurd hcommand (by decide)
  | cons command body =>
    rw [hfront] at hcommand ⊢
    exact ⟨command, body, rfl, hcommand⟩

theorem LineRecord.wellFormed_of_payload {number : Nat} {command : UInt8} {body : List UInt8}
    (hnumber : number ≤ maxLineNumber) (hcommand : Token.isCommand command = true)
    (hlength : (command :: (body ++ [Token.lineEnd])).length ≤ maxPayload) :
    (⟨number, command :: (body ++ [Token.lineEnd])⟩ : LineRecord).WellFormed :=
  ⟨hnumber, hlength, hcommand, by rw [← List.cons_append, List.getLast?_concat]⟩

theorem LineRecord.WellFormed.length_pos {r : LineRecord} (h : r.WellFormed) : 2 ≤ r.payload.length := by
  obtain ⟨command, body, hpayload, -⟩ := h.payload_eq
  rw [hpayload]
  simp

theorem LineRecord.Storable.storedAs_bytes {r : LineRecord} (h : r.Storable) : r.StoredAs r.bytes :=
  ⟨_, _, _, _, rfl, word_of_lt h.number_lt, word_of_lt h.length_lt⟩

theorem LineRecord.WellFormed.storable {r : LineRecord} (h : r.WellFormed) : r.Storable :=
  ⟨Nat.lt_of_le_of_lt h.number_le (by decide), Nat.lt_of_lt_of_le (by decide) h.length_pos,
    Nat.lt_of_le_of_lt h.length_le (by decide)⟩

theorem LineRecord.WellFormed.storedAs_bytes {r : LineRecord} (h : r.WellFormed) : r.StoredAs r.bytes :=
  h.storable.storedAs_bytes

/-! ## Records in a row -/

theorem programBytes_cons (r : LineRecord) (records : List LineRecord) :
    programBytes (r :: records) = r.bytes ++ programBytes records := rfl

theorem programBytes_append (records others : List LineRecord) :
    programBytes (records ++ others) = programBytes records ++ programBytes others :=
  List.flatMap_append

/-- In front of the place of a record there are the records before it. -/
theorem exists_of_mem_recordStarts {records : List LineRecord} {offset n : Nat}
    (h : n ∈ recordStarts offset records) :
    ∃ front r back, records = front ++ r :: back ∧ n = offset + (programBytes front).length := by
  induction records generalizing offset with
  | nil => cases h
  | cons s records ih =>
    rcases List.mem_cons.mp h with rfl | h
    · exact ⟨[], s, records, rfl, rfl⟩
    · obtain ⟨front, r, back, rfl, rfl⟩ := ih h
      refine ⟨s :: front, r, back, rfl, ?_⟩
      rw [programBytes_cons, List.length_append, s.length_bytes, Nat.add_assoc]

theorem WellFormedProgram.tail {r : LineRecord} {records : List LineRecord}
    (h : WellFormedProgram (r :: records)) : WellFormedProgram records :=
  ⟨fun s hs => h.wellFormed s (List.mem_cons_of_mem _ hs), (List.pairwise_cons.mp h.increasing).2⟩

namespace Listing

/-- **A record.** It is found at the start of its bytes, whatever follows them. -/
theorem head_storable {r : LineRecord} (h : r.Storable) (rest : List UInt8) :
    head (r.bytes ++ rest) = .whole r.number r.payload rest := by
  obtain ⟨numberHigh, numberLow, lengthLow, lengthHigh, hbytes, hnumber, hlength⟩ := h.storedAs_bytes
  obtain ⟨b, body, hpayload⟩ := List.exists_cons_of_length_pos h.length_pos
  have hcons : r.bytes ++ rest = numberHigh :: numberLow :: lengthLow :: lengthHigh :: b :: (body ++ rest) := by
    simp [hbytes, hpayload]
  have hrest : b :: (body ++ rest) = r.payload ++ rest := by
    rw [hpayload, List.cons_append]
  rw [hcons, head, hnumber, hlength, hrest, List.take_left, List.drop_left, if_neg (Nat.lt_irrefl _)]

theorem head_bytes {r : LineRecord} (h : r.WellFormed) (rest : List UInt8) :
    head (r.bytes ++ rest) = .whole r.number r.payload rest := head_storable h.storable rest

theorem ofProgramFrom_whole {bracketed : Bool} {bytes payload rest : List UInt8} {number : Nat}
    {done : List Entry} (h : head bytes = .whole number payload rest) :
    ofProgramFrom bracketed bytes done =
      ofProgramFrom bracketed rest (entry bracketed number payload :: done) := by
  rw [ofProgramFrom]
  split <;> simp_all

theorem recordOffsets_whole {bytes payload rest : List UInt8} {number offset : Nat}
    (h : head bytes = .whole number payload rest) :
    recordOffsets bytes offset = offset :: recordOffsets rest (offset + 4 + payload.length) := by
  rw [recordOffsets]
  split <;> simp_all

/-- The first entries stay in front. -/
theorem ofProgramFrom_append (bracketed : Bool) (bytes : List UInt8) (done first : List Entry) :
    ofProgramFrom bracketed bytes (done ++ first) = first.reverse ++ ofProgramFrom bracketed bytes done := by
  fun_induction ofProgramFrom bracketed bytes done with
  | case1 bytes done number payload rest hhead _ ih =>
    rw [ofProgramFrom_whole hhead]
    exact ih
  | case2 bytes done number length remaining hhead =>
    rw [ofProgramFrom]
    split <;> simp_all
  | case3 bytes done hhead =>
    rw [ofProgramFrom]
    split
    · next heq => cases hhead.symm.trans heq
    · next heq => cases hhead.symm.trans heq
    · split <;> simp

theorem ofProgramFrom_eq (bracketed : Bool) (bytes : List UInt8) (done : List Entry) :
    ofProgramFrom bracketed bytes done = done.reverse ++ ofProgram bracketed bytes :=
  ofProgramFrom_append bracketed bytes [] done

/-- **Records in a row.** They are listed one by one, in front of what is behind them. -/
theorem ofProgram_append (bracketed : Bool) {records : List LineRecord} (h : ∀ r ∈ records, r.Storable)
    (rest : List UInt8) : ofProgram bracketed (programBytes records ++ rest) =
      (records.map fun r => entry bracketed r.number r.payload) ++ ofProgram bracketed rest := by
  induction records with
  | nil => rfl
  | cons r records ih =>
    obtain ⟨hr, hrecords⟩ := List.forall_mem_cons.mp h
    rw [programBytes_cons, List.append_assoc, ofProgram, ofProgramFrom_whole (head_storable hr _), ofProgramFrom_eq,
      ih hrecords]
    rfl

theorem ofProgram_nil (bracketed : Bool) : ofProgram bracketed [] = [] := by
  have hhead : head [] = .short := rfl
  rw [ofProgram, ofProgramFrom]
  split
  · next heq => cases hhead.symm.trans heq
  · next heq => cases hhead.symm.trans heq
  · rfl

/-- A program is listed record by record. -/
theorem ofProgramFrom_programBytes (bracketed : Bool) {records : List LineRecord}
    (h : WellFormedProgram records) (done : List Entry) :
    ofProgramFrom bracketed (programBytes records) done =
      done.reverse ++ records.map fun r => entry bracketed r.number r.payload := by
  have hrow := ofProgram_append bracketed (fun r hr => (h.wellFormed r hr).storable) []
  rw [List.append_nil, ofProgram_nil, List.append_nil] at hrow
  rw [ofProgramFrom_eq, hrow]

/-- **The places of records.** Looking for records finds those of the program. -/
theorem recordOffsets_programBytes {records : List LineRecord} (h : WellFormedProgram records)
    (offset : Nat) : recordOffsets (programBytes records) offset = recordStarts offset records := by
  induction records generalizing offset with
  | nil =>
    rw [recordOffsets]
    rfl
  | cons r records ih =>
    have hhead := head_bytes (h.wellFormed r List.mem_cons_self) (programBytes records)
    rw [programBytes_cons, recordOffsets_whole hhead, ih h.tail, recordStarts, LineRecord.size,
      Nat.add_assoc]

end Listing

/-- The bytes of a program tell its records. -/
theorem programBytes_injective {records others : List LineRecord} (h : WellFormedProgram records)
    (h' : WellFormedProgram others) (heq : programBytes records = programBytes others) :
    records = others := by
  induction records generalizing others with
  | nil =>
    cases others with
    | nil => rfl
    | cons s others => simp [programBytes, LineRecord.bytes, highLow] at heq
  | cons r records ih =>
    cases others with
    | nil => simp [programBytes, LineRecord.bytes, highLow] at heq
    | cons s others =>
      have hr := Listing.head_bytes (h.wellFormed r List.mem_cons_self) (programBytes records)
      have hs := Listing.head_bytes (h'.wellFormed s List.mem_cons_self) (programBytes others)
      rw [programBytes_cons, programBytes_cons] at heq
      rw [heq, hs, Listing.Head.whole.injEq] at hr
      obtain ⟨hnumber, hpayload, hrest⟩ := hr
      rw [ih h.tail h'.tail hrest.symm]
      cases r
      cases s
      simp_all

end TapeBasic
