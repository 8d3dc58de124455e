import TapeBasic.Command.Info
import TapeBasic.Proofs.HeaderLines
import TapeBasic.Proofs.StoredPrograms

/-!
# Two walks from record to record

The line to start with is looked up twice: `Image.lineNumberAt?` looks among the whole records for the one at a place,
and `Command.lineAt?` goes from record to record until it is there. The second walk does not see whether the last record
is whole: where a program ends with four bytes that are no record, or with a record longer than the bytes that are left,
it gives the number in front of these bytes. Everywhere else the two agree.

* `Listing.wholeSize bytes`: how many bytes the whole records at the start of some bytes take.
* `Image.StartsCutShort i`: the line to run next is a record that is cut short.

Results:
* `Command.lineAt?_eq`: what the second walk finds, by what the first one finds.
* `Command.autostart_agrees_iff`: the line that is shown as the line to start with is the one that the header names,
  unless it is cut short.
* `Command.autostart_disagrees`: an image with such a line.
-/
namespace TapeBasic

open SystemVariables (blockSize)

namespace Listing

/-! ## Whole records -/

/-- How many bytes the whole records at the start of some bytes take. -/
def wholeSize (bytes : List UInt8) : Nat :=
  match h : head bytes with
  | .whole _ payload rest =>
    have := length_rest_of_head h
    4 + payload.length + wholeSize rest
  | .overrun .. => 0
  | .short => 0
termination_by bytes.length

/-- The number in front of a record, of which there may be no more than its first four bytes. -/
def frontNumber? : List UInt8 → Option Nat
  | high :: low :: _ :: _ :: _ => some (word high low)
  | _ => none

variable {bytes payload rest : List UInt8} {number : Nat}

theorem exists_front (h : 4 ≤ bytes.length) :
    ∃ numberHigh numberLow lengthLow lengthHigh more,
      bytes = numberHigh :: numberLow :: lengthLow :: lengthHigh :: more := by
  match bytes, h with
  | numberHigh :: numberLow :: lengthLow :: lengthHigh :: more, _ =>
    exact ⟨numberHigh, numberLow, lengthLow, lengthHigh, more, rfl⟩

theorem frontNumber?_of_short (h : bytes.length < 4) : frontNumber? bytes = none := by
  unfold frontNumber?
  split
  · simp only [List.length_cons] at h
    omega
  · rfl

/-- The bytes of a whole record. -/
theorem bytes_of_head (h : head bytes = .whole number payload rest) :
    ∃ numberHigh numberLow lengthLow lengthHigh,
      bytes = numberHigh :: numberLow :: lengthLow :: lengthHigh :: (payload ++ rest) ∧
      number = word numberHigh numberLow ∧ payload.length = word lengthHigh lengthLow := by
  unfold head at h
  split at h
  · next numberHigh numberLow lengthLow lengthHigh b more =>
    dsimp only at h
    split at h
    · cases h
    · next hle =>
      rw [Head.whole.injEq] at h
      obtain ⟨hnumber, hpayload, hrest⟩ := h
      refine ⟨numberHigh, numberLow, lengthLow, lengthHigh, ?_, hnumber.symm, ?_⟩
      · rw [← hpayload, ← hrest, List.take_append_drop]
      · rw [← hpayload]
        exact Nat.le_antisymm (List.length_take_le ..) (Nat.le_of_not_lt hle)
  · cases h

theorem drop_of_head (h : head bytes = .whole number payload rest) (n : Nat) :
    bytes.drop (4 + payload.length + n) = rest.drop n := by
  obtain ⟨numberHigh, numberLow, lengthLow, lengthHigh, rfl, -, -⟩ := bytes_of_head h
  have hplace : 4 + payload.length + n = payload.length + n + 4 := by omega
  rw [hplace, List.drop_succ_cons, List.drop_succ_cons, List.drop_succ_cons, List.drop_succ_cons,
    List.drop_length_add_append]

/-- Where there is no whole record, nothing is left behind the bytes that the front of a record asks for. -/
theorem drop_of_no_whole {numberHigh numberLow lengthLow lengthHigh : UInt8}
    (h : ∀ number payload rest,
      head (numberHigh :: numberLow :: lengthLow :: lengthHigh :: bytes) ≠ .whole number payload rest) :
    bytes.drop (word lengthHigh lengthLow) = [] := by
  cases bytes with
  | nil => exact List.drop_nil
  | cons b bytes =>
    refine List.drop_eq_nil_of_le (Nat.le_of_not_lt fun hlt => ?_)
    have hfull : ¬((b :: bytes).take (word lengthHigh lengthLow)).length < word lengthHigh lengthLow := by
      rw [List.length_take_of_le (Nat.le_of_lt hlt)]
      exact Nat.lt_irrefl _
    exact h _ _ _ (if_neg hfull)

theorem recordOffsets_of_no_whole (h : ∀ number payload rest, head bytes ≠ .whole number payload rest)
    (offset : Nat) :
    recordOffsets bytes offset = [] := by
  rw [recordOffsets]
  split
  · next heq => exact absurd heq (h _ _ _)
  · rfl
  · rfl

/-- The places of records are counted from the place of the first one. -/
theorem recordOffsets_add (bytes : List UInt8) (offset more : Nat) :
    recordOffsets bytes (offset + more) = (recordOffsets bytes offset).map (· + more) := by
  fun_induction recordOffsets bytes offset with
  | case1 bytes offset number payload rest hhead _ ih =>
    have hplace : offset + more + 4 + payload.length = offset + 4 + payload.length + more := by omega
    rw [recordOffsets_whole hhead, hplace, ih, List.map_cons]
  | case2 bytes offset number length remaining hhead =>
    rw [recordOffsets_of_no_whole (by simp [hhead]), List.map_nil]
  | case3 bytes offset hhead => rw [recordOffsets_of_no_whole (by simp [hhead]), List.map_nil]

end Listing

open Listing

/-! ## The walk over the places of records -/

namespace Image

variable {bytes payload rest : List UInt8} {number : Nat}

/-- A record is at its own place, and the others are behind it. -/
theorem lineNumberAt?_whole (h : head bytes = .whole number payload rest) (offset : Int) :
    lineNumberAt? bytes offset =
      if offset = 0 then some number else lineNumberAt? rest (offset - (4 + payload.length : Nat)) := by
  have hstarts : recordOffsets bytes 0 = 0 :: (recordOffsets rest 0).map (· + (4 + payload.length)) := by
    rw [recordOffsets_whole h, Nat.zero_add, ← recordOffsets_add rest 0, Nat.zero_add]
  split
  · next hzero =>
    obtain ⟨numberHigh, numberLow, lengthLow, lengthHigh, hbytes, hnumber, -⟩ := bytes_of_head h
    rw [lineNumberAt?, hzero, hstarts, if_pos (by simp), hbytes, hnumber]
    rfl
  · next hoffset =>
    have hiff : (0 ≤ offset ∧ offset.toNat ∈ recordOffsets bytes 0) ↔
        (0 ≤ offset - (4 + payload.length : Nat) ∧
          (offset - (4 + payload.length : Nat)).toNat ∈ recordOffsets rest 0) := by
      rw [hstarts, List.mem_cons, List.mem_map]
      constructor
      · rintro ⟨hle, hzero | ⟨place, hplace, heq⟩⟩
        · omega
        · have hback : (offset - (4 + payload.length : Nat)).toNat = place := by omega
          exact ⟨by omega, hback ▸ hplace⟩
      · rintro ⟨hle, hplace⟩
        exact ⟨by omega, .inr ⟨_, hplace, by omega⟩⟩
    unfold lineNumberAt?
    by_cases hplace : 0 ≤ offset - (4 + payload.length : Nat) ∧
        (offset - (4 + payload.length : Nat)).toNat ∈ recordOffsets rest 0
    · have hbehind : offset.toNat = 4 + payload.length + (offset - (4 + payload.length : Nat)).toNat := by omega
      rw [if_pos (by simpa using hiff.mpr hplace), if_pos (by simpa using hplace), hbehind, drop_of_head h]
    · rw [if_neg (by simpa using mt hiff.mp hplace), if_neg (by simpa using hplace)]

theorem lineNumberAt?_of_no_whole (h : ∀ number payload rest, head bytes ≠ .whole number payload rest)
    (offset : Int) :
    lineNumberAt? bytes offset = none := by
  rw [lineNumberAt?, recordOffsets_of_no_whole h, if_neg (by simp)]

/-- No record starts behind the whole records. By induction on them. -/
theorem lineNumberAt?_wholeSize (bytes : List UInt8) : lineNumberAt? bytes (wholeSize bytes) = none := by
  fun_induction wholeSize bytes with
  | case1 bytes number payload rest hhead _ ih =>
    have hbehind : ((4 + payload.length + wholeSize rest : Nat) : Int) - (4 + payload.length : Nat) =
        wholeSize rest := by
      omega
    rw [lineNumberAt?_whole hhead, if_neg (by omega), hbehind, ih]
  | case2 bytes number length remaining hhead => exact lineNumberAt?_of_no_whole (by simp [hhead]) _
  | case3 bytes hhead => exact lineNumberAt?_of_no_whole (by simp [hhead]) _

/-! ## Records cut short -/

/-- The line to run next is a record that is cut short: it is behind the whole records, where the first four bytes of a
record are left, but not the bytes that these ask for. -/
def StartsCutShort (i : Image) : Prop :=
  i.nextLineOffset = wholeSize i.program ∧ wholeSize i.program + 4 ≤ i.program.length

end Image

/-! ## The walk from record to record -/

namespace Command

variable {bytes payload rest : List UInt8} {number : Nat}

theorem lineAt?_whole (h : head bytes = .whole number payload rest) (offset : Int) :
    lineAt? bytes offset =
      if offset = 0 then some number else lineAt? rest (offset - (4 + payload.length : Nat)) := by
  obtain ⟨numberHigh, numberLow, lengthLow, lengthHigh, rfl, rfl, hlength⟩ := bytes_of_head h
  rw [lineAt?, ← hlength]
  simp only [beq_iff_eq, List.drop_left]

theorem lineAt?_of_short (h : bytes.length < 4) (offset : Int) : lineAt? bytes offset = none := by
  unfold lineAt?
  split
  · simp only [List.length_cons] at h
    omega
  · rfl

/-- Where there is no whole record, the walk stops at its start at most. -/
theorem lineAt?_of_no_whole (h : ∀ number payload rest, head bytes ≠ .whole number payload rest) (offset : Int) :
    lineAt? bytes offset = if offset = 0 then frontNumber? bytes else none := by
  by_cases hlength : bytes.length < 4
  · rw [lineAt?_of_short hlength, frontNumber?_of_short hlength, ite_self]
  · obtain ⟨numberHigh, numberLow, lengthLow, lengthHigh, more, rfl⟩ := exists_front (Nat.le_of_not_lt hlength)
    have hover : more.drop (word lengthHigh lengthLow) = [] := drop_of_no_whole h
    rw [lineAt?]
    simp only [beq_iff_eq, hover, lineAt?_of_short (show [].length < 4 by decide)]
    rfl

/-- **What the walk finds.** It is the line that the other walk finds, but behind the whole records it is the number in
front of the bytes that are left. By induction on the whole records. -/
theorem lineAt?_eq (bytes : List UInt8) (offset : Int) :
    lineAt? bytes offset =
      if offset = wholeSize bytes then frontNumber? (bytes.drop (wholeSize bytes))
      else Image.lineNumberAt? bytes offset := by
  fun_induction wholeSize bytes generalizing offset with
  | case1 bytes number payload rest hhead _ ih =>
    rw [lineAt?_whole hhead, Image.lineNumberAt?_whole hhead, ih, drop_of_head hhead]
    by_cases hzero : offset = 0
    · rw [if_pos hzero, if_neg (by omega), if_pos hzero]
    · have hplace : offset - (4 + payload.length : Nat) = wholeSize rest ↔
          offset = (4 + payload.length + wholeSize rest : Nat) := by omega
      simp only [if_neg hzero, hplace]
  | case2 bytes number length remaining hhead =>
    rw [lineAt?_of_no_whole (by simp [hhead]), Image.lineNumberAt?_of_no_whole (by simp [hhead])]
    rfl
  | case3 bytes hhead =>
    rw [lineAt?_of_no_whole (by simp [hhead]), Image.lineNumberAt?_of_no_whole (by simp [hhead])]
    rfl

/-! ## The line to start with -/

/-- What was found agrees with what is shown: a number with the line that names it, and no number with a note. -/
structure Agrees (found : Option Nat) (shown : List (List Char)) : Prop where
  number : ∀ n, found = some n ↔ Image.startLine n ∈ shown
  note : found = none ↔ ∃ line ∈ shown, "# Note: NXTLIN".toList <+: line

theorem Agrees.unique {found other : Option Nat} {shown : List (List Char)} (h : Agrees found shown)
    (hother : Agrees other shown) : found = other :=
  Option.ext fun n => (h.number n).trans (hother.number n).symm

variable {i : Image}

/-- The lines of a header agree with the walk over the places of records. -/
theorem agrees_header (h : i.nextLineAddress ≠ i.displayAddress) (style : Image.Style) :
    Agrees (Image.lineNumberAt? i.program i.nextLineOffset) (Image.lines (i.header style)) := by
  cases hfound : Image.lineNumberAt? i.program i.nextLineOffset with
  | some number =>
    have hlines := Image.startLines_of_number h hfound style
    refine ⟨fun n => ?_, iff_of_false nofun ?_⟩
    · rw [← Image.mem_startLines (Image.tellsStart_startLine n), hlines, List.mem_singleton, Image.startLine_inj,
        Option.some_inj, eq_comm]
    · rintro ⟨line, hline, hnote⟩
      rw [← Image.mem_startLines (Image.tellsStart_note hnote), hlines, List.mem_singleton] at hline
      exact Image.startLine_not_note number (hline ▸ hnote)
  | none =>
    obtain ⟨note, hlines, hnote⟩ := Image.startLines_of_none h hfound style
    have hmem : note ∈ Image.lines (i.header style) := by
      rw [← Image.mem_startLines (Image.tellsStart_note hnote), hlines]
      exact List.mem_singleton_self note
    refine ⟨fun n => iff_of_false nofun fun hline => ?_, iff_of_true rfl ⟨note, hmem, hnote⟩⟩
    rw [← Image.mem_startLines (Image.tellsStart_startLine n), hlines, List.mem_singleton] at hline
    exact Image.startLine_not_note n (hline ▸ hnote)

/-- The two walks find the same line, unless it is cut short. -/
theorem lineAt?_of_not_cut (h : ¬i.StartsCutShort) :
    lineAt? i.program i.nextLineOffset = Image.lineNumberAt? i.program i.nextLineOffset := by
  rw [lineAt?_eq]
  split
  · next hplace =>
    have hlength : (i.program.drop (wholeSize i.program)).length < 4 := by
      have hshort : ¬wholeSize i.program + 4 ≤ i.program.length := fun hle => h ⟨hplace, hle⟩
      rw [List.length_drop]
      omega
    rw [hplace, Image.lineNumberAt?_wholeSize, frontNumber?_of_short hlength]
  · rfl

/-- A line that is cut short is found by the walk from record to record only. -/
theorem lineAt?_of_cut (h : i.StartsCutShort) :
    Image.lineNumberAt? i.program i.nextLineOffset = none ∧
    ∃ number, frontNumber? (i.program.drop (wholeSize i.program)) = some number ∧
      lineAt? i.program i.nextLineOffset = some number := by
  obtain ⟨hplace, hle⟩ := h
  have hleft : 4 ≤ (i.program.drop (wholeSize i.program)).length := by
    rw [List.length_drop]
    omega
  obtain ⟨numberHigh, numberLow, lengthLow, lengthHigh, more, hfront⟩ := exists_front hleft
  rw [lineAt?_eq, if_pos hplace, hplace, hfront]
  exact ⟨Image.lineNumberAt?_wholeSize _, word numberHigh numberLow, rfl, rfl⟩

/-- **The line to start with.** Let some bytes be long enough for an image in which the line to run next is not the end
of the program. What is shown as the line to start with agrees with the header, whatever the program holds, exactly if
that line is not a record cut short. For such a record the number in front of it is shown, and the header has a note
that no line starts there and names none. -/
theorem autostart_agrees_iff {data : List UInt8} (h : blockSize ≤ data.length) (style : Image.Style) :
    ∃ i, Image.split data = .ok i ∧ (i.nextLineAddress ≠ i.displayAddress →
      let found := lineAt? i.program i.nextLineOffset
      let shown := Image.lines (Image.decodeHeader style data)
      (Agrees found shown ↔ ¬i.StartsCutShort) ∧
      (i.StartsCutShort → Agrees none shown ∧
        ∃ number, frontNumber? (i.program.drop (wholeSize i.program)) = some number ∧ found = some number)) := by
  obtain ⟨i, hsplit⟩ := Image.exists_split h
  have hheader : Image.decodeHeader style data = i.header style := by rw [Image.decodeHeader, hsplit]
  refine ⟨i, hsplit, fun hdiffer => ?_⟩
  rw [hheader]
  intro found shown
  have hagrees : Agrees (Image.lineNumberAt? i.program i.nextLineOffset) shown := agrees_header hdiffer style
  refine ⟨⟨fun hfound hcut => ?_, fun hwhole => ?_⟩, fun hcut => ?_⟩
  · obtain ⟨hnone, number, -, hnumber⟩ := lineAt?_of_cut hcut
    have heq : some number = none := hnumber.symm.trans ((hfound.unique hagrees).trans hnone)
    cases heq
  · have heq : found = Image.lineNumberAt? i.program i.nextLineOffset := lineAt?_of_not_cut hwhole
    rwa [heq]
  · obtain ⟨hnone, hnumber⟩ := lineAt?_of_cut hcut
    exact ⟨hnone ▸ hagrees, hnumber⟩

/-- An image whose program is one record with the number 10, a length and these bytes, and runs by itself from it on. -/
def startedImage (length : UInt8) (payload : List UInt8) : List UInt8 :=
  (SystemVariables.reset.setLayout
    { displayFile := 0x4083, variableArea := 0x409C, editLine := 0x409D, nextLine := 0x407D }).1.image ++
    [0x00, 0x0A, length, 0x00] ++ payload ++ List.replicate 25 0x76 ++ [0x80]

/-- The parts of such an image that the line to start with is about. -/
theorem started_of_split {data program : List UInt8} (hsplit : Image.split data = .ok i)
    (h : (Image.split data).map (fun i => (i.program, i.nextLineAddress, i.displayAddress)) =
      .ok (program, 0x407D, 0x4083)) :
    i.program = program ∧ i.nextLineOffset = 0 ∧ i.nextLineAddress ≠ i.displayAddress := by
  rw [hsplit] at h
  obtain ⟨hprogram, haddresses⟩ := Prod.mk.inj (Except.ok.inj h)
  obtain ⟨hnext, hdisplay⟩ := Prod.mk.inj haddresses
  refine ⟨hprogram, ?_, ?_⟩
  · rw [Image.nextLineOffset, hnext]
    rfl
  · rw [hnext, hdisplay]
    decide

theorem autostart_agrees_iff_sample :
    blockSize ≤ (startedImage 2 [0xF5, 0x76]).length ∧
      ∃ i, Image.split (startedImage 2 [0xF5, 0x76]) = .ok i ∧ i.nextLineAddress ≠ i.displayAddress ∧
        lineAt? i.program i.nextLineOffset = some 10 ∧
        Agrees (lineAt? i.program i.nextLineOffset)
          (Image.lines (Image.decodeHeader {} (startedImage 2 [0xF5, 0x76]))) := by
  have hlength : blockSize ≤ (startedImage 2 [0xF5, 0x76]).length := by decide +kernel
  have hareas : (Image.split (startedImage 2 [0xF5, 0x76])).map
      (fun i => (i.program, i.nextLineAddress, i.displayAddress)) =
      .ok ([0x00, 0x0A, 0x02, 0x00, 0xF5, 0x76], 0x407D, 0x4083) := by decide +kernel
  obtain ⟨i, hsplit, hiff⟩ := autostart_agrees_iff hlength {}
  obtain ⟨hprogram, hoffset, hdiffer⟩ := started_of_split hsplit hareas
  have hfound : lineAt? i.program i.nextLineOffset = some 10 := by
    rw [hprogram, hoffset, lineAt?]
    rfl
  refine ⟨hlength, i, hsplit, hdiffer, hfound, (hiff hdiffer).1.mpr fun hcut => ?_⟩
  have hsize : wholeSize [0x00, 0x0A, 0x02, 0x00, 0xF5, 0x76] = 6 := by decide +kernel
  rw [Image.StartsCutShort, hprogram, hsize] at hcut
  exact absurd hcut.2 (by decide)

/-- **A line that is cut short.** The record with the number 10 asks for more bytes than the program has: 10 is found,
and the header does not name it. -/
theorem autostart_disagrees :
    blockSize ≤ (startedImage 5 [0xF5, 0x76]).length ∧
      ∃ i, Image.split (startedImage 5 [0xF5, 0x76]) = .ok i ∧ i.nextLineAddress ≠ i.displayAddress ∧
        lineAt? i.program i.nextLineOffset = some 10 ∧
        ¬Agrees (lineAt? i.program i.nextLineOffset)
          (Image.lines (Image.decodeHeader {} (startedImage 5 [0xF5, 0x76]))) := by
  have hlength : blockSize ≤ (startedImage 5 [0xF5, 0x76]).length := by decide +kernel
  have hareas : (Image.split (startedImage 5 [0xF5, 0x76])).map
      (fun i => (i.program, i.nextLineAddress, i.displayAddress)) =
      .ok ([0x00, 0x0A, 0x05, 0x00, 0xF5, 0x76], 0x407D, 0x4083) := by decide +kernel
  have hunnamed : Image.startLine 10 ∉ Image.lines (Image.decodeHeader {} (startedImage 5 [0xF5, 0x76])) := by
    decide +kernel
  obtain ⟨i, hsplit⟩ := Image.exists_split hlength
  obtain ⟨hprogram, hoffset, hdiffer⟩ := started_of_split hsplit hareas
  have hfound : lineAt? i.program i.nextLineOffset = some 10 := by
    rw [hprogram, hoffset, lineAt?]
    rfl
  exact ⟨hlength, i, hsplit, hdiffer, hfound, fun hagrees => hunnamed ((hagrees.number 10).mp hfound)⟩

end Command

end TapeBasic
