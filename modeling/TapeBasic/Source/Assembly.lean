import TapeBasic.Display
import TapeBasic.Source.Directive

/-!
# Collecting a listing (`encode_program`)

Reading a listing collects the records of its lines and what its directives say. The items of a
listing are read one after the other, with blanks, continuations and comments between them; the first
fault ends the reading, and what was collected before it is kept.

* `Assembly.step` reads one item and `Assembly.length_step_lt` says that it uses up text.
* `Assembly.run` reads a whole listing.
-/
namespace TapeBasic

/-- What has been collected from a listing. -/
structure Assembly where
  records : Array LineRecord := #[]
  /-- The line to start with, and the place of its directive, until that line has been reached. -/
  pendingStart : Option (Nat × Position) := none
  /-- How far into the program the line to start with is. -/
  startOffset : Option Nat := none
  rows : Array (List UInt8) := #[]
  collapsed : Bool := false
  variableBytes : Array UInt8 := #[]
  system : SystemVariables := SystemVariables.reset

/-- What reading an item has led to: a cursor behind the item, or a fault. -/
structure Step where
  assembly : Assembly
  events : Journal
  next : Except Fault Cursor

/-- What reading a listing has led to; a listing that was read to its end has no fault. -/
structure Pass where
  assembly : Assembly
  events : Journal
  fault : Option Fault

namespace Assembly

/-- The number of the last line. -/
def lastNumber (a : Assembly) : Option Nat := a.records.back?.map LineRecord.number

/-- The size of the program so far. -/
def programSize (a : Assembly) : Nat := a.records.foldl (fun size r => size + r.size) 0

/-- The bytes of the program so far. -/
def program (a : Assembly) : List UInt8 := programBytes a.records.toList

/-! ## Items -/

/-- Adds a line. The first line that is not below the line to start with is where the program starts. -/
def addRecord (a : Assembly) (r : LineRecord) : Assembly :=
  if a.pendingStart.any fun start => start.1 ≤ r.number then
    { a with records := a.records.push r, pendingStart := none, startOffset := some a.programSize }
  else { a with records := a.records.push r }

/-- Names the line to start with, which must be higher than the last line. -/
def nameStart (a : Assembly) (number : Nat) (place : Position) (c : Cursor) :
    Except Fault (Assembly × Journal) :=
  match a.lastNumber with
  | some last =>
    if number ≤ last then .error (c.faultAt place (.startNotHigher number last))
    else .ok ({ a with pendingStart := some (number, place) }, [.startNamed number])
  | none => .ok ({ a with pendingStart := some (number, place) }, [.startNamed number])

/-- The fault of a refused assignment. -/
def refusal (c : Cursor) (place : Position) (failure : SystemVariables.Failure) : Fault :=
  match failure with
  | .unresolved .badAddress => .numeralTooLong
  | .doesNotFit _ _ value => c.faultAbout place value.toNat (.variableRefused failure)
  | _ => c.faultAt place (.variableRefused failure)

/-- Sets a system variable. -/
def assign (a : Assembly) (name : List Char) (setting : SystemVariables.Setting) (place : Position)
    (c : Cursor) : Except Fault (Assembly × Journal) :=
  match a.system.set (.name name) setting with
  | .error failure => .error (refusal c place failure)
  | .ok system => .ok ({ a with system }, [.variableSet name setting])

/-- Does what a directive says. `place` is the start of the directive and `c` the cursor behind it. -/
def obey (a : Assembly) (place : Position) (c : Cursor) : Directive →
    Except Fault (Assembly × Journal)
  | .nothing => .ok (a, [])
  | .start number => a.nameStart number place c
  | .collapse => .ok ({ a with collapsed := true }, [])
  | .row bytes => .ok ({ a with rows := a.rows.push bytes }, [])
  | .variableBytes bytes => .ok ({ a with variableBytes := a.variableBytes ++ bytes }, [])
  | .assign name setting at_ => a.assign name setting at_ c

/-- Goes behind spacing, where the line must end. -/
def expectLineEnd (c : Cursor) : Except Fault Cursor :=
  let next := c.skipSpacing
  if next.peek == '\n' then .ok next else .error (next.fault .lineEndExpected)

/-- Reads a directive and does what it says. -/
def stepDirective (files : FileReader) (a : Assembly) (c : Cursor) : Step :=
  let reading := Directive.read files c
  match reading.result with
  | .error fault => ⟨a, reading.events, .error fault⟩
  | .ok (directive, behind) =>
    match a.obey c.position behind directive with
    | .error fault => ⟨a, reading.events, .error fault⟩
    | .ok (next, events) => ⟨next, reading.events ++ events, expectLineEnd behind⟩

/-- Reads a line and adds it. -/
def stepLine (files : FileReader) (filename : List Char) (a : Assembly) (c : Cursor) : Step :=
  let reading := Line.read files filename a.lastNumber c
  match reading.result with
  | .error fault => ⟨a, reading.events, .error fault⟩
  | .ok (record, next) => ⟨a.addRecord record, reading.events, .ok next⟩

/-- Whether a text starts with a directive. -/
def startsDirective : List Char → Bool
  | '#' :: '!' :: _ => true
  | _ => false

/-- Reads the directive or the line at the cursor. -/
def step (files : FileReader) (filename : List Char) (a : Assembly) (c : Cursor) : Step :=
  if startsDirective c.rest then stepDirective files a c else stepLine files filename a c

theorem length_expectLineEnd_le {c next : Cursor} (h : expectLineEnd c = .ok next) :
    next.rest.length ≤ c.rest.length := by
  unfold expectLineEnd at h
  simp only at h
  split at h
  · simp only [Except.ok.injEq] at h
    exact h ▸ c.length_skipSpacing_le
  · simp at h

theorem length_step_lt {files : FileReader} {filename : List Char} {a : Assembly} {c next : Cursor}
    (hc : c.rest ≠ []) (h : (step files filename a c).next = .ok next) :
    next.rest.length < c.rest.length := by
  unfold step at h
  split at h
  · unfold stepDirective at h
    simp only at h
    split at h
    · simp at h
    · next hread =>
      split at h
      · simp at h
      · exact Nat.lt_of_le_of_lt (length_expectLineEnd_le h) (Directive.length_read_lt hc hread)
  · unfold stepLine at h
    simp only at h
    split at h
    · simp at h
    · next hread =>
      simp only [Except.ok.injEq] at h
      exact h ▸ Line.length_read_lt hread

/-! ## Whole listings -/

/-- Closes a listing that was read to its end. -/
def finish (a : Assembly) (events : Journal) (c : Cursor) : Pass :=
  match a.pendingStart with
  | some (number, place) => ⟨a, events, some (c.faultAt place (.startNotFound number))⟩
  | none => ⟨a, events ++ [.programEncoded a.programSize events.warnings.length], none⟩

/-- Reads on to the end of a listing (`encode_program`). `events` holds the events so far. -/
def run (files : FileReader) (filename : List Char) (a : Assembly) (c : Cursor) (events : Journal) :
    Pass :=
  let here := c.skipGaps
  if hend : here.rest = [] then a.finish events here
  else
    let item := step files filename a here
    match hnext : item.next with
    | .error fault => ⟨item.assembly, events ++ item.events, some fault⟩
    | .ok next =>
      have : next.rest.length < c.rest.length :=
        Nat.lt_of_lt_of_le (length_step_lt hend hnext) c.length_skipGaps_le
      run files filename item.assembly next (events ++ item.events)
termination_by c.rest.length
decreasing_by assumption

end Assembly

end TapeBasic
