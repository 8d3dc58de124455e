import TapeBasic.Proofs.HeaderLines
import TapeBasic.Proofs.JoinedListings

/-!
# The line that an image starts with

Directives for the line to start with can stand anywhere between the lines of a listing, and only the last one counts:
one that has not been reached is replaced, and one that has been reached as well. The program starts at the first of all
its lines that is not below the number of the last directive. Such a line there is, for otherwise there is no program.

* `Source.starts files s`: the numbers that the directives of a listing give for the line to start with.
* `Assembly.StartsAt a last`: what has been collected about the line to start with, where `last` is the number of the
  last directive.

Results:
* `Assembly.StartsAt.add?`, `Assembly.StartsAt.foldlM`: each item keeps it, and so does a row of items.
* `Source.encodeImage_starts`: where the program of an image starts, and what its header says about it.
-/
namespace TapeBasic

open SystemVariables (programAddress)

/-! ## Directives for the line to start with -/

/-- The number that an item gives for the line to start with. -/
def Item.start? : Item → Option Nat
  | .header (.start number) => some number
  | _ => none

/-- The numbers that the directives of a listing give for the line to start with, in their order. -/
def Source.starts (files : FileReader) (s : Source) : List Nat :=
  (s.items files).filterMap fun item => (Item.ofText? files s.filename item).bind Item.start?

namespace Assembly

variable {files : FileReader} {filename : List Char} {a b : Assembly} {x : Item} {last : Option Nat}

/-! ## Rising numbers -/

/-- The line numbers rise. -/
def Rising (a : Assembly) : Prop := a.records.toList.Pairwise fun r s => r.number < s.number

/-- A number above the last one is above all. -/
theorem Rising.lt_of_last (h : a.Rising) {n : Nat} (hlast : a.lastNumber.all (· < n) = true) :
    ∀ r ∈ a.records.toList, r.number < n := by
  intro r hr
  obtain ⟨front, s, hrecords⟩ := (List.eq_nil_or_concat' a.records.toList).resolve_left (List.ne_nil_of_mem hr)
  have hs : s.number < n := by
    have hback : a.lastNumber = some s.number := by
      rw [lastNumber, ← Array.getLast?_toList, hrecords, List.getLast?_concat]
      rfl
    simpa [hback] using hlast
  rw [Rising, hrecords] at h
  rw [hrecords] at hr
  rcases List.mem_append.mp hr with hfront | hmem
  · exact Nat.lt_trans ((List.pairwise_append.mp h).2.2 r hfront s (List.mem_singleton_self s)) hs
  · exact List.mem_singleton.mp hmem ▸ hs

theorem Rising.add? (h : a.Rising) (hadd : a.add? x = some b) : b.Rising := by
  cases hx : x.number? with
  | none =>
    obtain ⟨b', hadd', hpart⟩ := add?_of_number? hx hadd a
    obtain rfl : b = b' := Option.some.inj (hadd.symm.trans hadd')
    have hrecords : b.records = a.records := congrArg ProgramPart.records hpart
    rwa [Rising, hrecords]
  | some n =>
    match x, hx with
    | .line r, rfl =>
      rw [Assembly.add?] at hadd
      split at hadd
      · next hlast =>
        cases hadd
        rw [Rising, records_addRecord]
        refine List.pairwise_append.mpr ⟨h, List.pairwise_singleton _ _, fun s hs t ht => ?_⟩
        exact List.mem_singleton.mp ht ▸ h.lt_of_last hlast s hs
      · cases hadd
    | .header (.start n), rfl =>
      rw [add?_nameStart] at hadd
      split at hadd
      · cases hadd
        exact h
      · cases hadd

/-! ## Where the program starts -/

/-- What has been collected about the line to start with, where the last directive gives a number or there is none. -/
inductive StartsAt (a : Assembly) : Option Nat → Prop where
  /-- No directive names a line. -/
  | unnamed (pending : a.pendingStart = none) (offset : a.startOffset = none) : StartsAt a none
  /-- The line is still to come: all lines so far are below it. -/
  | ahead {n : Nat} {place : Position} (pending : a.pendingStart = some (n, place))
      (below : ∀ r ∈ a.records.toList, r.number < n) : StartsAt a (some n)
  /-- The line is the first one that is not below the number. -/
  | reached {n : Nat} {front : List LineRecord} {r : LineRecord} {back : List LineRecord}
      (pending : a.pendingStart = none) (records : a.records.toList = front ++ r :: back)
      (below : ∀ s ∈ front, s.number < n) (number : n ≤ r.number)
      (offset : a.startOffset = some (programBytes front).length) : StartsAt a (some n)

/-- Nothing else matters for the line to start with. -/
theorem StartsAt.congr (h : a.StartsAt last) (hpart : b.programPart = a.programPart) : b.StartsAt last := by
  have hrecords : b.records = a.records := congrArg ProgramPart.records hpart
  have hpending : b.pendingStart = a.pendingStart := congrArg ProgramPart.pendingStart hpart
  have hoffset : b.startOffset = a.startOffset := congrArg ProgramPart.startOffset hpart
  cases h with
  | unnamed pending offset => exact .unnamed (hpending.trans pending) (hoffset.trans offset)
  | ahead pending below => exact .ahead (hpending.trans pending) (hrecords ▸ below)
  | reached pending records below number offset =>
    exact .reached (hpending.trans pending) (hrecords ▸ records) below number (hoffset.trans offset)

/-- A line is added behind the line to start with, or it is this line, or it is below it. -/
theorem StartsAt.addRecord (h : a.StartsAt last) (r : LineRecord) : (a.addRecord r).StartsAt last := by
  have hrecords := a.records_addRecord r
  cases h with
  | unnamed pending offset =>
    have hadd : a.addRecord r = { a with records := a.records.push r } := by
      rw [Assembly.addRecord, pending]
      rfl
    exact .unnamed (by rw [hadd]; exact pending) (by rw [hadd]; exact offset)
  | @ahead n place pending below =>
    by_cases hle : n ≤ r.number
    · have hadd : a.addRecord r =
          { a with records := a.records.push r, pendingStart := none, startOffset := some a.programSize } := by
        rw [Assembly.addRecord, pending, if_pos (by simpa using hle)]
      refine .reached (by rw [hadd]) hrecords below hle ?_
      rw [hadd, programSize_eq]
    · have hadd : a.addRecord r = { a with records := a.records.push r } := by
        rw [Assembly.addRecord, pending, if_neg (by simpa using hle)]
      refine .ahead (by rw [hadd]; exact pending) fun s hs => ?_
      rw [hrecords] at hs
      rcases List.mem_append.mp hs with hs | hs
      · exact below s hs
      · exact List.mem_singleton.mp hs ▸ Nat.lt_of_not_le hle
  | @reached n front s back pending records below number offset =>
    have hadd : a.addRecord r = { a with records := a.records.push r } := by
      rw [Assembly.addRecord, pending]
      rfl
    have hrow : (a.addRecord r).records.toList = front ++ s :: (back ++ [r]) := by
      rw [hrecords, records, List.append_assoc, List.cons_append]
    exact .reached (by rw [hadd]; exact pending) hrow below number (by rw [hadd]; exact offset)

/-- **One item.** A directive for the line to start with takes the place of the last one, and any other item keeps what
the last one says. -/
theorem StartsAt.add? (h : a.StartsAt last) (hrising : a.Rising) (hadd : a.add? x = some b) :
    b.StartsAt (x.start?.or last) := by
  cases hx : x.number? with
  | none =>
    obtain ⟨b', hadd', hpart⟩ := add?_of_number? hx hadd a
    obtain rfl : b = b' := Option.some.inj (hadd.symm.trans hadd')
    have hnone : x.start? = none := by
      match x with
      | .line _ => rfl
      | .header (.start _) => cases hx
      | .header .nothing | .header .collapse | .header (.row _) | .header (.variableBytes _)
      | .header (.assign ..) => rfl
    rw [hnone, Option.none_or]
    exact h.congr hpart
  | some n =>
    match x, hx with
    | .line r, rfl =>
      rw [Assembly.add?] at hadd
      split at hadd
      · cases hadd
        exact h.addRecord r
      · cases hadd
    | .header (.start n), rfl =>
      rw [add?_nameStart] at hadd
      split at hadd
      · next hlast =>
        cases hadd
        exact .ahead rfl (hrising.lt_of_last hlast)
      · cases hadd

/-- **Rows of items.** The last directive for the line to start with counts. By induction on the items. -/
theorem StartsAt.foldlM (h : a.StartsAt last) (hrising : a.Rising) {items : List (List Char)}
    (hfold : items.foldlM (admit? files filename) a = some b) :
    b.StartsAt ((items.filterMap fun item =>
      (Item.ofText? files filename item).bind Item.start?).getLast?.or last) := by
  induction items generalizing a last with
  | nil =>
    cases hfold
    exact h
  | cons item items ih =>
    rw [List.foldlM_cons] at hfold
    obtain ⟨a', hadmit, hfold⟩ := Option.bind_eq_some_iff.mp hfold
    obtain ⟨x, hx, hadd⟩ := Option.bind_eq_some_iff.mp hadmit
    have hrest := ih (h.add? hrising hadd) (hrising.add? hadd) hfold
    cases hstart : x.start? with
    | none => simpa [List.filterMap_cons, hx, hstart] using hrest
    | some n =>
      rw [hstart, Option.some_or] at hrest
      simpa [List.filterMap_cons, hx, hstart, List.getLast?_cons, Option.or_some] using hrest

end Assembly

/-! ## Images -/

namespace Source

/-- **The line to start with.** Let a listing have a tape image. If its directives name lines to start with, and `n` is
the number that the last of them gives, the program has a line that is not below `n`; the line to run next is the first
such line of the whole program, and the header names it and nothing else. If no directive names a line, the line to run
next is the end of the program, and the header says nothing about it. -/
theorem encodeImage_starts {files : FileReader} {filename text : List Char} {data : List UInt8}
    (h : (encodeImage files (ofText filename text)).result = .ok data) (style : Image.Style) :
    let s := ofText filename text
    ∃ i records, Image.split data = .ok i ∧ i.program = programBytes records ∧ WellFormedProgram records ∧
      records.map LineRecord.number = s.lineNumbers files ∧
      (∀ n, (s.starts files).getLast? = some n →
        (∃ m ∈ s.lineNumbers files, n ≤ m) ∧
        ∃ front r back, records = front ++ r :: back ∧ (∀ x ∈ front, x.number < n) ∧ n ≤ r.number ∧
          i.nextLineAddress = programAddress + (programBytes front).length ∧
          Image.startLines (Image.decodeHeader style data) = [Image.startLine r.number]) ∧
      (s.starts files = [] → i.nextLineAddress = i.displayAddress ∧
        Image.startLines (Image.decodeHeader style data) = []) := by
  intro s
  obtain ⟨hfault, -⟩ := encodeImage_eq_ok_iff.mp h
  obtain ⟨i, hsplit, -, hholds⟩ := exists_holds h
  obtain ⟨-, hfold, hpending⟩ := itemized_items (getLast?_ofText filename text) hfault
  have hwell := (collect_consistent files s).program
  have hnumbers : (s.collect files).assembly.records.toList.map LineRecord.number = s.lineNumbers files :=
    Assembly.lineNumbers_foldlM hfold
  have hempty : Assembly.StartsAt (Assembly.placeless {}) none := .unnamed rfl rfl
  have hstarts : Assembly.StartsAt _ ((s.starts files).getLast?.or none) := hempty.foldlM List.Pairwise.nil hfold
  rw [Option.or_none] at hstarts
  have hheader : Image.decodeHeader style data = i.header style := by rw [Image.decodeHeader, hsplit]
  rw [hheader]
  refine ⟨i, (s.collect files).assembly.records.toList, hsplit, hholds.program, hwell, hnumbers, fun n hlast => ?_,
    fun hnil => ?_⟩
  · rw [hlast] at hstarts
    cases hstarts with
    | ahead pending =>
      rw [Assembly.placeless, hpending] at pending
      cases pending
    | @reached _ front r back _ hrecords below number offset =>
      have hrecords : (s.collect files).assembly.records.toList = front ++ r :: back := hrecords
      have hoffset : (s.collect files).assembly.startOffset = some (programBytes front).length := offset
      have hmem : r.number ∈ s.lineNumbers files := by
        rw [← hnumbers, hrecords]
        exact List.mem_map_of_mem (List.mem_append_right front List.mem_cons_self)
      refine ⟨⟨r.number, hmem, number⟩, front, r, back, hrecords, below, number, ?_, ?_⟩
      · rw [hholds.nextLineAddress_eq, hoffset, Option.getD_some]
      · rw [Image.startLines_header, hholds.startDirective_line hwell hrecords hoffset]
        exact Image.startLines_line (Image.calm_startLine _) (Image.tellsStart_startLine _)
  · rw [hnil] at hstarts
    cases hstarts with
    | unnamed _ offset =>
      have hoffset : (s.collect files).assembly.startOffset = none := offset
      have hequal : i.nextLineAddress = i.displayAddress := by
        rw [hholds.nextLineAddress_eq, hholds.displayAddress_eq, hoffset, Option.getD_none]
      exact ⟨hequal, Image.startLines_of_equal hequal style⟩

/-- A directive that is not reached, one that takes its place, and the line behind it. -/
theorem encodeImage_starts_sample :
    let files : FileReader := fun _ => .error []
    let s := ofText defaultName "10 CLS\n#!basic-start=15\n#!basic-start=20\n30 CLS\n".toList
    s.starts files = [15, 20] ∧ s.lineNumbers files = [10, 30] ∧
      ∃ data, (encodeImage files s).result = .ok data ∧
        Image.startLines (Image.decodeHeader {} data) = ["#!basic-start=30".toList] := by
  intro files s
  obtain ⟨hstarts, hlines, hok⟩ : s.starts files = [15, 20] ∧ s.lineNumbers files = [10, 30] ∧
      (encodeImage files s).result.isOk = true := by
    decide +kernel
  cases himage : (encodeImage files s).result with
  | error failure =>
    rw [himage] at hok
    cases hok
  | ok data =>
    obtain ⟨i, records, -, -, -, hnumbers, hnamed, -⟩ := encodeImage_starts himage {}
    obtain ⟨-, front, r, back, rfl, hbelow, hle, -, hheader⟩ := hnamed 20 (by rw [hstarts]; rfl)
    have hrow : front.map LineRecord.number ++ r.number :: back.map LineRecord.number = [10, 30] := by
      rw [← hlines, ← hnumbers, List.map_append, List.map_cons]
    have hr : r.number = 30 := by
      match front with
      | [] =>
        have hfirst : r.number = 10 := (List.cons.inj hrow).1
        omega
      | [x] => exact (List.cons.inj (List.cons.inj hrow).2).1
      | x :: y :: front =>
        have hlength := congrArg List.length hrow
        simp only [List.map_cons, List.length_append, List.length_cons, List.length_nil] at hlength
        omega
    rw [hr] at hheader
    exact ⟨hstarts, hlines, data, rfl, hheader⟩

end Source

end TapeBasic
