import TapeBasic.Proofs.ShownTexts
import TapeBasic.Proofs.StoredPrograms

/-!
# Records and their texts

A program is listed record by record, and what a record becomes depends on its own bytes only, even where it is not a
line that could be typed in. So the bytes behind some records are listed as if they stood by themselves, and another
record in the place of one changes its text only.

* `LineRecord.IsText number last text`: a numbered line, perhaps with a note, or a comment about an error.

Results:
* `Listing.isText_entry`: the text of a record.
* `Listing.programText_append`: the text of records with any bytes behind them.
-/
namespace TapeBasic

/-- The text of a record with this number and this last byte. -/
inductive LineRecord.IsText (number : Nat) (last : UInt8) : List Char → Prop where
  /-- One numbered line. -/
  | line {line : List Char} (single : '\n' ∉ line) (lineEnd : last = Token.lineEnd) :
    IsText number last (Text.decimal number ++ ' ' :: (line ++ ['\n']))
  /-- One numbered line and a note about the last byte. -/
  | noted {line : List Char} (single : '\n' ∉ line) (otherEnd : last ≠ Token.lineEnd) :
    IsText number last (Text.decimal number ++ ' ' :: (line ++ '\n' ::
      ("# Note: Line ".toList ++ Text.decimal number ++ " did not end with ".toList ++
        Text.decimal Token.lineEnd.toNat ++ " (END token) but with ".toList ++ Text.decimal last.toNat ++
        ".\n".toList)))
  /-- One comment, behind an empty line. -/
  | error {reason : List Char} (single : '\n' ∉ reason) :
    IsText number last ("\n# Error: Line ".toList ++ Text.decimal number ++ ": ".toList ++ reason ++ ['\n'])

namespace Listing

/-- **One record.** It becomes a numbered line or a comment about an error. -/
theorem isText_entry (bracketed : Bool) (number : Nat) (body : List UInt8) (last : UInt8) :
    LineRecord.IsText number last (entry bracketed number (body ++ [last])).text := by
  have hlast : (body ++ [last]).getLast? = some last := List.getLast?_concat
  have hbody : (body ++ [last]).dropLast = body := List.dropLast_concat
  unfold entry
  rw [hlast, hbody]
  dsimp only
  cases hrender : renderLine bracketed body with
  | error failure => exact .error (Text.lineEnd_not_mem_of_isCalm (calm_message failure))
  | ok shown =>
    obtain ⟨line, events⟩ := shown
    have hsingle : '\n' ∉ line := Text.lineEnd_not_mem_of_isCalm (calm_renderLine hrender)
    dsimp only
    rw [Entry.text.eq_def]
    dsimp only
    split
    · next hend => exact .line hsingle (beq_iff_eq.mp hend)
    · next hend => exact .noted hsingle (mt beq_iff_eq.mpr hend)

variable {bracketed : Bool} {records : List LineRecord} {r : LineRecord}

/-- Some bytes behind records are listed as if they stood by themselves. -/
theorem programText_programBytes_append (bracketed : Bool) (h : ∀ r ∈ records, r.Storable) (rest : List UInt8) :
    programText bracketed (programBytes records ++ rest) =
      (records.flatMap fun r => (entry bracketed r.number r.payload).text) ++ programText bracketed rest := by
  rw [programText, ofProgram_append bracketed h rest, text, List.flatMap_append, List.flatMap_map]
  rfl

theorem programText_programBytes (bracketed : Bool) (h : ∀ r ∈ records, r.Storable) :
    programText bracketed (programBytes records) =
      records.flatMap fun r => (entry bracketed r.number r.payload).text := by
  have hrow := programText_programBytes_append bracketed h []
  have hnil : programText bracketed [] = [] := congrArg text (ofProgram_nil bracketed)
  rwa [List.append_nil, hnil, List.append_nil] at hrow

/-- The text of one record by itself. -/
theorem programText_bytes (bracketed : Bool) (hr : r.Storable) :
    programText bracketed r.bytes = (entry bracketed r.number r.payload).text := by
  have hrow := programText_programBytes bracketed (List.forall_mem_singleton.mpr hr)
  rwa [List.flatMap_singleton, show programBytes [r] = r.bytes from List.flatMap_singleton ..] at hrow

/-- **Records in a row.** Let some bytes be records of any content. Whatever bytes follow them, their text comes first,
record by record, and then that of these bytes by themselves. Another record in the place of one of them changes its
text only, and the text of each record is one numbered line, with a note exactly if the record does not end with a line
end, or one comment about an error. -/
theorem programText_append (bracketed : Bool) {records : List LineRecord} (h : ∀ r ∈ records, r.Storable)
    (rest : List UInt8) :
    programText bracketed (programBytes records ++ rest) =
        programText bracketed (programBytes records) ++ programText bracketed rest ∧
      programText bracketed (programBytes records) = (records.flatMap fun r => programText bracketed r.bytes) ∧
      (∀ front r back, records = front ++ r :: back → ∀ s : LineRecord, s.Storable →
        programText bracketed (programBytes (front ++ s :: back) ++ rest) =
          programText bracketed (programBytes front) ++ programText bracketed s.bytes ++
            programText bracketed (programBytes back ++ rest)) ∧
      ∀ r ∈ records, ∃ body last, r.payload = body ++ [last] ∧
        LineRecord.IsText r.number last (programText bracketed r.bytes) := by
  have htexts : ∀ r ∈ records, (entry bracketed r.number r.payload).text = programText bracketed r.bytes :=
    fun r hr => (programText_bytes bracketed (h r hr)).symm
  refine ⟨?_, ?_, ?_, ?_⟩
  · rw [programText_programBytes_append bracketed h rest, programText_programBytes bracketed h]
  · rw [programText_programBytes bracketed h]
    exact List.flatMap_congr htexts
  · rintro front r back rfl s hs
    obtain ⟨hfront, hback⟩ := List.forall_mem_append.mp h
    obtain ⟨-, hback⟩ := List.forall_mem_cons.mp hback
    have hall : ∀ x ∈ front ++ s :: back, x.Storable :=
      List.forall_mem_append.mpr ⟨hfront, List.forall_mem_cons.mpr ⟨hs, hback⟩⟩
    rw [programText_programBytes_append bracketed hall rest, programText_programBytes_append bracketed hback rest,
      programText_programBytes bracketed hfront, programText_bytes bracketed hs, List.flatMap_append,
      List.flatMap_cons]
    simp only [List.append_assoc]
  · intro r hr
    obtain ⟨body, last, hpayload⟩ := (List.eq_nil_or_concat' r.payload).resolve_left
      (List.ne_nil_of_length_pos (h r hr).length_pos)
    refine ⟨body, last, hpayload, ?_⟩
    rw [← htexts r hr, hpayload]
    exact isText_entry bracketed r.number body last

/-- A record that can be typed in, one with a number that is cut short and one that does not end with a line end, with
three bytes behind them. -/
theorem programText_append_sample :
    let records : List LineRecord := [⟨10, [0xFB, 0x76]⟩, ⟨20, [0xF5, 0x7E, 0x76]⟩, ⟨0xFFFF, [0xFB]⟩]
    (∀ r ∈ records, r.Storable) ∧
      programText false (programBytes records ++ [1, 2, 3]) =
        programText false (programBytes records) ++ programText false [1, 2, 3] := by
  intro records
  have h : ∀ r ∈ records, r.Storable := by
    simp only [records, List.forall_mem_cons, List.not_mem_nil, false_imp_iff, implies_true, and_true]
    exact ⟨⟨by decide, by decide, by decide⟩, ⟨by decide, by decide, by decide⟩, by decide, by decide,
      by decide⟩
  exact ⟨h, (programText_append false h [1, 2, 3]).1⟩

end Listing

end TapeBasic
