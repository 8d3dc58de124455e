import TapeBasic.Proofs.SystemFields

/-!
# Updates of a record

A record is updated in one field, or in all its pointers at once. Whatever is asked of it, and whether that succeeds or
fails, the bytes that are not asked for stay as they are.

* `AgreeOff p s t`: the records have the same bytes, those in `p` apart.
* `Setting.Denotes size bytes setting`: the bytes that a setting stands for.
* `Update`, `update`, `updateAll`: what is asked of a record, and a run of it.

Results:
* `set_eq_ok_iff`: when a field is set, and to what.
* `agreeOff_update`, `agreeOff_updateAll`: an update changes the bytes that it touches only, and so does a run.
* `exists_field_of_update_set`: what is read after a field was set.
* `update_frame`: what every update in a run does and what it leaves alone.
-/
namespace TapeBasic.SystemVariables

/-! ## Bytes that are left alone -/

/-- The places of the bytes of a field. -/
def Field.Covers (f : Field) (i : Nat) : Prop := f.offset ≤ i ∧ i < f.offset + f.size

instance (f : Field) (i : Nat) : Decidable (f.Covers i) := inferInstanceAs (Decidable (_ ∧ _))

/-- The places of the bytes of the structural pointers. -/
def IsPointerByte (i : Nat) : Prop := ∃ f ∈ fields, f.structural = true ∧ f.Covers i

instance (i : Nat) : Decidable (IsPointerByte i) :=
  inferInstanceAs (Decidable (∃ f ∈ fields, f.structural = true ∧ f.Covers i))

example : (fields.filter Field.structural).map Field.name =
    ["D_FILE", "DF_CC", "VARS", "E_LINE", "CH_ADD", "STKBOT", "STKEND", "NXTLIN"] := by decide

/-- The records have the same bytes, apart from those at some places. -/
def AgreeOff (p : Nat → Prop) (s t : SystemVariables) : Prop := ∀ i, ¬p i → s.image[i]? = t.image[i]?

namespace AgreeOff

variable {p q : Nat → Prop} {s t u : SystemVariables}

theorem refl (p : Nat → Prop) (s : SystemVariables) : s.AgreeOff p s := fun _ _ => rfl

theorem trans (h : s.AgreeOff p t) (h' : t.AgreeOff p u) : s.AgreeOff p u :=
  fun i hi => (h i hi).trans (h' i hi)

theorem mono (h : s.AgreeOff p t) (hpq : ∀ i, p i → q i) : s.AgreeOff q t :=
  fun i hi => h i fun hp => hi (hpq i hp)

end AgreeOff

theorem agreeOff_setFieldBytes (s : SystemVariables) (f : Field) (bytes : List UInt8) :
    s.AgreeOff f.Covers (s.setFieldBytes (f, bytes)) := by
  intro i hi
  unfold setFieldBytes
  split
  · exact ((s.getElem?_setField f bytes _ i).trans (if_neg hi)).symm
  · rfl

/-! ## Settings -/

/-- The bytes that a setting stands for: the one or two bytes of its number, the low one first, or the bytes that it
lists. -/
def Setting.Denotes (size : Nat) (bytes : List UInt8) : Setting → Prop
  | .number n => size ≤ 2 ∧ bytes.length = size ∧ n = littleEndian bytes
  | .list values => bytes.length = size ∧ values = bytes.map fun b => (b.toNat : Int)

theorem settingBytes_eq_ok_iff {f : Field} {setting : Setting} {bytes : List UInt8} :
    settingBytes f setting = .ok bytes ↔ setting.Denotes f.size bytes := by
  constructor
  · intro h
    have hlength := length_settingBytes h
    cases setting with
    | number n =>
      rw [settingBytes] at h
      split at h
      · cases h
      · next hsize =>
        split at h
        · cases h
        · next hfits =>
          cases h
          simp only [Bool.or_eq_true, decide_eq_true_eq, not_or] at hfits
          refine ⟨Nat.le_of_not_lt hsize, hlength, ?_⟩
          rw [littleEndian_littleEndianBytes (by omega), Int.toNat_of_nonneg (by omega)]
    | list values =>
      rw [settingBytes] at h
      split at h
      · cases h
      · split at h
        · cases h
        · next hbytes =>
          cases h
          simp only [List.any_eq_true, Bool.or_eq_true, decide_eq_true_eq, not_exists, not_and, not_or] at hbytes
          have hvalue : ∀ v ∈ values, ((UInt8.ofNat v.toNat).toNat : Int) = v := by
            intro v hv
            have hrange := hbytes v hv
            rw [UInt8.toNat_ofNat']
            omega
          refine ⟨hlength, ?_⟩
          rw [List.map_map]
          exact ((List.map_congr_left (g := id) hvalue).trans (List.map_id values)).symm
  · cases setting with
    | number n =>
      rintro ⟨hsize, hlength, rfl⟩
      have hlt := littleEndian_lt bytes
      rw [hlength] at hlt
      rw [settingBytes_number hsize (by omega) (by omega), Int.toNat_natCast, ← hlength,
        littleEndianBytes_littleEndian]
    | list values =>
      rintro ⟨hlength, rfl⟩
      exact settingBytes_list hlength

/-- **Setting a field.** It takes a key of the field and a setting that stands for as many bytes as the field has, and
puts these bytes there. -/
theorem set_eq_ok_iff {s after : SystemVariables} {key : Key} {setting : Setting} :
    s.set key setting = .ok after ↔ ∃ f bytes, resolve key = .ok f ∧ setting.Denotes f.size bytes ∧
      after = s.setFieldBytes (f, bytes) := by
  have hset : ∀ {f bytes}, resolve key = .ok f → settingBytes f setting = .ok bytes →
      s.set key setting = .ok (s.setFieldBytes (f, bytes)) := fun hkey hbytes => by
    rw [set_eq hkey hbytes, setFieldBytes, dif_pos (length_settingBytes hbytes)]
  constructor
  · intro h
    cases hkey : resolve key with
    | error failure =>
      unfold set at h
      rw [hkey] at h
      cases h
    | ok f =>
      cases hbytes : settingBytes f setting with
      | error failure =>
        unfold set at h
        rw [hkey] at h
        dsimp only at h
        split at h
        · cases h
        · next heq => cases hbytes.symm.trans heq
      | ok bytes =>
        rw [hset hkey hbytes] at h
        exact ⟨f, bytes, rfl, settingBytes_eq_ok_iff.mp hbytes, (Except.ok.inj h).symm⟩
  · rintro ⟨f, bytes, hkey, hdenotes, rfl⟩
    exact hset hkey (settingBytes_eq_ok_iff.mpr hdenotes)

theorem Setting.Denotes.length_eq {size : Nat} {bytes : List UInt8} {setting : Setting}
    (h : setting.Denotes size bytes) : bytes.length = size := by
  cases setting with
  | number n => exact h.2.1
  | list values => exact h.1

theorem fieldBytes_setFieldBytes (s : SystemVariables) {f : Field} {bytes : List UInt8}
    (h : bytes.length = f.size) : (s.setFieldBytes (f, bytes)).fieldBytes f = bytes := by
  have hset : s.setFieldBytes (f, bytes) = s.setField f bytes h := dif_pos h
  rw [hset, fieldBytes_setField]

/-- What is read under a key of a field. -/
theorem get_of_resolve (s : SystemVariables) {key : Key} {f : Field} (h : resolve key = .ok f) :
    s.getBytes key = .ok (s.fieldBytes f) ∧
      s.get key = .ok (if f.size ≤ 2 then .number (littleEndian (s.fieldBytes f)) else .bytes (s.fieldBytes f)) := by
  rw [getBytes, get, h]
  exact ⟨rfl, rfl⟩

/-! ## Runs -/

/-- What is asked of a record: to set a field, or to write all pointers. -/
inductive Update where
  | set (key : Key) (setting : Setting)
  | layout (l : Layout)

/-- The record after an update, and why the update failed if it did. -/
def update (s : SystemVariables) : Update → SystemVariables × Option Failure
  | .set key setting =>
    match s.set key setting with
    | .ok after => (after, none)
    | .error failure => (s, some failure)
  | .layout l => s.setLayout l

/-- The record after a run of updates, each of which may succeed or fail. -/
def updateAll (s : SystemVariables) (updates : List Update) : SystemVariables :=
  updates.foldl (fun s u => (s.update u).1) s

/-- The places of the bytes that an update asks for. -/
def Update.Touches : Update → Nat → Prop
  | .set key _, i => ∃ f ∈ fields, f.HasKey key ∧ f.Covers i
  | .layout _, i => IsPointerByte i

theorem agreeOff_set {s after : SystemVariables} {key : Key} {setting : Setting} {f : Field}
    (hkey : resolve key = .ok f) (h : s.set key setting = .ok after) : s.AgreeOff f.Covers after := by
  obtain ⟨g, bytes, hg, -, rfl⟩ := set_eq_ok_iff.mp h
  cases hkey.symm.trans hg
  exact s.agreeOff_setFieldBytes f bytes

/-- Numbers are set one by one up to the first failure, and only in the fields named. -/
theorem agreeOff_setNumbers (s : SystemVariables) {numbers : List (Field × Int)}
    (h : ∀ x ∈ numbers, x.1 ∈ fields ∧ x.1.structural = true) :
    s.AgreeOff IsPointerByte (s.setNumbers (numbers.map fun x => (x.1.name, x.2))).1 := by
  induction numbers generalizing s with
  | nil => exact .refl _ s
  | cons x numbers ih =>
    obtain ⟨⟨hf, hstructural⟩, hnumbers⟩ := List.forall_mem_cons.mp h
    rw [List.map_cons, setNumbers]
    cases hset : s.set (.name x.1.name.toList) (.number x.2) with
    | error failure => exact .refl _ s
    | ok next =>
      have hfirst : s.AgreeOff IsPointerByte next :=
        (agreeOff_set (resolve_name hf) hset).mono fun i hi => ⟨x.1, hf, hstructural, hi⟩
      exact hfirst.trans (ih next hnumbers)

/-- **One update.** It changes the bytes that it touches only, whether it succeeds or fails. -/
theorem agreeOff_update (s : SystemVariables) (u : Update) : s.AgreeOff u.Touches (s.update u).1 := by
  cases u with
  | set key setting =>
    rw [update]
    cases hset : s.set key setting with
    | error failure => exact .refl _ s
    | ok after =>
      obtain ⟨f, -, hkey, -⟩ := set_eq_ok_iff.mp hset
      obtain ⟨hf, hhas⟩ := resolve_eq_ok_iff.mp hkey
      exact (agreeOff_set hkey hset).mono fun i hi => ⟨f, hf, hhas, hi⟩
  | layout l =>
    rw [update, setLayout, l.pointers_eq]
    exact s.agreeOff_setNumbers fun _ hx => Layout.structural_of_mem hx

/-- **Runs of updates.** A run changes the bytes that one of its updates touches only. -/
theorem agreeOff_updateAll (s : SystemVariables) (updates : List Update) :
    s.AgreeOff (fun i => ∃ u ∈ updates, u.Touches i) (s.updateAll updates) := by
  induction updates generalizing s with
  | nil => exact .refl _ s
  | cons u updates ih =>
    have hfirst := s.agreeOff_update u
    have hrest := ih (s.update u).1
    exact (hfirst.mono fun i hi => ⟨u, List.mem_cons_self, hi⟩).trans
      (hrest.mono fun i ⟨v, hv, hi⟩ => ⟨v, List.mem_cons_of_mem u hv, hi⟩)

/-! ## One field -/

section Set

variable {s after : SystemVariables} {key : Key} {setting : Setting}

theorem update_set_eq_none_iff : s.update (.set key setting) = (after, none) ↔ s.set key setting = .ok after := by
  rw [update]
  cases s.set key setting <;> simp

/-- A refused setting leaves the record as it was. -/
theorem eq_of_update_set {failure : Failure} (h : s.update (.set key setting) = (after, some failure)) : after = s := by
  rw [update] at h
  split at h
  · cases h
  · cases h
    rfl

/-- A setting is accepted if it fits the field that the key names. -/
theorem exists_update_set_iff : (∃ after, s.update (.set key setting) = (after, none)) ↔
    ∃ f ∈ fields, f.HasKey key ∧ ∃ bytes, setting.Denotes f.size bytes := by
  simp only [update_set_eq_none_iff, set_eq_ok_iff, resolve_eq_ok_iff]
  constructor
  · rintro ⟨-, f, bytes, ⟨hf, hkey⟩, hdenotes, -⟩
    exact ⟨f, hf, hkey, bytes, hdenotes⟩
  · rintro ⟨f, hf, hkey, bytes, hdenotes⟩
    exact ⟨_, f, bytes, ⟨hf, hkey⟩, hdenotes, rfl⟩

/-- **Reading what was set.** The bytes of the setting are found under every key of the field, and nowhere else has
anything changed. -/
theorem exists_field_of_update_set (h : s.update (.set key setting) = (after, none)) :
    ∃ f ∈ fields, f.HasKey key ∧ ∃ bytes, setting.Denotes f.size bytes ∧
      (∀ other, f.HasKey other → after.getBytes other = .ok bytes ∧
        after.get other = .ok (if f.size ≤ 2 then .number (littleEndian bytes) else .bytes bytes)) ∧
      s.AgreeOff f.Covers after := by
  obtain ⟨f, bytes, hresolve, hdenotes, rfl⟩ := set_eq_ok_iff.mp (update_set_eq_none_iff.mp h)
  obtain ⟨hf, hkey⟩ := resolve_eq_ok_iff.mp hresolve
  refine ⟨f, hf, hkey, bytes, hdenotes, fun other hother => ?_, s.agreeOff_setFieldBytes f bytes⟩
  have hget := get_of_resolve (s.setFieldBytes (f, bytes)) (resolve_eq_ok_iff.mpr ⟨hf, hother⟩)
  rwa [fieldBytes_setFieldBytes s hdenotes.length_eq] at hget

end Set

/-- **Updates in a run.** Take the record after any run of updates, some of which may have failed. It has 116 bytes, and
differs from the first one only where an update touched it. A field is set exactly if the key is one of its keys and the
setting stands for as many bytes as it has. Then these bytes are found under every key of the field, as a number if
there are one or two of them, and no other byte has changed. If a field is not set, the record is as it was. A
layout changes bytes of the structural pointers only, even if it fails halfway. -/
theorem update_frame (s : SystemVariables) (updates : List Update) :
    let before := s.updateAll updates
    before.image.length = blockSize ∧ s.AgreeOff (fun i => ∃ u ∈ updates, u.Touches i) before ∧
      (∀ key setting, (∃ after, before.update (.set key setting) = (after, none)) ↔
        ∃ f ∈ fields, f.HasKey key ∧ ∃ bytes, setting.Denotes f.size bytes) ∧
      (∀ key setting after, before.update (.set key setting) = (after, none) →
        ∃ f ∈ fields, f.HasKey key ∧ ∃ bytes, setting.Denotes f.size bytes ∧
          (∀ other, f.HasKey other → after.getBytes other = .ok bytes ∧
            after.get other = .ok (if f.size ≤ 2 then .number (littleEndian bytes) else .bytes bytes)) ∧
          before.AgreeOff f.Covers after) ∧
      (∀ key setting after failure, before.update (.set key setting) = (after, some failure) → after = before) ∧
      ∀ l, before.AgreeOff IsPointerByte (before.update (.layout l)).1 := by
  intro before
  refine ⟨before.size_eq, s.agreeOff_updateAll updates, ?_, ?_, ?_, ?_⟩
  · intro key setting
    exact exists_update_set_iff
  · intro key setting after h
    exact exists_field_of_update_set h
  · intro key setting after failure h
    exact eq_of_update_set h
  · intro l
    exact before.agreeOff_update (.layout l)

/-- The calculator's register is set under its other name and a layout fails at its third pointer. Then the frame
counter is set to a number, and a list that is too short for it is refused. -/
theorem update_frame_sample :
    let before := reset.updateAll [.set (.name " berg".toList) (.number 7), .layout ⟨16509, 70000, 0, 0⟩]
    (∃ after, before.update (.set (.name "frames".toList) (.number 12345)) = (after, none) ∧
      after.get (.name "frames".toList) = .ok (.number 12345)) ∧
      ∃ failure, before.update (.set (.name "FRAMES".toList) (.list [0])) = (before, some failure) := by
  intro before
  obtain ⟨-, -, -, hset, hfails, -⟩ :=
    update_frame reset [.set (.name " berg".toList) (.number 7), .layout ⟨16509, 70000, 0, 0⟩]
  have hok : (before.update (.set (.name "frames".toList) (.number 12345))).2 = none := by decide
  have hrefused : (before.update (.set (.name "FRAMES".toList) (.list [0]))).2 =
      some (.wrongLength "FRAMES" 2 1) := by decide
  obtain ⟨after, hafter⟩ : ∃ after, before.update (.set (.name "frames".toList) (.number 12345)) =
      (after, none) :=
    ⟨_, Prod.ext rfl hok⟩
  obtain ⟨kept, hkept⟩ : ∃ kept, before.update (.set (.name "FRAMES".toList) (.list [0])) =
      (kept, some (.wrongLength "FRAMES" 2 1)) := ⟨_, Prod.ext rfl hrefused⟩
  obtain ⟨f, -, hkey, bytes, ⟨hsize, -, hnumber⟩, hread, -⟩ := hset _ _ _ hafter
  obtain rfl : kept = before := hfails _ _ _ _ hkept
  refine ⟨⟨after, hafter, ?_⟩, _, hkept⟩
  rw [(hread _ hkey).2, if_pos hsize, ← Int.natCast_inj.mp hnumber]

end TapeBasic.SystemVariables
