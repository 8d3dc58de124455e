import Mathlib.Data.List.Pairwise
import TapeBasic.SystemVariables

/-!
# The fields of the system variables

The fields fill the block of the system variables and do not overlap, so the block is known when its
fields are, and setting a field changes no other.

* `Field.Apart f g`: the fields have no byte in common.
* `Field.HasKey f key`: a key that names the field.

Results:
* `littleEndian_littleEndianBytes`, `littleEndianBytes_littleEndian`: numbers and their bytes, both ways.
* `eq_of_fieldBytes`: two records with the same fields are equal.
* `find_eq_ok_iff`: what is found under a key.
* `fieldBytes_setField`, `fieldBytes_setField_of_apart`: what setting a field does to it and to others.
* `setLayout_spec`: a layout within the memory is written pointer by pointer, and nothing else is.
-/
namespace TapeBasic.SystemVariables

/-! ## Numbers -/

theorem littleEndian_cons (b : UInt8) (bytes : List UInt8) :
    littleEndian (b :: bytes) = b.toNat + 256 * littleEndian bytes := rfl

theorem twoTo_add_eight (n : Nat) : twoTo (8 * (n + 1)) = 256 * twoTo (8 * n) := by
  rw [Nat.mul_add_one, Nat.mul_comm 256]
  exact Nat.pow_add 2 (8 * n) 8

theorem littleEndian_littleEndianBytes {size n : Nat} (h : n < twoTo (8 * size)) :
    littleEndian (littleEndianBytes size n) = n := by
  induction size generalizing n with
  | zero =>
    rw [Nat.mul_zero, twoTo_zero] at h
    rw [Nat.lt_one_iff.mp h]
    rfl
  | succ size ih =>
    rw [twoTo_add_eight] at h
    rw [littleEndianBytes, littleEndian_cons, ih (by omega), UInt8.toNat_ofNat']
    omega

theorem littleEndian_lt (bytes : List UInt8) : littleEndian bytes < twoTo (8 * bytes.length) := by
  induction bytes with
  | nil => decide
  | cons b bytes ih =>
    have := b.toNat_lt
    rw [littleEndian_cons, List.length_cons, twoTo_add_eight]
    omega

theorem littleEndianBytes_littleEndian (bytes : List UInt8) :
    littleEndianBytes bytes.length (littleEndian bytes) = bytes := by
  induction bytes with
  | nil => rfl
  | cons b bytes ih =>
    have := b.toNat_lt
    have hhead : UInt8.ofNat (littleEndian (b :: bytes)) = b := by
      rw [← UInt8.toNat_inj, UInt8.toNat_ofNat', littleEndian_cons]
      omega
    have htail : littleEndian (b :: bytes) / 256 = littleEndian bytes := by
      rw [littleEndian_cons]
      omega
    rw [List.length_cons, littleEndianBytes, hhead, htail, ih]

/-! ## Fields apart -/

/-- The fields have no byte in common. -/
def Field.Apart (f g : Field) : Prop := f.offset + f.size ≤ g.offset ∨ g.offset + g.size ≤ f.offset

instance (f g : Field) : Decidable (f.Apart g) := inferInstanceAs (Decidable (_ ∨ _))

instance : Std.Symm Field.Apart := ⟨fun _ _ => Or.symm⟩

theorem pairwise_apart : fields.Pairwise Field.Apart := by decide

theorem apart_of_ne {f g : Field} (hf : f ∈ fields) (hg : g ∈ fields) (h : f ≠ g) : f.Apart g :=
  pairwise_apart.forall hf hg h

theorem eq_of_address {f g : Field} (hf : f ∈ fields) (hg : g ∈ fields) (h : f.address = g.address) :
    f = g := by
  by_contra hne
  have hsize : ∀ f ∈ fields, 0 < f.size := by decide
  have := hsize f hf
  have := hsize g hg
  have := f.above
  have hapart := apart_of_ne hf hg hne
  simp only [Field.Apart, Field.offset, h] at hapart
  omega

theorem named?_name {f : Field} (hf : f ∈ fields) : Field.named? f.name.toList = some f := by
  have haddress : ∀ f ∈ fields, (Field.named? f.name.toList).map Field.address = some f.address := by
    decide
  obtain ⟨g, hg, hgf⟩ := Option.map_eq_some_iff.mp (haddress f hf)
  rw [hg, eq_of_address (List.mem_of_find?_eq_some hg) hf hgf]

/-! ## Bytes -/

theorem getElem?_fieldBytes (s : SystemVariables) (f : Field) (i : Nat) :
    (s.fieldBytes f)[i]? = if i < f.size then s.image[f.offset + i]? else none := by
  rw [fieldBytes, List.getElem?_take, List.getElem?_drop]

theorem length_fieldBytes (s : SystemVariables) (f : Field) : (s.fieldBytes f).length = f.size := by
  have := f.offset_add_size_le
  have := s.size_eq
  rw [fieldBytes, List.length_take, List.length_drop]
  omega

theorem ext_image {s t : SystemVariables} (h : s.image = t.image) : s = t := by
  cases s
  cases t
  simp_all

/-- The fields fill the block. -/
theorem exists_field {i : Nat} (h : i < blockSize) :
    ∃ f ∈ fields, f.offset ≤ i ∧ i < f.offset + f.size := by
  have hall : ∀ i < blockSize, ∃ f ∈ fields, f.offset ≤ i ∧ i < f.offset + f.size := by
    decide
  exact hall i h

/-- **Fields tell the record.** -/
theorem eq_of_fieldBytes {s t : SystemVariables} (h : ∀ f ∈ fields, s.fieldBytes f = t.fieldBytes f) :
    s = t := by
  refine ext_image (List.ext_getElem? fun i => ?_)
  by_cases hi : i < blockSize
  · obtain ⟨f, hf, hlow, hhigh⟩ := exists_field hi
    have hbyte : (s.fieldBytes f)[i - f.offset]? = (t.fieldBytes f)[i - f.offset]? := by rw [h f hf]
    rw [getElem?_fieldBytes, getElem?_fieldBytes, if_pos (by omega), if_pos (by omega),
      Nat.add_sub_cancel' hlow] at hbyte
    exact hbyte
  · rw [List.getElem?_eq_none (by rw [s.size_eq]; omega), List.getElem?_eq_none (by rw [t.size_eq]; omega)]

theorem getElem?_setField (s : SystemVariables) (f : Field) (bytes : List UInt8)
    (h : bytes.length = f.size) (i : Nat) :
    (s.setField f bytes h).image[i]? =
      if f.offset ≤ i ∧ i < f.offset + f.size then bytes[i - f.offset]? else s.image[i]? := by
  have := f.offset_add_size_le
  have := s.size_eq
  have hlength : (s.image.take f.offset).length = f.offset := by
    rw [List.length_take]
    omega
  change (s.image.take f.offset ++ bytes ++ s.image.drop (f.offset + f.size))[i]? = _
  rw [List.append_assoc]
  by_cases hlow : i < f.offset
  · rw [List.getElem?_append_left (by omega), List.getElem?_take_of_lt hlow, if_neg (by omega)]
  · rw [List.getElem?_append_right (by omega), hlength]
    by_cases hhigh : i < f.offset + f.size
    · rw [List.getElem?_append_left (by omega), if_pos (by omega)]
    · have hplace : f.offset + f.size + (i - f.offset - f.size) = i := by omega
      rw [List.getElem?_append_right (by omega), List.getElem?_drop, if_neg (by omega), h, hplace]

theorem fieldBytes_setField (s : SystemVariables) (f : Field) (bytes : List UInt8)
    (h : bytes.length = f.size) : (s.setField f bytes h).fieldBytes f = bytes := by
  refine List.ext_getElem? fun i => ?_
  rw [getElem?_fieldBytes]
  split
  · rw [getElem?_setField, if_pos (by omega), Nat.add_sub_cancel_left]
  · rw [List.getElem?_eq_none (by omega)]

theorem fieldBytes_setField_of_apart (s : SystemVariables) {f g : Field} (hapart : f.Apart g)
    (bytes : List UInt8) (h : bytes.length = f.size) :
    (s.setField f bytes h).fieldBytes g = s.fieldBytes g := by
  refine List.ext_getElem? fun i => ?_
  rw [getElem?_fieldBytes, getElem?_fieldBytes]
  split
  · rw [getElem?_setField, if_neg]
    unfold Field.Apart at hapart
    omega
  · rfl

/-! ## Keys -/

/-- Whether a word is a numeral: digits of any kind and nothing else. -/
def isNumeral (word : List Char) : Bool := !word.isEmpty && word.all Text.isDigit

/-- The keys of a field: its address, as a number or as a numeral, and its name or another spelling in use for it, in
either case. Blanks around a word do not count. -/
inductive Field.HasKey (f : Field) : Key → Prop where
  | address : f.HasKey (.address f.address)
  | numeral {text : List Char} (digits : isNumeral (Text.trim text) = true)
      (value : Text.integer? text = some (f.address : Int)) : f.HasKey (.name text)
  | word {text : List Char} (letters : isNumeral (Text.trim text) = false)
      (spelling : aliasOf (Text.upper (Text.trim text)) = f.name.toList) : f.HasKey (.name text)

theorem atAddress?_eq_some_iff {n : Int} {f : Field} :
    Field.atAddress? n = some f ↔ f ∈ fields ∧ n = f.address := by
  constructor
  · intro h
    have haddress := List.find?_some h
    rw [beq_iff_eq] at haddress
    exact ⟨List.mem_of_find?_eq_some h, haddress.symm⟩
  · rintro ⟨hf, rfl⟩
    cases hfound : Field.atAddress? f.address with
    | none => exact absurd (beq_self_eq_true _) (List.find?_eq_none.mp hfound f hf)
    | some g =>
      have haddress := List.find?_some hfound
      rw [beq_iff_eq, Int.natCast_inj] at haddress
      rw [eq_of_address (List.mem_of_find?_eq_some hfound) hf haddress]

theorem named?_eq_some_iff {name : List Char} {f : Field} :
    Field.named? name = some f ↔ f ∈ fields ∧ aliasOf name = f.name.toList := by
  constructor
  · intro h
    have hname := List.find?_some h
    rw [beq_iff_eq] at hname
    exact ⟨List.mem_of_find?_eq_some h, hname.symm⟩
  · rintro ⟨hf, hname⟩
    have halias : ∀ f ∈ fields, aliasOf f.name.toList = f.name.toList := by decide
    rw [← named?_name hf, Field.named?, Field.named?, hname, halias f hf]

/-- **Keys.** A key finds the field that it is a key of. -/
theorem find_eq_ok_iff {key : Key} {f : Field} : Field.find key = .ok f ↔ f ∈ fields ∧ f.HasKey key := by
  cases key with
  | address n =>
    have hkey : f.HasKey (.address n) ↔ n = f.address := ⟨fun h => by cases h; rfl, fun h => h ▸ .address⟩
    unfold Field.find
    dsimp only
    rw [hkey, ← atAddress?_eq_some_iff]
    cases Field.atAddress? n <;> simp
  | name text =>
    cases hword : isNumeral (Text.trim text) with
    | true =>
      have hkey : f.HasKey (.name text) ↔ Text.integer? text = some (f.address : Int) := by
        refine ⟨fun h => ?_, .numeral hword⟩
        cases h with
        | numeral _ value => exact value
        | word letters _ => cases hword.symm.trans letters
      unfold isNumeral at hword
      unfold Field.find
      dsimp only
      rw [hword, if_pos rfl, hkey]
      cases Text.integer? text with
      | none => simp
      | some n =>
        rw [Option.some.injEq, ← atAddress?_eq_some_iff]
        dsimp only
        cases Field.atAddress? n <;> simp
    | false =>
      have hkey : f.HasKey (.name text) ↔ aliasOf (Text.upper (Text.trim text)) = f.name.toList := by
        refine ⟨fun h => ?_, .word hword⟩
        cases h with
        | numeral digits _ => cases hword.symm.trans digits
        | word _ spelling => exact spelling
      unfold isNumeral at hword
      unfold Field.find
      dsimp only
      rw [hword, if_neg Bool.false_ne_true, hkey, ← named?_eq_some_iff]
      cases Field.named? (Text.upper (Text.trim text)) <;> simp

theorem mem_of_find {key : Key} {f : Field} (h : Field.find key = .ok f) : f ∈ fields :=
  (find_eq_ok_iff.mp h).1

theorem resolve_eq_ok_iff {key : Key} {f : Field} : resolve key = .ok f ↔ f ∈ fields ∧ f.HasKey key := by
  rw [← find_eq_ok_iff, resolve]
  cases Field.find key <;> simp

/-- The name of a field is one of its keys. The unused fields are named by a numeral. -/
theorem hasKey_name {f : Field} (hf : f ∈ fields) : f.HasKey (.name f.name.toList) := by
  have hnames : ∀ f ∈ fields, if isNumeral (Text.trim f.name.toList) = true
      then Text.integer? f.name.toList = some (f.address : Int)
      else aliasOf (Text.upper (Text.trim f.name.toList)) = f.name.toList := by
    decide
  have hname := hnames f hf
  split at hname
  · next hdigits => exact .numeral hdigits hname
  · next hletters => exact .word (Bool.eq_false_iff.mpr hletters) hname

/-- A field is found under its name. -/
theorem resolve_name {f : Field} (hf : f ∈ fields) : resolve (.name f.name.toList) = .ok f :=
  resolve_eq_ok_iff.mpr ⟨hf, hasKey_name hf⟩

/-! ## Assignments -/

theorem set_eq {s : SystemVariables} {key : Key} {setting : Setting} {f : Field} {bytes : List UInt8}
    (hkey : resolve key = .ok f) (hbytes : settingBytes f setting = .ok bytes) :
    s.set key setting = .ok (s.setField f bytes (length_settingBytes hbytes)) := by
  unfold set
  rw [hkey]
  dsimp only
  split
  · next heq => cases hbytes.symm.trans heq
  · next heq => cases hbytes.symm.trans heq; rfl

theorem settingBytes_number {f : Field} (hsize : f.size ≤ 2) {n : Int} (hlow : 0 ≤ n)
    (hhigh : n < (twoTo (8 * f.size) : Nat)) :
    settingBytes f (.number n) = .ok (littleEndianBytes f.size n.toNat) := by
  rw [settingBytes, if_neg (by omega), if_neg]
  simp only [Bool.or_eq_true, decide_eq_true_eq]
  omega

theorem settingBytes_list {f : Field} {bytes : List UInt8} (h : bytes.length = f.size) :
    settingBytes f (.list (bytes.map fun b => (b.toNat : Int))) = .ok bytes := by
  have hany : (bytes.map fun b => (b.toNat : Int)).any (fun v => v < 0 || 255 < v) = false := by
    rw [List.any_eq_false]
    intro v hv
    obtain ⟨b, -, rfl⟩ := List.mem_map.mp hv
    have := b.toNat_lt
    simp only [Bool.or_eq_true, decide_eq_true_eq, not_or]
    omega
  have hid : ((fun v : Int => UInt8.ofNat v.toNat) ∘ fun b : UInt8 => (b.toNat : Int)) = id := by
    funext b
    simp
  rw [settingBytes, if_neg (by simp [h]), hany, if_neg Bool.false_ne_true, List.map_map, hid, List.map_id]

/-! ## Several fields -/

/-- The fields that are no pointers hold the same. -/
def SameFree (s t : SystemVariables) : Prop :=
  ∀ f ∈ fields, f.structural = false → s.fieldBytes f = t.fieldBytes f

/-- The record with these bytes in a field, if there are enough of them. -/
def setFieldBytes (s : SystemVariables) (x : Field × List UInt8) : SystemVariables :=
  if h : x.2.length = x.1.size then s.setField x.1 x.2 h else s

/-- Fields that are apart are set one after the other: each holds its bytes, and all others what they held
before. -/
theorem fieldBytes_foldl_setFieldBytes (s : SystemVariables) {changes : List (Field × List UInt8)}
    (hapart : changes.Pairwise fun x y => x.1.Apart y.1) (hlength : ∀ x ∈ changes, x.2.length = x.1.size) :
    (∀ x ∈ changes, (changes.foldl setFieldBytes s).fieldBytes x.1 = x.2) ∧
      ∀ g, (∀ x ∈ changes, x.1.Apart g) →
        (changes.foldl setFieldBytes s).fieldBytes g = s.fieldBytes g := by
  induction changes generalizing s with
  | nil => exact ⟨nofun, fun _ _ => rfl⟩
  | cons x changes ih =>
    obtain ⟨hfirst, hrest⟩ := List.pairwise_cons.mp hapart
    obtain ⟨hx, hlengths⟩ := List.forall_mem_cons.mp hlength
    have hset : setFieldBytes s x = s.setField x.1 x.2 hx := dif_pos hx
    obtain ⟨hown, hothers⟩ := ih (setFieldBytes s x) hrest hlengths
    rw [List.foldl_cons]
    refine ⟨List.forall_mem_cons.mpr ⟨?_, hown⟩, fun g hg => ?_⟩
    · rw [hothers x.1 fun y hy => Or.symm (hfirst y hy), hset, fieldBytes_setField]
    · obtain ⟨hxg, hg⟩ := List.forall_mem_cons.mp hg
      rw [hothers g hg, hset, fieldBytes_setField_of_apart s hxg]

/-- The record after assignments, made one after the other. -/
def assignAll (s : SystemVariables) (settings : List (List Char × Setting)) : Except Failure SystemVariables :=
  settings.foldlM (fun s (name, setting) => s.set (.name name) setting) s

theorem assignAll_append {s s' s'' : SystemVariables} {settings more : List (List Char × Setting)}
    (h : s.assignAll settings = .ok s') (h' : s'.assignAll more = .ok s'') :
    s.assignAll (settings ++ more) = .ok s'' := by
  unfold assignAll at h h' ⊢
  rw [List.foldlM_append, h]
  exact h'

/-- Fields are set by their names, each by a setting that gives it its bytes. -/
theorem assignAll_map {changes : List (Field × List UInt8)} (setting : Field × List UInt8 → Setting)
    (h : ∀ x ∈ changes, x.1 ∈ fields ∧ settingBytes x.1 (setting x) = .ok x.2) (s : SystemVariables) :
    s.assignAll (changes.map fun x => (x.1.name.toList, setting x)) = .ok (changes.foldl setFieldBytes s) := by
  induction changes generalizing s with
  | nil => rfl
  | cons x changes ih =>
    obtain ⟨⟨hf, hbytes⟩, hchanges⟩ := List.forall_mem_cons.mp h
    have hset : s.set (.name x.1.name.toList) (setting x) = .ok (s.setFieldBytes x) := by
      rw [set_eq (resolve_name hf) hbytes, setFieldBytes, dif_pos (length_settingBytes hbytes)]
    rw [List.map_cons, assignAll, List.foldlM_cons]
    dsimp only
    rw [hset, List.foldl_cons]
    exact ih hchanges (s.setFieldBytes x)

/-- The bytes of numbers. -/
def numberBytes (x : Field × Int) : Field × List UInt8 := (x.1, littleEndianBytes x.1.size x.2.toNat)

/-- Numbers that fit are all set. -/
theorem setNumbers_eq (s : SystemVariables) {numbers : List (Field × Int)}
    (hmem : ∀ x ∈ numbers, x.1 ∈ fields)
    (hfits : ∀ x ∈ numbers, x.1.size ≤ 2 ∧ 0 ≤ x.2 ∧ x.2 < (twoTo (8 * x.1.size) : Nat)) :
    s.setNumbers (numbers.map fun x => (x.1.name, x.2)) =
      ((numbers.map numberBytes).foldl setFieldBytes s, none) := by
  induction numbers generalizing s with
  | nil => rfl
  | cons x numbers ih =>
    obtain ⟨hx, hmem⟩ := List.forall_mem_cons.mp hmem
    obtain ⟨⟨hsize, hlow, hhigh⟩, hfits⟩ := List.forall_mem_cons.mp hfits
    have hset := @set_eq s _ _ _ _ (resolve_name hx) (settingBytes_number hsize hlow hhigh)
    have hbytes : setFieldBytes s (numberBytes x) =
        s.setField x.1 (littleEndianBytes x.1.size x.2.toNat) (length_littleEndianBytes _ _) :=
      dif_pos (length_littleEndianBytes _ _)
    rw [List.map_cons, setNumbers, hset, List.map_cons, List.foldl_cons, hbytes]
    exact ih _ hmem hfits

/-! ## Layouts -/

theorem pointer_name (s : SystemVariables) {f : Field} (hf : f ∈ fields) :
    s.pointer f.name = s.fieldNumber f := by
  rw [pointer, named?_name hf]
  rfl

/-- The structural fields with their numbers. -/
def Layout.numbers (l : Layout) : List (Field × Int) :=
  (fields.filter Field.structural).zip (l.pointers.map Prod.snd)

theorem Layout.pointers_eq (l : Layout) :
    l.pointers = l.numbers.map fun x => (x.1.name, x.2) := rfl

theorem Layout.map_fst_numbers (l : Layout) : l.numbers.map Prod.fst = fields.filter Field.structural :=
  rfl

theorem Layout.structural_of_mem {l : Layout} {x : Field × Int} (h : x ∈ l.numbers) :
    x.1 ∈ fields ∧ x.1.structural = true :=
  List.mem_filter.mp (l.map_fst_numbers ▸ List.mem_map_of_mem h)

/-- **The layout of the memory.** Pointers that fit are all written, and the fields that are no pointers
are kept. -/
theorem setLayout_spec (s : SystemVariables) {l : Layout}
    (h : ∀ p ∈ l.pointers, 0 ≤ p.2 ∧ p.2 ≤ 65535) :
    ∃ s', s.setLayout l = (s', none) ∧ (∀ p ∈ l.pointers, (s'.pointer p.1 : Int) = p.2) ∧
      s'.SameFree s := by
  have hsize : ∀ f ∈ fields, f.structural = true → f.size = 2 := by decide
  have hapart : (l.numbers.map numberBytes).Pairwise fun x y => x.1.Apart y.1 := by
    have hfields : (l.numbers.map Prod.fst).Pairwise Field.Apart :=
      l.map_fst_numbers ▸ pairwise_apart.filter _
    rw [List.pairwise_map] at hfields ⊢
    exact hfields
  have hfits : ∀ x ∈ l.numbers, x.1.size ≤ 2 ∧ 0 ≤ x.2 ∧ x.2 < (twoTo (8 * x.1.size) : Nat) := by
    intro x hx
    obtain ⟨hmem, hstructural⟩ := Layout.structural_of_mem hx
    have hrange := h (x.1.name, x.2) (l.pointers_eq ▸ List.mem_map_of_mem hx)
    rw [hsize x.1 hmem hstructural]
    exact ⟨Nat.le_refl 2, hrange.1, Int.lt_of_le_of_lt hrange.2 (by decide)⟩
  have hlengths : ∀ x ∈ l.numbers.map numberBytes, x.2.length = x.1.size := by
    intro x hx
    obtain ⟨y, -, rfl⟩ := List.mem_map.mp hx
    exact length_littleEndianBytes _ _
  obtain ⟨hown, hothers⟩ := s.fieldBytes_foldl_setFieldBytes hapart hlengths
  refine ⟨_, by rw [setLayout, l.pointers_eq, s.setNumbers_eq
    (fun x hx => (Layout.structural_of_mem hx).1) hfits], fun p hp => ?_, fun f hf hfree => ?_⟩
  · rw [l.pointers_eq] at hp
    obtain ⟨x, hx, rfl⟩ := List.mem_map.mp hp
    obtain ⟨-, hlow, hhigh⟩ := hfits x hx
    have hbytes : fieldBytes _ x.1 = littleEndianBytes x.1.size x.2.toNat :=
      hown _ (List.mem_map_of_mem hx)
    rw [pointer_name _ (Layout.structural_of_mem hx).1, fieldNumber, hbytes,
      littleEndian_littleEndianBytes (by omega)]
    omega
  · refine hothers f fun x hx => ?_
    obtain ⟨y, hy, rfl⟩ := List.mem_map.mp hx
    obtain ⟨hmem, hstructural⟩ := Layout.structural_of_mem hy
    refine apart_of_ne hmem hf fun heq => ?_
    have hfalse : y.1.structural = false := heq ▸ hfree
    exact absurd (hstructural.symm.trans hfalse) (by decide)

/-- Two records with the same pointers and the same other fields are equal. -/
theorem eq_of_pointers {s t : SystemVariables}
    (hpointers : ∀ f ∈ fields, f.structural = true → s.pointer f.name = t.pointer f.name)
    (hfree : s.SameFree t) : s = t := by
  refine eq_of_fieldBytes fun f hf => ?_
  cases hstructural : f.structural with
  | false => exact hfree f hf hstructural
  | true =>
    have hnumber := hpointers f hf hstructural
    rw [pointer_name s hf, pointer_name t hf, fieldNumber, fieldNumber] at hnumber
    rw [← littleEndianBytes_littleEndian (s.fieldBytes f),
      ← littleEndianBytes_littleEndian (t.fieldBytes f), hnumber, length_fieldBytes, length_fieldBytes]

end TapeBasic.SystemVariables
