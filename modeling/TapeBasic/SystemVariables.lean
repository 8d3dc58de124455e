import TapeBasic.Powers
import TapeBasic.SystemVariables.Field

/-!
# The system variables of a tape image (`set`, `set_layout`, `compare`)

A record of the 116 bytes with access by field. Fields of one or two bytes hold a number, its low byte
first; longer fields hold a row of bytes.

* `set` changes the bytes of one field and nothing else, or fails.
* `setLayout` writes the eight structural pointers.
* `diff` lists the other fields in which two records differ.
-/
namespace TapeBasic

open SystemVariables (Field Key blockSize)

/-- The 116 bytes of the system variables. -/
structure SystemVariables where
  image : List UInt8
  size_eq : image.length = blockSize

namespace SystemVariables

instance : BEq SystemVariables := ⟨fun a b => a.image == b.image⟩

/-- Why an access fails. -/
inductive Failure where
  | unresolved (why : Unresolved)
  /-- A number was given for a field that holds a row of bytes. -/
  | needsList (field : String) (size : Nat)
  /-- The number does not fit the field. -/
  | doesNotFit (field : String) (size : Nat) (value : Int)
  /-- The list has the wrong length. -/
  | wrongLength (field : String) (size : Nat) (length : Nat)
  /-- The list holds a number that is no byte. -/
  | notBytes (field : String)
  /-- The image has the wrong length. -/
  | wrongImageSize (length : Nat)
deriving DecidableEq, Repr

/-- What the failure says. -/
def Failure.message : Failure → List Char
  | .unresolved (.unknown key) => "Unknown system variable '".toList ++ key.text ++ "'".toList
  | .unresolved .badAddress => "The address of a system variable is no number".toList
  | .needsList field size =>
    field.toList ++ " is a ".toList ++ Text.decimal size ++ "-byte field; give a list of ".toList ++
      Text.decimal size ++ " bytes".toList
  | .doesNotFit field size value =>
    "Value ".toList ++ Text.signedDecimal value ++ " does not fit the ".toList ++ Text.decimal size ++
      "-byte system variable ".toList ++ field.toList
  | .wrongLength field size length =>
    field.toList ++ " needs ".toList ++ Text.decimal size ++ " bytes, got ".toList ++
      Text.decimal length
  | .notBytes field => "Byte values for ".toList ++ field.toList ++ " must be 0-255".toList
  | .wrongImageSize length =>
    "System variables need ".toList ++ Text.decimal blockSize ++ " bytes, got ".toList ++
      Text.decimal length

/-! ## Images -/

/-- The state after a reset (`create_default`). -/
def reset : SystemVariables := ⟨fields.flatMap Field.initial, by decide⟩

/-- The record with exactly these bytes. -/
def ofImage (image : List UInt8) : Except Failure SystemVariables :=
  if h : image.length = blockSize then .ok ⟨image, h⟩ else .error (.wrongImageSize image.length)

/-- The record at the start of a tape image (`from_bytes`). -/
def ofImageStart (image : List UInt8) : Except Failure SystemVariables := ofImage (image.take blockSize)

/-! ## Fields -/

/-- The number whose low byte comes first. -/
def littleEndian (bytes : List UInt8) : Nat := bytes.foldr (fun b n => b.toNat + 256 * n) 0

/-- The `size` bytes of a number, the low one first. -/
def littleEndianBytes : (size n : Nat) → List UInt8
  | 0, _ => []
  | size + 1, n => UInt8.ofNat n :: littleEndianBytes size (n / 256)

@[simp] theorem length_littleEndianBytes (size n : Nat) : (littleEndianBytes size n).length = size := by
  induction size generalizing n with
  | zero => rfl
  | succ size ih => simp [littleEndianBytes, ih]

/-- The bytes of a field. -/
def fieldBytes (s : SystemVariables) (f : Field) : List UInt8 := (s.image.drop f.offset).take f.size

/-- The number in a field. -/
def fieldNumber (s : SystemVariables) (f : Field) : Nat := littleEndian (s.fieldBytes f)

/-- The record with other bytes in one field. -/
def setField (s : SystemVariables) (f : Field) (bytes : List UInt8) (h : bytes.length = f.size) :
    SystemVariables where
  image := s.image.take f.offset ++ bytes ++ s.image.drop (f.offset + f.size)
  size_eq := by
    have := f.offset_add_size_le
    have := s.size_eq
    simp only [List.length_append, List.length_take, List.length_drop]
    omega

/-- What a field holds. -/
inductive Value where
  | number (n : Nat)
  | bytes (bytes : List UInt8)
deriving DecidableEq, Repr

/-- What a field is set to. -/
inductive Setting where
  | number (n : Int)
  | list (values : List Int)
deriving DecidableEq, Repr

/-- The field that a key names, as an access to the record. -/
def resolve (key : Key) : Except Failure Field :=
  match Field.find key with
  | .ok f => .ok f
  | .error why => .error (.unresolved why)

/-- The bytes of the field that a key names (`get_bytes`). -/
def getBytes (s : SystemVariables) (key : Key) : Except Failure (List UInt8) :=
  match resolve key with
  | .ok f => .ok (s.fieldBytes f)
  | .error failure => .error failure

/-- The value of a field: a number for one or two bytes, the bytes otherwise. -/
def fieldValue (s : SystemVariables) (f : Field) : Value :=
  if f.size ≤ 2 then .number (s.fieldNumber f) else .bytes (s.fieldBytes f)

/-- The value of the field that a key names (`get`). -/
def get (s : SystemVariables) (key : Key) : Except Failure Value :=
  match resolve key with
  | .ok f => .ok (s.fieldValue f)
  | .error failure => .error failure

/-- The bytes that a setting puts into a field. -/
def settingBytes (f : Field) : Setting → Except Failure (List UInt8)
  | .number n =>
    if 2 < f.size then .error (.needsList f.name f.size)
    else if n < 0 || (twoTo (8 * f.size) : Nat) ≤ n then .error (.doesNotFit f.name f.size n)
    else .ok (littleEndianBytes f.size n.toNat)
  | .list values =>
    if values.length ≠ f.size then .error (.wrongLength f.name f.size values.length)
    else if values.any fun v => v < 0 || 255 < v then .error (.notBytes f.name)
    else .ok (values.map fun v => UInt8.ofNat v.toNat)

theorem length_settingBytes {f : Field} {setting : Setting} {bytes : List UInt8}
    (h : settingBytes f setting = .ok bytes) : bytes.length = f.size := by
  cases setting with
  | number n =>
    simp only [settingBytes] at h
    split at h
    · simp at h
    · split at h
      · simp at h
      · cases h; simp
  | list values =>
    simp only [settingBytes] at h
    split at h
    · simp at h
    · split at h
      · simp at h
      · cases h; simp_all

/-- Sets the field that a key names (`set`). -/
def set (s : SystemVariables) (key : Key) (setting : Setting) : Except Failure SystemVariables :=
  match resolve key with
  | .error failure => .error failure
  | .ok f =>
    match h : settingBytes f setting with
    | .error failure => .error failure
    | .ok bytes => .ok (s.setField f bytes (length_settingBytes h))

/-! ## The layout of the memory -/

/-- Where the memory areas behind the program start. -/
structure Layout where
  displayFile : Int
  variableArea : Int
  /-- The address behind the end mark of the variables. -/
  editLine : Int
  /-- The line to run next; the display file when there is none. -/
  nextLine : Int
deriving DecidableEq, Repr

/-- The structural pointers of a layout. -/
def Layout.pointers (l : Layout) : List (String × Int) :=
  [ ("D_FILE", l.displayFile), ("DF_CC", l.displayFile + 1), ("VARS", l.variableArea),
    ("E_LINE", l.editLine), ("CH_ADD", l.editLine + 4), ("STKBOT", l.editLine + 5),
    ("STKEND", l.editLine + 5), ("NXTLIN", l.nextLine) ]

/-- Sets numbers one after the other. A failure ends the run and keeps what was set before it. -/
def setNumbers (s : SystemVariables) : List (String × Int) → SystemVariables × Option Failure
  | [] => (s, none)
  | (name, n) :: rest =>
    match s.set (.name name.toList) (.number n) with
    | .ok next => setNumbers next rest
    | .error failure => (s, some failure)

/-- Writes every structural pointer (`set_layout`). -/
def setLayout (s : SystemVariables) (l : Layout) : SystemVariables × Option Failure :=
  s.setNumbers l.pointers

/-- The number in a field that is known to exist. -/
def pointer (s : SystemVariables) (name : String) : Nat :=
  ((Field.named? name.toList).map s.fieldNumber).getD 0

/-! ## Comparison -/

/-- The fields apart from the structural ones in which `other` differs, with its bytes (`compare`). -/
def diff (s other : SystemVariables) : List (Field × List UInt8) :=
  (fields.filter fun f => !f.structural && s.fieldBytes f != other.fieldBytes f).map fun f =>
    (f, other.fieldBytes f)

/-- What the record is, in one line. -/
def summary (s : SystemVariables) : List Char :=
  "SystemVariables(D_FILE=".toList ++ Text.decimal (s.pointer "D_FILE") ++ ", NXTLIN=".toList ++
    Text.decimal (s.pointer "NXTLIN") ++ ")".toList

end SystemVariables

end TapeBasic
