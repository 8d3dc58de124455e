import TapeBasic.Chunks
import TapeBasic.Powers

/-!
# Picture files

Shades of gray are stored in the Portable Network Graphics format with one byte for each pixel, without compression.
-/
namespace TapeBasic.Png

/-- The four bytes of a number, the high one first. -/
def fourBytes (n : Nat) : List UInt8 :=
  [ UInt8.ofNat (n / twoTo 24), UInt8.ofNat (n / twoTo 16), UInt8.ofNat (n / twoTo 8), UInt8.ofNat n ]

/-! ## Checksums -/

/-- One bit of the cyclic redundancy check. -/
def crcBit (crc : UInt32) : UInt32 :=
  if crc &&& 1 == 0 then crc >>> 1 else (crc >>> 1) ^^^ 0xEDB88320

/-- One byte of the cyclic redundancy check. -/
def crcByte (crc : UInt32) (b : UInt8) : UInt32 :=
  Nat.repeat crcBit 8 (crc ^^^ b.toUInt32)

/-- The cyclic redundancy check of some bytes. -/
def crc (bytes : List UInt8) : UInt32 := bytes.foldl crcByte 0xFFFFFFFF ^^^ 0xFFFFFFFF

/-- The Adler checksum of some bytes. -/
def adler (bytes : List UInt8) : Nat :=
  let (a, b) := bytes.foldl (fun (a, b) x =>
    let a := (a + x.toNat) % 65521
    (a, (b + a) % 65521)) (1, 0)
  b * 65536 + a

/-! ## The file -/

/-- A chunk of the file: its size, its name, its data and their check. -/
def chunk (name : String) (data : List UInt8) : List UInt8 :=
  let named := name.toList.map (fun c => UInt8.ofNat c.toNat) ++ data
  fourBytes data.length ++ named ++ fourBytes (crc named).toNat

/-- The greatest size of a stored block. -/
def maxBlock : Nat := 65535

/-- A stored block: whether it is the last one, its size, the complement of its size, and its bytes. -/
def storedBlock (isLast : Bool) (block : List UInt8) : List UInt8 :=
  let size := block.length
  let complement := maxBlock - size
  [ if isLast then 1 else 0, UInt8.ofNat size, UInt8.ofNat (size / 256), UInt8.ofNat complement,
    UInt8.ofNat (complement / 256) ] ++ block

/-- Blocks of bytes as stored blocks. -/
def storedBlocks : List (List UInt8) → List UInt8
  | [] => storedBlock true []
  | [last] => storedBlock true last
  | block :: rest => storedBlock false block ++ storedBlocks rest

/-- The file of some rows of pixels. In front of each row stands that it has no filter. -/
def file (width height : Nat) (rows : List (List UInt8)) : List UInt8 :=
  let pixels := rows.flatMap (0 :: ·)
  [0x89, 0x50, 0x4E, 0x47, 0x0D, 0x0A, 0x1A, 0x0A] ++
    chunk "IHDR" (fourBytes width ++ fourBytes height ++ [8, 0, 0, 0, 0]) ++
    chunk "IDAT" ([0x78, 0x01] ++ storedBlocks (chunks maxBlock pixels) ++ fourBytes (adler pixels)) ++
    chunk "IEND" []

end TapeBasic.Png
