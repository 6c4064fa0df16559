import TickMachine.Image.Basic
import TickMachine.Image.Bytes
import TickMachine.Image.Error

/-! # The image format

An image starts with a magic, the version, the number of sections and the number of instructions.
The instructions follow one after the other: code, flags, operand tag and operand. All integers are
little endian. Bytes behind the last instruction do not belong to the image.
-/

namespace TickMachine

/-- The greatest length in bytes that a text operand has room for. -/
def maxStringSize : Nat := 65535

namespace Operand

/-- The byte that says which operand follows. -/
def tag : Operand → UInt8
  | none => 0
  | u8 _ => 1
  | i8 _ => 2
  | u16 _ => 3
  | i16 _ => 4
  | u32 _ => 5
  | i32 _ => 6
  | f32 _ => 7
  | str _ => 8

/-- The bytes behind the tag. A text is cut off where its room ends. -/
def payload : Operand → List UInt8
  | none => []
  | u8 v => Bytes.ofNat 1 v.toNat
  | i8 v => Bytes.ofNat 1 v.toUInt8.toNat
  | u16 v => Bytes.ofNat 2 v.toNat
  | i16 v => Bytes.ofNat 2 v.toUInt16.toNat
  | u32 v => Bytes.ofNat 4 v.toNat
  | i32 v => Bytes.ofNat 4 v.toUInt32.toNat
  | f32 v => Bytes.ofNat 4 v.bits.toNat
  | str v =>
    let bytes := v.toUTF8.data.toList.take maxStringSize
    Bytes.ofNat 2 bytes.length ++ bytes

end Operand

/-- The bytes of an instruction. -/
def Instruction.encode (i : Instruction) : List UInt8 :=
  i.code :: i.flags :: i.operand.tag :: i.operand.payload

namespace Image

/-- The bytes every image starts with. -/
def magic : List UInt8 := [0x59, 0x41, 0x4e, 0x47]

/-- The bytes of an image. -/
def encode (image : Image) : List UInt8 :=
  magic ++ Bytes.ofNat 2 imageVersion ++ Bytes.ofNat 2 image.sections.length ++
    Bytes.ofNat 4 image.instructions.length ++ image.instructions.flatMap Instruction.encode

end Image

/-- Reading from the front of bytes. -/
abbrev ByteReader (α : Type) : Type := StateT (List UInt8) (Except ImageError) α

namespace ByteReader

/-- Takes a fixed number of bytes. -/
def take (n : Nat) : ByteReader (List UInt8) := fun bytes =>
  match Bytes.split? n bytes with
  | some (front, rest) => .ok (front, rest)
  | none => .error .truncated

/-- Takes an integer of the given number of bytes. -/
def integer (width : Nat) : ByteReader Nat :=
  Bytes.toNat <$> take width

/-- Takes a byte. -/
def byte : ByteReader UInt8 :=
  UInt8.ofNat <$> integer 1

/-- Takes a text with its length in front. -/
def string : ByteReader String := do
  let size ← integer 2
  let bytes ← take size
  match String.fromUTF8? ⟨bytes.toArray⟩ with
  | some text => return text
  | none => throw .invalidString

/-- Takes the operand that a tag announces. -/
def operand (tag : UInt8) : ByteReader Operand :=
  match tag.toNat with
  | 0 => return .none
  | 1 => return .u8 (.ofNat (← integer 1))
  | 2 => return .i8 (UInt8.ofNat (← integer 1)).toInt8
  | 3 => return .u16 (.ofNat (← integer 2))
  | 4 => return .i16 (UInt16.ofNat (← integer 2)).toInt16
  | 5 => return .u32 (.ofNat (← integer 4))
  | 6 => return .i32 (UInt32.ofNat (← integer 4)).toInt32
  | 7 => return .f32 ⟨.ofNat (← integer 4)⟩
  | 8 => .str <$> string
  | _ => throw (.invalidOperandTag tag)

/-- Takes the code, flags and operand tag at once, then the operand. -/
def instruction : ByteReader Instruction := do
  let head ← take 3
  match head with
  | [code, flags, tag] => return ⟨code, flags, ← operand tag⟩
  | _ => throw .truncated

/-- Takes a number of instructions. -/
def instructions : Nat → ByteReader (List Instruction)
  | 0 => return []
  | n + 1 => do
    let first ← instruction
    let others ← instructions n
    return first :: others

/-- Takes the magic, or complains that there is none. -/
def magic : ByteReader Unit := fun bytes =>
  match Bytes.split? Image.magic.length bytes with
  | some (front, rest) => if front = Image.magic then .ok ((), rest) else .error .badMagic
  | none => .error .badMagic

/-- Takes an image. -/
def image : ByteReader Image := do
  magic
  let version ← integer 2
  if version = 0 ∨ imageVersion < version then throw (.unsupportedVersion version)
  let sections ← integer 2
  if sections = 0 ∨ sectionLimit ≤ sections then throw (.invalidSectionCount sections)
  let count ← integer 4
  return ⟨← instructions count⟩

end ByteReader

/-- Reads an image from the front of bytes. -/
def Image.decode (bytes : List UInt8) : Except ImageError Image :=
  Prod.fst <$> ByteReader.image bytes

end TickMachine
