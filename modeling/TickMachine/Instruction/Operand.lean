import TickMachine.Binary.Single
import TickMachine.Text.Quoted

/-! # Operands -/

namespace TickMachine

/-- The operand of an instruction. -/
inductive Operand
  | none
  | u8 (value : UInt8)
  | i8 (value : Int8)
  | u16 (value : UInt16)
  | i16 (value : Int16)
  | u32 (value : UInt32)
  | i32 (value : Int32)
  | f32 (value : Single)
  | str (value : String)
deriving DecidableEq, Repr

/-- The operand in listings. -/
def Operand.text : Operand → String
  | none => ""
  | u8 v => toString v.toNat
  | i8 v => toString v.toInt
  | u16 v => toString v.toNat
  | i16 v => toString v.toInt
  | u32 v => toString v.toNat
  | i32 v => toString v.toInt
  | f32 v => v.literal
  | str v => Text.quoted v

end TickMachine
