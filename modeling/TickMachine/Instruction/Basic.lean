import TickMachine.Instruction.Condition
import TickMachine.Instruction.Opcode
import TickMachine.Instruction.Operand
import TickMachine.Text.Numeral

/-! # Instructions -/

namespace TickMachine

/-- An instruction. Its code is kept as it was read, so that a code without an operation survives
loading; what it does is up to the machine. -/
structure Instruction where
  code : UInt8
  /-- The condition bits of which one has to be set; with none the instruction always runs. -/
  flags : UInt8
  operand : Operand
deriving DecidableEq, Repr

namespace Instruction

/-- An instruction with a predicate, of which only the condition bits are kept. -/
def ofOpcode (op : Opcode) (flags : UInt8) (operand : Operand) : Instruction :=
  ⟨op.code, flags &&& Condition.all, operand⟩

def opcode? (i : Instruction) : Option Opcode :=
  Opcode.ofByte? i.code

/-- The code as shown where it has no mnemonic. -/
def codeText (code : UInt8) : String :=
  "0x" ++ String.ofList (Text.hexByte code)

/-- The operand behind the mnemonic: registers and condition bits have a form of their own. -/
def operandText (kind : Option OperandKind) (operand : Operand) : String :=
  match kind, operand with
  | _, .none => ""
  | some .register, .u8 n | some .optionalRegister, .u8 n => s!" r{n.toNat}"
  | some .mask, .u8 bits => s!" {Condition.letters bits}"
  | _, operand => s!" {operand.text}"

/-- The instruction in listings: `mnemonic.condition operand`. -/
def text (i : Instruction) : String :=
  let name := match i.opcode? with
    | some op => op.mnemonic
    | none => s!"<{codeText i.code}>"
  let condition := if i.flags = 0 then "" else s!".{Condition.letters i.flags}"
  name ++ condition ++ operandText (i.opcode?.map Opcode.operandKind) i.operand

end Instruction

end TickMachine
