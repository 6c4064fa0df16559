import TickMachine.Assembly.Line
import TickMachine.Instruction.Basic
import TickMachine.Instruction.Register

/-! # Written operands

Reading the operand that an operation asks for. Numbers denote mathematical integers and are
refused when they are outside of the range of the operand, whatever their length.
-/

namespace TickMachine.Assembly

/-- The places of the labels, as counts of the instructions in front of them. -/
abbrev Labels := List (String × Nat)

/-- Reads a whole number: hexadecimal behind `0x`, else decimal with an optional sign. -/
def integer? : List Char → Option Int
  | '0' :: 'x' :: digits | '0' :: 'X' :: digits => (Text.hexadecimal? digits).map Int.ofNat
  | cs => Text.integer? cs

/-- Reads a whole number within bounds. -/
def bounded? (low high : Int) (cs : List Char) : Option Int :=
  (integer? cs).filter fun n => low ≤ n ∧ n ≤ high

/-- Reads the index of a general register, with an optional `r` in front. -/
def register? : List Char → Option Nat
  | 'r' :: digits | 'R' :: digits => (Text.natural? digits).filter (· < registerCount)
  | digits => (Text.natural? digits).filter (· < registerCount)

/-- Reads condition bits as a number or as letters. -/
def mask? (cs : List Char) : Option UInt8 :=
  match integer? cs with
  | some n => if 0 ≤ n ∧ n ≤ 7 then some (.ofNat n.toNat) else none
  | none => Condition.ofLetters? cs

/-- Reads the index of an instruction or the label of one. -/
def readTarget (labels : Labels) (cs : List Char) : Except AssemblyCause Operand :=
  match identifier? cs with
  | some (name, []) =>
    match labels.lookup (String.ofList name) with
    | some index => .ok (.u32 (.ofNat index))
    | none => .error (.undefinedLabel (String.ofList name))
  | _ =>
    match bounded? 0 (UInt32.size - 1 : Nat) cs with
    | some n => .ok (.u32 (.ofNat n.toNat))
    | none => .error (.invalidOperand (String.ofList cs))

/-- Reads the operand of the given kind. -/
def readKind (kind : OperandKind) (labels : Labels) (cs : List Char) :
    Except AssemblyCause Operand :=
  let orInvalid : Option Operand → Except AssemblyCause Operand
    | some operand => .ok operand
    | none => .error (.invalidOperand (String.ofList cs))
  match kind with
  | .none => .error (.unexpectedOperand (String.ofList cs))
  | .target => readTarget labels cs
  | .mask => orInvalid ((mask? cs).map .u8)
  | .immediate =>
    orInvalid ((bounded? Int32.minValue.toInt Int32.maxValue.toInt cs).map fun n => .i32 (.ofInt n))
  | .float => orInvalid ((Single.ofChars? cs).map .f32)
  | .address =>
    orInvalid ((bounded? 0 (UInt16.size - 1 : Nat) cs).map fun n => .u16 (.ofNat n.toNat))
  | .register | .optionalRegister => orInvalid ((register? cs).map fun n => .u8 (.ofNat n))

/-- Reads the operand of an operation, if there is one. -/
def readOperand (op : Opcode) (labels : Labels) (text : Option (List Char)) :
    Except AssemblyCause Operand :=
  match op.operandKind, text with
  | .none, none | .optionalRegister, none => .ok .none
  | _, none => .error (.missingOperand op.mnemonic)
  | kind, some cs => readKind kind labels cs

end TickMachine.Assembly
