/-! # Operation codes -/

namespace TickMachine

/-- The operand an operation works with. -/
inductive OperandKind
  | none
  /-- The index of an instruction, or a label in a source. -/
  | target
  /-- Condition bits. -/
  | mask
  /-- A signed integer of 32 bits. -/
  | immediate
  /-- A single precision number. -/
  | float
  /-- The address of a memory cell. -/
  | address
  /-- A general register. -/
  | register
  /-- A general register, which may be left out. -/
  | optionalRegister
deriving DecidableEq, Repr

/-- The operations of the machine. -/
inductive Opcode
  | nop | ret | halt | call | jump | or | and | loadInt | loadFloat | get | put | load | store
  | mulInt | incInt | addInt | subInt | negInt | cmpInt
  | mulFloat | incFloat | addFloat | subFloat | negFloat | cmpFloat
deriving DecidableEq, Repr

namespace Opcode

/-- All operations in the order of their codes. -/
def all : List Opcode :=
  [nop, ret, halt, call, jump, or, and, loadInt, loadFloat, get, put, load, store, mulInt, incInt,
   addInt, subInt, negInt, cmpInt, mulFloat, incFloat, addFloat, subFloat, negFloat, cmpFloat]

def code : Opcode → UInt8
  | nop => 0
  | ret => 1
  | halt => 2
  | call => 3
  | jump => 4
  | or => 5
  | and => 6
  | loadInt => 7
  | loadFloat => 8
  | get => 9
  | put => 10
  | load => 11
  | store => 12
  | mulInt => 13
  | incInt => 14
  | addInt => 15
  | subInt => 16
  | negInt => 17
  | cmpInt => 18
  | mulFloat => 19
  | incFloat => 20
  | addFloat => 21
  | subFloat => 22
  | negFloat => 23
  | cmpFloat => 24

def mnemonic : Opcode → String
  | nop => "nop"
  | ret => "return"
  | halt => "halt"
  | call => "call"
  | jump => "jmp"
  | or => "or"
  | and => "and"
  | loadInt => "ldi"
  | loadFloat => "ldf"
  | get => "get"
  | put => "put"
  | load => "load"
  | store => "store"
  | mulInt => "muli"
  | incInt => "inci"
  | addInt => "addi"
  | subInt => "subi"
  | negInt => "negi"
  | cmpInt => "cmpi"
  | mulFloat => "mulf"
  | incFloat => "incf"
  | addFloat => "addf"
  | subFloat => "subf"
  | negFloat => "negf"
  | cmpFloat => "cmpf"

def operandKind : Opcode → OperandKind
  | nop | ret | halt => .none
  | call | jump => .target
  | or | and => .mask
  | loadInt => .immediate
  | loadFloat => .float
  | get | put => .register
  | load | store => .address
  | mulInt | incInt | addInt | subInt | negInt | cmpInt => .optionalRegister
  | mulFloat | incFloat | addFloat | subFloat | negFloat | cmpFloat => .optionalRegister

/-- The operation with the given code. -/
def ofByte? (b : UInt8) : Option Opcode :=
  all.find? fun op => op.code == b

/-- The operation with the given mnemonic, in either case. -/
def ofMnemonic? (word : List Char) : Option Opcode :=
  let word := String.ofList (word.map Char.toLower)
  all.find? fun op => op.mnemonic == word

theorem ofByte?_code (op : Opcode) : ofByte? op.code = some op := by
  cases op <;> rfl

theorem code_of_ofByte? {b : UInt8} {op : Opcode} (h : ofByte? b = some op) : op.code = b := by
  simpa using List.find?_some h

end Opcode

end TickMachine
