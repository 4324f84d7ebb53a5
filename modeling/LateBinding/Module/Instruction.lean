set_option autoImplicit false

/-! # Instructions

A method body is a list of instructions for a machine with an operand stack and numbered
local slots. Constants, fields and local slots are named by index; a jump names the index
of the instruction to go on with, so replacing an instruction by another leaves every jump
as it was.

Three tables describe an instruction: its `mnemonic` with operands (`text`), its `opcode`,
and its `encodedSize`, the opcode byte and the operands together.
-/

namespace LateBinding

/-- One instruction of a method body. -/
inductive Instruction where
  | nop
  | pushNull
  | pushInt (value : Int64)
  | pushConst (index : UInt16)
  | loadLocal (slot : UInt8)
  | storeLocal (slot : UInt8)
  | getField (field : UInt16)
  | putField (field : UInt16)
  | add
  | concat
  /-- Calls the provider named `symbol` for the field named `slot`, both constants. -/
  | invokeDynamic (symbol slot : UInt16)
  | pop
  | dup
  | jump (target : UInt32)
  | jumpIfNull (target : UInt32)
  | ret
  deriving DecidableEq, Inhabited

namespace Instruction

/-- The instruction as a listing shows it. -/
def text : Instruction → String
  | nop => "nop"
  | pushNull => "push_null"
  | pushInt value => s!"push_int {value}"
  | pushConst index => s!"push_const #{index}"
  | loadLocal slot => s!"load_local {slot}"
  | storeLocal slot => s!"store_local {slot}"
  | getField field => s!"get_field @{field}"
  | putField field => s!"put_field @{field}"
  | add => "add"
  | concat => "concat"
  | invokeDynamic symbol slot => s!"invoke_dynamic #{symbol} slot #{slot}"
  | pop => "pop"
  | dup => "dup"
  | jump target => s!"jump {target}"
  | jumpIfNull target => s!"jump_if_null {target}"
  | ret => "return"

/-- The byte that opens the encoded instruction. -/
def opcode : Instruction → UInt8
  | nop => 0x00
  | pushNull => 0x01
  | pushInt _ => 0x02
  | pushConst _ => 0x03
  | loadLocal _ => 0x10
  | storeLocal _ => 0x11
  | getField _ => 0x20
  | putField _ => 0x21
  | add => 0x30
  | concat => 0x31
  | invokeDynamic _ _ => 0x40
  | pop => 0x50
  | dup => 0x51
  | jump _ => 0x60
  | jumpIfNull _ => 0x61
  | ret => 0xF0

/-- Number of bytes the encoded instruction takes. -/
def encodedSize : Instruction → Nat
  | pushInt _ => 9
  | pushConst _ | getField _ | putField _ => 3
  | loadLocal _ | storeLocal _ => 2
  | invokeDynamic _ _ | jump _ | jumpIfNull _ => 5
  | nop | pushNull | add | concat | pop | dup | ret => 1

/-- Where a branch may go. -/
def branchTarget? : Instruction → Option UInt32
  | jump target | jumpIfNull target => some target
  | _ => none

/-- The instruction with `target` for its jump target; only a branch has one. -/
def retarget (insn : Instruction) (target : UInt32) : Instruction :=
  match insn with
  | jump _ => jump target
  | jumpIfNull _ => jumpIfNull target
  | other => other

end Instruction

end LateBinding
