import LateBinding.Codec.Reader
import LateBinding.Module.Validation

set_option autoImplicit false

/-! # Decoding modules

The layout of a module, with all numbers low byte first:

    signature "RWM\0" | version u16 | name u16
    constants: count u16 { tag u8 | 1: length u32, UTF-8 bytes | 2: i64 }
    fields:    count u16 { name u16 | markers }
    methods:   count u16 { name u16 | params u8 | locals u8 | markers | code }
    markers:   count u8  { kind u16 | value u16 }
    code:      count u32 { opcode u8, operands }

`decode` reads all of it, wants no byte to be left, and hands out consistent modules only.
-/

namespace LateBinding.Codec

/-- The bytes every module opens with. -/
def magic : Bytes := [0x52, 0x57, 0x4D, 0x00]

/-- The one version of the format. -/
def version : UInt16 := 1

/-- The byte in front of a string constant. -/
def stringTag : UInt8 := 1

/-- The byte in front of an integer constant. -/
def intTag : UInt8 := 2

open Reader

/-- Read a string of `length` bytes. -/
def readString (length : Nat) : Reader String := do
  let bytes ← take length
  match Text.ofUtf8? bytes with
  | some text => return text
  | none => fail (.notUtf8 ((Text.utf8Fault? bytes).getD (.incomplete length)))

/-- Read a constant. -/
def readConstant : Reader Constant := do
  let tag ← u8
  if tag = stringTag then
    let length ← u32
    let text ← readString length.toNat
    return .str text
  else if tag = intTag then
    let value ← i64
    return .int value
  else fail (.unknownTag tag)

/-- Read a marker. -/
def readMarker : Reader Marker := do
  let kind ← u16
  let value ← u16
  return ⟨kind, value⟩

/-- Read a counted list of markers. -/
def readMarkers : Reader (List Marker) := do
  let count ← u8
  let markers ← many readMarker count.toNat #[]
  return markers.toList

/-- Read the operands of the instruction that `opcode`, found at `position`, opens. -/
def readOperands (opcode : UInt8) (position : Nat) : Reader Instruction :=
  match opcode with
  | 0x00 => return .nop
  | 0x01 => return .pushNull
  | 0x02 => map .pushInt i64
  | 0x03 => map .pushConst u16
  | 0x10 => map .loadLocal u8
  | 0x11 => map .storeLocal u8
  | 0x20 => map .getField u16
  | 0x21 => map .putField u16
  | 0x30 => return .add
  | 0x31 => return .concat
  | 0x40 => do
    let symbol ← u16
    let slot ← u16
    return .invokeDynamic symbol slot
  | 0x50 => return .pop
  | 0x51 => return .dup
  | 0x60 => map .jump u32
  | 0x61 => map .jumpIfNull u32
  | 0xF0 => return .ret
  | _ => fail (.unknownOpcode opcode position)

/-- Read an instruction. -/
def readInstruction : Reader Instruction := do
  let start ← position
  let opcode ← u8
  readOperands opcode start

/-- Refuse to go on for `count` instructions, a byte each at least, with fewer bytes left. -/
def guardCode (count : Nat) : Reader Unit := fun cursor =>
  if (cursor.rest.take count).length = count then .ok ((), cursor)
  else .error (.codeTooLong count cursor.rest.length)

/-- Read a counted list of instructions. -/
def readCode : Reader (Array Instruction) := do
  let count ← u32
  guardCode count.toNat
  many readInstruction count.toNat #[]

/-- Read a field. -/
def readField : Reader Field := do
  let name ← u16
  let markers ← readMarkers
  return { name, markers }

/-- Read a method. -/
def readMethod : Reader Method := do
  let name ← u16
  let params ← u8
  let locals ← u8
  let markers ← readMarkers
  let code ← readCode
  return { name, params, locals, markers, code }

/-- Read the signature. -/
def readMagic : Reader Unit := do
  let found ← take 4
  if found = magic then return () else fail (.badMagic found)

/-- Read the version. -/
def readVersion : Reader Unit := do
  let found ← u16
  if found = version then return () else fail (.unsupportedVersion found)

/-- Read a module, consistent or not. -/
def readModule : Reader Module := do
  readMagic
  readVersion
  let name ← u16
  let constantCount ← u16
  let constants ← many readConstant constantCount.toNat #[]
  let fieldCount ← u16
  let fields ← many readField fieldCount.toNat #[]
  let methodCount ← u16
  let methods ← many readMethod methodCount.toNat #[]
  return { name, pool := ⟨constants⟩, fields, methods }

/-- Read a module and nothing after it. -/
def parse (bytes : Bytes) : Except FormatError Module := do
  let (m, cursor) ← readModule ⟨0, bytes⟩
  if cursor.rest.isEmpty then return m else throw (.trailing cursor.rest.length)

/-- The consistent module with these bytes. -/
def decode (bytes : Bytes) : Except FormatError Module := do
  let m ← parse bytes
  m.validate
  return m

end LateBinding.Codec
