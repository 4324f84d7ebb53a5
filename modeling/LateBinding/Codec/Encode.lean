import LateBinding.Codec.Decode

set_option autoImplicit false

/-! # Encoding modules

`Module.bytes` writes a module in the layout of `Codec/Decode.lean`. The layout limits how
long a table, a string and a method may be; `checkLimits` reports the first limit that a
module passes, in the order in which the parts are written, and `encode` writes the modules
that pass none. A module need not be consistent to be written.
-/

namespace LateBinding

namespace Codec

/-- Write two bytes. -/
def u16Bytes (value : UInt16) : Bytes := toLittleEndian 2 value.toNat

/-- Write four bytes. -/
def u32Bytes (value : UInt32) : Bytes := toLittleEndian 4 value.toNat

/-- Write a signed number as eight bytes. -/
def i64Bytes (value : Int64) : Bytes := toLittleEndian 8 value.toUInt64.toNat

end Codec

open Codec

/-- The operands of an instruction. -/
def Instruction.operandBytes : Instruction → Bytes
  | .pushInt value => i64Bytes value
  | .pushConst index | .getField index | .putField index => u16Bytes index
  | .loadLocal slot | .storeLocal slot => [slot]
  | .invokeDynamic symbol slot => u16Bytes symbol ++ u16Bytes slot
  | .jump target | .jumpIfNull target => u32Bytes target
  | .nop | .pushNull | .add | .concat | .pop | .dup | .ret => []

/-- The bytes of an instruction. -/
def Instruction.bytes (insn : Instruction) : Bytes := insn.opcode :: insn.operandBytes

/-- The bytes of a constant. -/
def Constant.bytes : Constant → Bytes
  | .str text =>
    let content := Text.utf8 text
    stringTag :: (toLittleEndian 4 content.length ++ content)
  | .int value => intTag :: i64Bytes value

/-- The bytes of a marker. -/
def Marker.bytes (marker : Marker) : Bytes := u16Bytes marker.kind ++ u16Bytes marker.value

/-- The bytes of a list of markers. -/
def Codec.markersBytes (markers : List Marker) : Bytes :=
  toLittleEndian 1 markers.length ++ markers.flatMap Marker.bytes

/-- The bytes of a field. -/
def Field.bytes (field : Field) : Bytes := u16Bytes field.name ++ markersBytes field.markers

/-- The bytes of a list of instructions. -/
def Codec.codeBytes (code : Array Instruction) : Bytes :=
  toLittleEndian 4 code.size ++ code.toList.flatMap Instruction.bytes

/-- The bytes of a method. -/
def Method.bytes (method : Method) : Bytes :=
  u16Bytes method.name ++ [method.params, method.locals] ++ markersBytes method.markers ++
    codeBytes method.code

namespace Module

/-- The bytes of a module that keeps to the limits of the format. -/
def bytes (m : Module) : Bytes :=
  magic ++ u16Bytes version ++ u16Bytes m.name ++
    (toLittleEndian 2 m.pool.size ++ m.pool.entries.toList.flatMap Constant.bytes) ++
    (toLittleEndian 2 m.fields.size ++ m.fields.toList.flatMap Field.bytes) ++
    (toLittleEndian 2 m.methods.size ++ m.methods.toList.flatMap Method.bytes)

/-! ## Limits of the format -/

/-- A table of `count` entries needs a count below `limit`. -/
def checkTable (table : Table) (count limit : Nat) : Except FormatError Unit :=
  if count < limit then .ok () else .error (.tooMany table count)

/-- A list of markers has a count of one byte. -/
def checkMarkerCount (markers : List Marker) : Except FormatError Unit :=
  checkTable .markers markers.length UInt8.size

/-- A string has a length of four bytes. -/
def checkConstant : Constant → Except FormatError Unit
  | .str text => if text.utf8ByteSize < UInt32.size then .ok () else .error .stringTooLong
  | .int _ => .ok ()

/-- A method has an instruction count of four bytes. -/
def checkMethodSize (method : Method) : Except FormatError Unit := do
  checkMarkerCount method.markers
  if method.code.size < UInt32.size then return () else throw .methodTooLong

/-- The first limit of the format that the module does not keep to. -/
def checkLimits (m : Module) : Except FormatError Unit := do
  checkTable .constants m.pool.size UInt16.size
  m.pool.entries.toList.forM checkConstant
  checkTable .fields m.fields.size UInt16.size
  m.fields.toList.forM (checkMarkerCount ·.markers)
  checkTable .methods m.methods.size UInt16.size
  m.methods.toList.forM checkMethodSize

end Module

/-- The bytes of a module, if it keeps to the limits of the format. -/
def Codec.encode (m : Module) : Except FormatError Bytes := do
  m.checkLimits
  return m.bytes

end LateBinding
