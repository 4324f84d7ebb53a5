import LateBinding.Module.FormatError

set_option autoImplicit false

/-! # Consistent modules

`Module.validate` checks every cross reference of a module and reports the first that is
wrong, in this order: the name of the module; of each field its name and markers; of each
method its name, its markers and its code. A module that passes can be read without any
further check: its names and markers are strings, its constants, fields and local slots
exist, and its jumps stay inside the method.
-/

namespace LateBinding

namespace Module

/-- Check the operands of one instruction of `method`. -/
def checkInstruction (m : Module) (method : Method) : Instruction → Except CodeFault Unit
  | .pushConst index =>
    if (m.pool.get? index).isSome then .ok () else .error (.constantOutside index)
  | .loadLocal slot | .storeLocal slot =>
    if slot.toNat < method.frameSize then .ok ()
    else .error (.localOutside slot method.frameSize)
  | .getField index | .putField index =>
    if index.toNat < m.fields.size then .ok () else .error (.fieldOutside index)
  | .invokeDynamic symbol slot => do
    let _ ← (m.pool.string symbol).mapError .notString
    let _ ← (m.pool.string slot).mapError .notString
    return ()
  | .jump target | .jumpIfNull target =>
    if target.toNat < method.code.size then .ok ()
    else .error (.jumpBeyond target method.code.size)
  | _ => .ok ()

/-- Check that every marker is made of strings. -/
def checkMarkers (m : Module) (markers : List Marker) : Except FormatError Unit :=
  markers.forM fun marker => do
    let _ ← orFormat (m.resolve marker)
    return ()

/-- Check the name and the markers of a field. -/
def checkField (m : Module) (field : Field) : Except FormatError Unit := do
  let _ ← orFormat (m.pool.string field.name)
  m.checkMarkers field.markers

/-- Check the code of a method called `name`. -/
def checkCode (m : Module) (name : String) (method : Method) : Except FormatError Unit :=
  method.code.toList.zipIdx.forM fun (insn, pc) =>
    (m.checkInstruction method insn).mapError (.inCode name pc insn)

/-- Check the name, the markers and the code of a method. -/
def checkMethod (m : Module) (method : Method) : Except FormatError Unit := do
  let name ← orFormat (m.pool.string method.name)
  m.checkMarkers method.markers
  m.checkCode name method

/-- Check every cross reference of the module. -/
def validate (m : Module) : Except FormatError Unit := do
  let _ ← orFormat m.title
  m.fields.toList.forM m.checkField
  m.methods.toList.forM m.checkMethod

/-- The name of the field at `index`. -/
def fieldName (m : Module) (index : UInt16) : Except FormatError String :=
  match m.fields[index.toNat]? with
  | some field => orFormat (m.pool.string field.name)
  | none => .error (.noField index)

end Module

end LateBinding
