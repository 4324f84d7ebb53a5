import LateBinding.Module.Instruction
import LateBinding.Module.Pool

set_option autoImplicit false

/-! # Modules

A module has a name, a constant pool, fields and methods. A field and a method may carry
markers, each a pair of strings: its kind and its value. Every string is an index into the
pool, so a module by itself may well be inconsistent; `Module/Validation.lean` says when it
is not.

The functions below read a module through its pool: the name of the module, of a field,
and what a marker says.
-/

namespace LateBinding

/-- A marker: the constants of its kind and of its value. -/
structure Marker where
  kind : UInt16
  value : UInt16
  deriving DecidableEq, Inhabited

/-- A declared field. -/
structure Field where
  name : UInt16
  markers : List Marker := []
  deriving DecidableEq, Inhabited

/-- A declared method. -/
structure Method where
  name : UInt16
  params : UInt8 := 0
  locals : UInt8 := 0
  markers : List Marker := []
  code : Array Instruction := #[]
  deriving DecidableEq, Inhabited

/-- A compiled module. -/
structure Module where
  name : UInt16
  pool : Pool := {}
  fields : Array Field := #[]
  methods : Array Method := #[]
  deriving DecidableEq, Inhabited

/-- Number of local slots of a method: the receiver, the parameters, the further locals. -/
def Method.frameSize (method : Method) : Nat := 1 + method.params.toNat + method.locals.toNat

namespace Module

/-- The name of the module. -/
def title (m : Module) : Except PoolFault String := m.pool.string m.name

/-- The kind and the value of a marker. -/
def resolve (m : Module) (marker : Marker) : Except PoolFault (String × String) := do
  let kind ← m.pool.string marker.kind
  let value ← m.pool.string marker.value
  return (kind, value)

/-- Whether the constant at `index` is the string `name`. -/
def isNamed (m : Module) (index : UInt16) (name : String) : Bool :=
  match m.pool.string index with
  | .ok text => text == name
  | .error _ => false

/-- The least index of a field called `name`, if 16 bits can express it. -/
def fieldIndex? (m : Module) (name : String) : Option UInt16 :=
  match m.fields.findIdx? (m.isNamed ·.name name) with
  | some index => if index < UInt16.size then some (UInt16.ofNat index) else none
  | none => none

/-- The least index of a method called `name`. -/
def methodIndex? (m : Module) (name : String) : Option Nat :=
  m.methods.findIdx? (m.isNamed ·.name name)

end Module

end LateBinding
