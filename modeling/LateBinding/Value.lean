set_option autoImplicit false

/-! # Values and instances

Providers give and methods compute values: nothing, an integer, a string, or an instance of
a module. An instance has one slot for each field of its module; it is known by its place
in the heap, so two values are the same object exactly when they name the same place. The
name of its module never changes, its slots may.
-/

namespace LateBinding

/-- Where an instance lives. -/
abbrev InstanceId := Nat

/-- A value. -/
inductive Value where
  | null
  | int (number : Int64)
  | str (text : String)
  | object (id : InstanceId)
  deriving DecidableEq, Inhabited

/-- What sort of value a value is. -/
inductive ValueSort where
  | null
  | int
  | str
  | object
  deriving DecidableEq

/-- The sort as diagnoses name it. -/
def ValueSort.title : ValueSort → String
  | null => "null"
  | int => "int"
  | str => "str"
  | object => "object"

/-- The sort of a value. -/
def Value.sort : Value → ValueSort
  | null => .null
  | int _ => .int
  | str _ => .str
  | object _ => .object

/-- An instance of a module. -/
structure Instance where
  /-- Name of the module. -/
  owner : String
  slots : Array Value
  deriving DecidableEq, Inhabited

/-- All instances, each at its place. -/
abbrev Heap := Array Instance

namespace Heap

/-- Add an instance with `slots` empty slots: its place, and the heap that holds it. -/
def allocate (heap : Heap) (owner : String) (slots : Nat) : InstanceId × Heap :=
  (heap.size, heap.push ⟨owner, Array.replicate slots .null⟩)

/-- The name of the module of the instance at `id`. -/
def owner? (heap : Heap) (id : InstanceId) : Option String := heap[id]?.map Instance.owner

/-- The value in slot `index` of the instance at `id`. -/
def slot? (heap : Heap) (id : InstanceId) (index : Nat) : Option Value :=
  heap[id]?.bind (·.slots[index]?)

/-- Store a value in slot `index` of the instance at `id`, if there is such a slot. -/
def store (heap : Heap) (id : InstanceId) (index : Nat) (value : Value) : Heap :=
  heap.modify id fun obj => { obj with slots := obj.slots.setIfInBounds index value }

/-- A value as text. An instance shows the name of its module only. -/
def display (heap : Heap) : Value → String
  | .null => "null"
  | .int number => toString number
  | .str text => text
  | .object id => "<" ++ (heap.owner? id).getD "" ++ " instance>"

end Heap

end LateBinding
