import LateBinding.Text.Utf8

set_option autoImplicit false

/-! # The constant pool of a module

A pool is a numbered list of strings and integers. The other parts of a module name their
strings by index, so a pool only ever grows at its end (`Pool.push`, `Pool.intern`): an
index that was handed out keeps its constant. `Pool.find?` looks a string up by content
and answers with the least index that holds it.

Indices are 16 bits wide. A pool takes a new constant as long as the constant's own index
still fits, hence at most `Pool.capacity` constants in all.
-/

namespace LateBinding

/-- An entry of a constant pool. -/
inductive Constant where
  | str (text : String)
  | int (value : Int64)
  deriving DecidableEq, Inhabited

/-- Whether a constant is the string `text`. -/
def Constant.isString (text : String) : Constant → Bool
  | .str found => found == text
  | .int _ => false

/-- A numbered list of constants. -/
structure Pool where
  entries : Array Constant := #[]
  deriving DecidableEq, Inhabited

/-- Why a pool does not give what was asked of it. -/
inductive PoolFault where
  /-- The constant at `index` is an integer, and a string was asked for. -/
  | notString (index : UInt16)
  /-- There are only `size` constants. -/
  | outOfRange (index : UInt16) (size : Nat)
  /-- There is no index left for another constant. -/
  | full
  deriving DecidableEq, Repr

/-- The fault in words. -/
def PoolFault.message : PoolFault → String
  | .notString index => s!"constant #{index} is an integer, expected a string"
  | .outOfRange index size => s!"constant #{index} out of range ({size} entries)"
  | .full => "constant pool exceeds 65535 entries"

namespace Pool

/-- The largest number of constants: one for every index of 16 bits. -/
def capacity : Nat := 65536

/-- Number of constants. -/
def size (pool : Pool) : Nat := pool.entries.size

/-- The constant at `index`. -/
def get? (pool : Pool) (index : UInt16) : Option Constant := pool.entries[index.toNat]?

/-- The string at `index`. -/
def string (pool : Pool) (index : UInt16) : Except PoolFault String :=
  match pool.get? index with
  | some (.str text) => .ok text
  | some (.int _) => .error (.notString index)
  | none => .error (.outOfRange index pool.size)

/-- The least index that holds the string `text`, if 16 bits can express it. -/
def find? (pool : Pool) (text : String) : Option UInt16 :=
  match pool.entries.findIdx? (Constant.isString text) with
  | some index => if index < capacity then some (UInt16.ofNat index) else none
  | none => none

/-- Append a constant: its index, and the pool that holds it. -/
def push (pool : Pool) (constant : Constant) : Except PoolFault (UInt16 × Pool) :=
  if pool.size < capacity then
    .ok (UInt16.ofNat pool.size, ⟨pool.entries.push constant⟩)
  else .error .full

/-- The index of the string `text`, which is appended where the pool does not hold it. -/
def intern (pool : Pool) (text : String) : Except PoolFault (UInt16 × Pool) :=
  match pool.find? text with
  | some index => .ok (index, pool)
  | none => pool.push (.str text)

end Pool

end LateBinding
