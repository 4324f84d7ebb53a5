import LateBinding.Module.Validation

set_option autoImplicit false

/-! # Building modules

A builder collects fields and methods and interns every string it is given. Each operation
answers with a result and the builder to go on with, also where it fails: a failing
operation declares nothing, and may leave strings in the pool. `Builder.build` interns the
name of the module last and hands out consistent modules only.
-/

namespace LateBinding

/-- A module under construction. -/
structure Builder where
  name : String
  pool : Pool := {}
  fields : Array Field := #[]
  methods : Array Method := #[]
  deriving Inhabited

/-- One item of a method body under construction. -/
inductive CodeItem where
  | emit (insn : Instruction)
  /-- Push the string `text`, interned. -/
  | pushString (text : String)
  /-- Give the branch at `location` the jump target `target`. -/
  | retarget (location target : UInt32)
  /-- Note where the next instruction will stand. -/
  | mark

/-- A method body under construction. The first fault of the pool is kept. -/
structure Assembly where
  pool : Pool
  code : Array Instruction := #[]
  fault : Option PoolFault := none
  marks : Array Nat := #[]

namespace Assembly

/-- Where the next instruction will stand, as far as 32 bits can express it. -/
def position (a : Assembly) : Nat := min a.code.size (UInt32.size - 1)

/-- Append one item. -/
def add (a : Assembly) : CodeItem → Assembly
  | .emit insn => { a with code := a.code.push insn }
  | .pushString text =>
    match a.pool.intern text with
    | .ok (index, pool) => { a with pool, code := a.code.push (.pushConst index) }
    | .error fault => { a with fault := a.fault.or (some fault) }
  | .retarget location target =>
    { a with code := a.code.modify location.toNat (·.retarget target) }
  | .mark => { a with marks := a.marks.push a.position }

end Assembly

/-- The outcome of an operation and the builder to go on with. -/
abbrev Building (α : Type) := Builder → Except FormatError α × Builder

namespace Builder

variable {α β : Type}

/-- Go on with `next` where `first` succeeds. -/
def andThen (first : Building α) (next : α → Building β) : Building β := fun b =>
  match first b with
  | (.ok value, b') => next value b'
  | (.error cause, b') => (.error cause, b')

instance : Monad Building where
  pure value := fun b => (.ok value, b)
  bind := andThen

/-- The index of a string, appended to the pool where it is not there yet. -/
def intern (text : String) : Building UInt16 := fun b =>
  match b.pool.intern text with
  | .ok (index, pool) => (.ok index, { b with pool })
  | .error fault => (.error (.pool fault), b)

/-- Intern the kinds and the values of markers, in order. -/
def internMarkers : List (String × String) → Building (List Marker)
  | [] => pure []
  | (kind, value) :: rest => do
    let kind ← intern kind
    let value ← intern value
    let rest ← internMarkers rest
    return ⟨kind, value⟩ :: rest

/-- Append a field and answer with its index. -/
def pushField (field : Field) : Building UInt16 := fun b =>
  if b.fields.size < UInt16.size then
    (.ok (UInt16.ofNat b.fields.size), { b with fields := b.fields.push field })
  else (.error .fieldsFull, b)

/-- Declare a field with markers, each a kind and a value, and answer with its index. -/
def field (name : String) (markers : List (String × String) := []) : Building UInt16 := do
  let name ← intern name
  let markers ← internMarkers markers
  pushField { name, markers }

/-- Assemble a method body in the builder's pool. -/
def assemble (items : List CodeItem) : Building Assembly := fun b =>
  let a := items.foldl Assembly.add { pool := b.pool }
  let b := { b with pool := a.pool }
  match a.fault with
  | none => (.ok a, b)
  | some fault => (.error (.pool fault), b)

/-- Append a method. -/
def pushMethod (method : Method) : Building Unit := fun b =>
  (.ok (), { b with methods := b.methods.push method })

/-- Declare a method and answer with the positions that its body marked. -/
def method (name : String) (params locals : UInt8) (items : List CodeItem) :
    Building (Array Nat) := do
  let name ← intern name
  let body ← assemble items
  pushMethod { name, params, locals, code := body.code }
  return body.marks

/-- Finish the module. -/
def build (b : Builder) : Except FormatError Module := do
  let (name, pool) ← orFormat (b.pool.intern b.name)
  let m : Module := { name, pool, fields := b.fields, methods := b.methods }
  m.validate
  return m

end Builder

end LateBinding
