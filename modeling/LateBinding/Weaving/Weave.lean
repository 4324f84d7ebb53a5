import LateBinding.Codec.Encode
import LateBinding.Weaving.InjectionPoint

set_option autoImplicit false

/-! # Weaving modules

Weaving turns every read of an injection point into a dynamic call that names the field's
provider and the field. The object that the field would have been read from is left where
it is, for the call to take. Each read is replaced by exactly one instruction and nothing
else changes, so jumps keep their meaning.

The strings of the call are interned. They come from the pool of the module itself, and
hence the pool does not grow. Where a field is marked more than once, its last marker names
the provider.
-/

namespace LateBinding

/-- The operands of the dynamic call that replaces reads of a field. -/
structure CallTarget where
  symbol : UInt16
  slot : UInt16
  deriving DecidableEq, Inhabited

/-- For each field by index, the call that replaces its reads. -/
abbrev CallTargets := Array (Option CallTarget)

/-- The call that replaces reads of the field at `index`. -/
def CallTargets.at? (targets : CallTargets) (index : UInt16) : Option CallTarget :=
  (targets[index.toNat]?).join

/-- The instruction that takes the place of `insn`. -/
def Instruction.weave (targets : CallTargets) (insn : Instruction) : Instruction :=
  match insn with
  | .getField index =>
    match targets.at? index with
    | some target => .invokeDynamic target.symbol target.slot
    | none => insn
  | _ => insn

/-- Whether `insn` reads a field whose reads are replaced. -/
def Instruction.isWoven (targets : CallTargets) : Instruction → Bool
  | .getField index => (targets.at? index).isSome
  | _ => false

/-- The method with the reads in its code replaced. -/
def Method.weave (targets : CallTargets) (method : Method) : Method :=
  { method with code := method.code.map (·.weave targets) }

/-- Number of reads in the code that are replaced. -/
def Method.wovenSites (targets : CallTargets) (method : Method) : Nat :=
  method.code.countP (·.isWoven targets)

/-- What weaving did to a module. -/
structure WeaveSummary where
  /-- Name of the module. -/
  owner : String
  points : List InjectionPoint
  /-- Number of reads that became dynamic calls. -/
  sites : Nat
  deriving DecidableEq, Inhabited

/-- Whether the module changed. -/
def WeaveSummary.isModified (summary : WeaveSummary) : Bool := 0 < summary.sites

namespace Module

/-- Intern the strings of one injection point and note its call. -/
def addTarget (state : Pool × CallTargets) (point : InjectionPoint) :
    Except PoolFault (Pool × CallTargets) := do
  let (pool, targets) := state
  let (symbol, pool) ← pool.intern point.symbol
  let (slot, pool) ← pool.intern point.slot
  return (pool, targets.setIfInBounds point.fieldIndex.toNat (some ⟨symbol, slot⟩))

/-- Intern the strings of all injection points and note their calls. -/
def targets (m : Module) (points : List InjectionPoint) :
    Except PoolFault (Pool × CallTargets) :=
  points.foldlM addTarget (m.pool, Array.replicate m.fields.size none)

/-- Replace the reads of all injection points of the kind. -/
def weave (m : Module) (kind : String) : Except FormatError (Module × WeaveSummary) := do
  let points ← m.scan kind
  let owner ← orFormat m.title
  let (pool, targets) ← orFormat (m.targets points)
  let woven := { m with pool, methods := m.methods.map (·.weave targets) }
  let sites := (m.methods.toList.map (·.wovenSites targets)).foldr (· + ·) 0
  return (woven, { owner, points, sites })

end Module

/-- Weave the module with these bytes and write it back. -/
def Codec.weave (kind : String) (bytes : Bytes) :
    Except FormatError (Bytes × WeaveSummary) := do
  let m ← decode bytes
  let (woven, summary) ← m.weave kind
  let out ← encode woven
  return (out, summary)

end LateBinding
