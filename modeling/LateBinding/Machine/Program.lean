import LateBinding.Container.Basic
import LateBinding.Module.Validation

set_option autoImplicit false

/-! # Programs

A program is a consistent module that is ready to run. Every dynamic call in its code has a
call site of its own in the container, known by the index of the method and of the
instruction.
-/

namespace LateBinding

/-- The place of a call site in a program. -/
structure ProgramSite where
  /-- Index of the method. -/
  method : Nat
  /-- Index of the instruction. -/
  pc : Nat
  site : SiteId
  deriving DecidableEq, Inhabited

/-- A module that is ready to run. -/
structure Program where
  /-- Name of the module. -/
  name : String
  code : Module
  /-- All call sites, by method and then by instruction. -/
  sites : List ProgramSite
  deriving Inhabited

/-- A dynamic call: its place, and the strings of its operands. -/
structure DynamicCall where
  method : Nat
  pc : Nat
  symbol : String
  slot : String
  deriving DecidableEq, Inhabited

namespace Module

/-- The dynamic calls in the code of the method at index `method`. -/
def methodCalls (m : Module) (code : Array Instruction) (method : Nat) : List DynamicCall :=
  code.toList.zipIdx.filterMap fun (insn, pc) =>
    match insn with
    | .invokeDynamic symbol slot =>
      match m.pool.string symbol, m.pool.string slot with
      | .ok symbol, .ok slot => some { method, pc, symbol, slot }
      | _, _ => none
    | _ => none

/-- The dynamic calls of a module whose operands are strings. -/
def dynamicCalls (m : Module) : List DynamicCall :=
  m.methods.toList.zipIdx.flatMap fun (method, index) => m.methodCalls method.code index

end Module

namespace Program

/-- The call site of the instruction at `pc` in the method at index `method`. -/
def siteAt? (program : Program) (method pc : Nat) : Option SiteId :=
  (program.sites.find? fun s => s.method = method ∧ s.pc = pc).map ProgramSite.site

/-- The first method called `name`, with its index. -/
def method? (program : Program) (name : String) : Option (Nat × Method) := do
  let index ← program.code.methodIndex? name
  let method ← program.code.methods[index]?
  return (index, method)

/-- Number of call sites that are bound. -/
def linkedSites (program : Program) (c : Container) : Nat :=
  program.sites.countP fun s => (c.site s.site).isLinked

end Program

namespace Container

/-- Add call sites for dynamic calls, in order. -/
def addCalls (c : Container) : List DynamicCall → List ProgramSite × Container
  | [] => ([], c)
  | call :: rest =>
    let (site, c) := c.addSite call.symbol call.slot
    let (sites, c) := c.addCalls rest
    (⟨call.method, call.pc, site⟩ :: sites, c)

/-- Make a module ready to run; it has to be consistent. -/
def load (c : Container) (m : Module) : Except FormatError (Program × Container) := do
  m.validate
  let name ← orFormat m.title
  let (sites, c) := c.addCalls m.dynamicCalls
  return ({ name, code := m, sites }, c)

/-- Create an instance of a program's module, with one empty slot for each field. -/
def instantiate (c : Container) (program : Program) : Value × Container :=
  c.create program.name program.code.fields.size

end Container

end LateBinding
