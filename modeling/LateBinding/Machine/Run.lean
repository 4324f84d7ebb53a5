import LateBinding.Container.Read
import LateBinding.Machine.Step

set_option autoImplicit false

/-! # Running methods

`Invocation.run` executes instructions until the method returns, fails or has used up its
steps. A method that would execute one instruction more than its limit fails at that
instruction and has no effect from it on; a method whose next instruction does not exist
fails before steps are counted. `Container.invoke` starts a method by name.
-/

namespace LateBinding

/-- The step limit where nothing else is said. -/
def defaultStepLimit : Nat := 1000000

namespace Invocation

/-- Execute at most `remaining` instructions more. Call sites are bound by `registry`. -/
def run (inv : Invocation) (depth : Nat) (registry : String) :
    (remaining : Nat) → Frame → Effect Value
  | 0, frame, c =>
    let trap : Trap :=
      if frame.pc < inv.method.code.size then .stepLimit inv.limit else .fellOff
    some (.error (.runtime (inv.trap frame.pc trap)), c)
  | remaining + 1, frame, c =>
    match inv.method.code[frame.pc]? with
    | none => some (.error (.runtime (inv.trap frame.pc .fellOff)), c)
    | some insn =>
      match inv.step frame c.heap insn with
      | .next frame => inv.run depth registry remaining frame c
      | .store id slot value frame =>
        inv.run depth registry remaining frame { c with heap := c.heap.store id slot value }
      | .finish value => some (.ok value, c)
      | .fail cause => some (.error (.runtime cause), c)
      | .call site frame =>
        match Container.invokeSite depth registry site c with
        | none => none
        | some (.ok value, c) => inv.run depth registry remaining (frame.push value) c
        | some (.error e, c) => some (.error e, c)

/-- The frame in which a method starts: the receiver, the arguments and empty locals. -/
def start (inv : Invocation) (receiver : Value) (args : List Value) : Frame :=
  { pc := 0, stack := []
    locals := (receiver :: (args ++ List.replicate inv.method.locals.toNat Value.null)).toArray }

end Invocation

namespace Container

/-- Find the method to invoke and check the number of arguments. -/
def prepare (program : Program) (name : String) (args : List Value) (limit : Nat) :
    Except RuntimeError Invocation :=
  match program.method? name with
  | none => .error (.noMethod name program.name)
  | some (index, method) =>
    if args.length = method.params.toNat then .ok { program, index, name, method, limit }
    else .error (.wrongArity program.name name method.params.toNat args.length)

/-- Invoke a method of a program. -/
def invoke (depth : Nat) (registry : String) (program : Program) (name : String)
    (receiver : Value) (args : List Value) (limit : Nat := defaultStepLimit) :
    Effect Value := fun c =>
  match prepare program name args limit with
  | .error cause => some (.error (.runtime cause), c)
  | .ok inv => inv.run depth registry limit (inv.start receiver args) c

/-- The value in slot `index` of the instance at `id`. -/
def getSlot (c : Container) (id : InstanceId) (index : Nat) : Except Error Value :=
  match c.heap.slot? id index with
  | some value => .ok value
  | none => .error (.runtime (.noSlot index ((c.heap.owner? id).getD "")))

/-- Store a value in slot `index` of the instance at `id`. -/
def setSlot (c : Container) (id : InstanceId) (index : Nat) (value : Value) :
    Except Error Container :=
  match c.heap.slot? id index with
  | some _ => .ok { c with heap := c.heap.store id index value }
  | none => .error (.runtime (.noSlot index ((c.heap.owner? id).getD "")))

end Container

end LateBinding
