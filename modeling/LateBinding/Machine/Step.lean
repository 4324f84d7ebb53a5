import LateBinding.Machine.Program

set_option autoImplicit false

/-! # One step of the machine

A frame is the state of one running method: the index of the next instruction, the operand
stack with its top first, and the local slots. `Invocation.step` executes a single
instruction on a frame. It looks at the instances but does not change them, and does not call
providers itself: a value to store is handed out with its slot, and a dynamic call as the
call site to invoke and the frame that waits for the value.
-/

namespace LateBinding

/-- The state of a running method. -/
structure Frame where
  pc : Nat
  /-- The operands, the top of the stack first. -/
  stack : List Value
  locals : Array Value
  deriving DecidableEq, Inhabited

/-- Which method of which program runs, and how long it may. -/
structure Invocation where
  program : Program
  /-- Index of the method. -/
  index : Nat
  /-- The name by which the method was called. -/
  name : String
  method : Method
  /-- The largest number of instructions to execute. -/
  limit : Nat

/-- What executing one instruction comes to. -/
inductive Step where
  | next (frame : Frame)
  /-- A value is to be stored in a slot that an instance has. -/
  | store (id : InstanceId) (slot : Nat) (value : Value) (frame : Frame)
  /-- The method returns a value. -/
  | finish (value : Value)
  | fail (cause : RuntimeError)
  /-- A call site is to be invoked, and its value to be pushed on the frame. -/
  | call (site : SiteId) (frame : Frame)

/-- The frame with a value pushed on its stack. -/
def Frame.push (frame : Frame) (value : Value) : Frame :=
  { frame with stack := value :: frame.stack }

/-- The value of a constant. -/
def Constant.value : Constant → Value
  | .str text => .str text
  | .int number => .int number

/-- The sum of two numbers that is a number of 64 bits. -/
def checkedAdd (a b : Int64) : Option Int64 :=
  let sum := a.toInt + b.toInt
  if Int64.minValue.toInt ≤ sum ∧ sum ≤ Int64.maxValue.toInt then some (Int64.ofInt sum)
  else none

namespace Invocation

/-- Stop at the instruction at `pc`. -/
def trap (inv : Invocation) (pc : Nat) (trap : Trap) : RuntimeError :=
  .trapped inv.program.name inv.name pc trap

/-- The instance of the program's module that a value is, if it is one. -/
def receiver (inv : Invocation) (heap : Heap) (value : Value) : Except Trap InstanceId :=
  match value with
  | .object id =>
    let owner := (heap.owner? id).getD ""
    if owner = inv.program.name then .ok id
    else .error (.foreignInstance owner inv.program.name)
  | other => .error (.notInstance other.sort)

/-- For the instruction at `pc`, push the value in a slot of an instance. -/
def readSlot (inv : Invocation) (pc : Nat) (frame : Frame) (heap : Heap) (field : UInt16)
    (object : Value) : Step :=
  match inv.receiver heap object with
  | .error trap => .fail (inv.trap pc trap)
  | .ok id =>
    match heap.slot? id field.toNat with
    | some value => .next (frame.push value)
    | none => .fail (.noSlot field.toNat inv.program.name)

/-- For the instruction at `pc`, store a value in a slot of an instance. -/
def writeSlot (inv : Invocation) (pc : Nat) (frame : Frame) (heap : Heap) (field : UInt16)
    (object value : Value) : Step :=
  match inv.receiver heap object with
  | .error trap => .fail (inv.trap pc trap)
  | .ok id =>
    match heap.slot? id field.toNat with
    | some _ => .store id field.toNat value frame
    | none => .fail (.noSlot field.toNat inv.program.name)

/-- For the instruction at `pc`, push the sum of two integers. -/
def addValues (inv : Invocation) (pc : Nat) (frame : Frame) (a b : Value) : Step :=
  match a, b with
  | .int a, .int b =>
    match checkedAdd a b with
    | some sum => .next (frame.push (.int sum))
    | none => .fail (inv.trap pc .overflow)
  | a, b => .fail (inv.trap pc (.cannotAdd a.sort b.sort))

/-- Execute the instruction `insn`, which stands at the frame's `pc`. -/
def step (inv : Invocation) (frame : Frame) (heap : Heap) (insn : Instruction) : Step :=
  let fail (trap : Trap) : Step := .fail (inv.trap frame.pc trap)
  let after : Frame := { frame with pc := frame.pc + 1 }
  match insn, frame.stack with
  | .nop, _ => .next after
  | .pushNull, _ => .next (after.push .null)
  | .pushInt number, _ => .next (after.push (.int number))
  | .pushConst index, _ =>
    match inv.program.code.pool.get? index with
    | some constant => .next (after.push constant.value)
    | none => fail (.constantMissing index)
  | .loadLocal slot, _ =>
    match frame.locals[slot.toNat]? with
    | some value => .next (after.push value)
    | none => fail (.localMissing slot)
  | .storeLocal slot, value :: stack =>
    if slot.toNat < frame.locals.size then
      .next { after with stack, locals := frame.locals.setIfInBounds slot.toNat value }
    else fail (.localMissing slot)
  | .getField field, object :: stack =>
    inv.readSlot frame.pc { after with stack } heap field object
  | .putField field, value :: object :: stack =>
    inv.writeSlot frame.pc { after with stack } heap field object value
  | .add, b :: a :: stack => inv.addValues frame.pc { after with stack } a b
  | .concat, b :: a :: stack =>
    .next { after with stack := .str (heap.display a ++ heap.display b) :: stack }
  | .invokeDynamic _ _, _ :: stack =>
    match inv.program.siteAt? inv.index frame.pc with
    | some site => .call site { after with stack }
    | none => fail .siteMissing
  | .pop, _ :: stack => .next { after with stack }
  | .dup, value :: stack => .next { after with stack := value :: value :: stack }
  | .jump target, _ => .next { frame with pc := target.toNat }
  | .jumpIfNull target, value :: stack =>
    .next { frame with pc := if value = .null then target.toNat else frame.pc + 1, stack }
  | .ret, value :: _ => .finish value
  | .storeLocal _, [] | .getField _, [] | .putField _, [] | .putField _, [_] | .add, []
  | .add, [_] | .concat, [] | .concat, [_] | .invokeDynamic _ _, [] | .pop, [] | .dup, []
  | .jumpIfNull _, [] | .ret, [] => fail .stackUnderflow

end Invocation

end LateBinding
