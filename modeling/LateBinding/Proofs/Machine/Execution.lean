import LateBinding.Machine.Run
import LateBinding.Proofs.Machine.Loading

set_option autoImplicit false

/-! # Executing a method step by step

`Invocation.run` counts the steps that remain. Here a run is taken apart: `Invocation.advance`
is one instruction with its effects on the container, `run_succ` says that a run is one such
step and then a run of the rest, and `Invocation.Reaches` relates the start of a run to the
states it comes through, and `exists_reaches_of_run` to the state it ends in. What an instruction
looks at, where it goes on, what it stores and calls and how it fails is read off
`Invocation.step` once, in `step_congr` and the inversions `step_eq_next`, `step_eq_store`,
`step_eq_call` and `step_eq_fail`.
-/

namespace LateBinding

/-- A trap that the values on the stack bring about. -/
def Trap.ofOperands : Trap → Bool
  | .stackUnderflow | .cannotAdd _ _ | .overflow | .foreignInstance _ _ | .notInstance _ => true
  | .stepLimit _ | .fellOff | .constantMissing _ | .localMissing _ | .siteMissing => false

/-! ## Storing in an instance -/

namespace Heap

variable {heap : Heap} {id other : InstanceId} {index slot : Nat} {value : Value}

theorem owner?_store : (heap.store id index value).owner? other = heap.owner? other := by
  rw [owner?, owner?, store, Array.getElem?_modify]
  split
  · cases heap[other]? <;> rfl
  · rfl

theorem slot?_store_of_ne (h : slot ≠ index) :
    (heap.store id index value).slot? other slot = heap.slot? other slot := by
  rw [slot?, slot?, store, Array.getElem?_modify]
  split
  · cases heap[other]? with
    | none => rfl
    | some obj => exact Array.getElem?_setIfInBounds_ne (Ne.symm h)
  · rfl

/-- What is stored in a slot is read from it, and a store makes no slots. -/
theorem slot?_store :
    (heap.store id index value).slot? other slot =
      if id = other ∧ index = slot then (heap.slot? other slot).map fun _ => value
      else heap.slot? other slot := by
  by_cases hslot : slot = index
  · subst hslot
    rw [slot?, slot?, store, Array.getElem?_modify]
    by_cases hid : id = other
    · subst hid
      rw [if_pos rfl, if_pos ⟨rfl, rfl⟩]
      cases heap[id]? with
      | none => rfl
      | some obj =>
          show (obj.slots.setIfInBounds slot value)[slot]? = obj.slots[slot]?.map fun _ => value
          rw [Array.getElem?_setIfInBounds_self]
          split
          · next hlt => rw [Array.getElem?_eq_getElem hlt, Option.map_some]
          · next hge => rw [Array.getElem?_eq_none (Nat.not_lt.1 hge), Option.map_none]
    · rw [if_neg hid, if_neg fun h => hid h.1]
  · rw [slot?_store_of_ne hslot, if_neg fun h => hslot h.2.symm]

/-- Number of slots of the instance at `id`. -/
def slotCount? (heap : Heap) (id : InstanceId) : Option Nat := heap[id]?.map (·.slots.size)

theorem slotCount?_store :
    (heap.store id index value).slotCount? other = heap.slotCount? other := by
  rw [slotCount?, slotCount?, store, Array.getElem?_modify]
  split
  · cases heap[other]? with
    | none => rfl
    | some obj => exact congrArg some Array.size_setIfInBounds
  · rfl

/-- An instance has the slots below its number of slots. -/
theorem slot?_isSome :
    (heap.slot? id index).isSome ↔ ∃ count, heap.slotCount? id = some count ∧ index < count := by
  unfold slot? slotCount?
  cases heap[id]? with
  | none => simp
  | some obj => simp

/-- An instance that has slots is an instance of some module. -/
theorem owner?_of_slot? (h : heap.slot? id slot = some value) :
    heap.owner? id = some ((heap.owner? id).getD "") := by
  obtain ⟨obj, hobj, -⟩ := Option.bind_eq_some_iff.1 h
  rw [owner?, hobj]
  rfl

end Heap

/-! ## One instruction -/

/-- What an instruction and its effects come to: the run goes on, or it ends. -/
inductive Advance where
  | go (frame : Frame) (c : Container)
  | halt (result : Except Error Value) (c : Container)

/-- The container that an instruction leaves. -/
def Advance.container : Advance → Container
  | .go _ c | .halt _ c => c

/-- What a call comes to that is answered like this: its frame goes on with the value. -/
def Advance.answered (waiting : Frame) (answer : Except Error Value) (c : Container) : Advance :=
  match answer with
  | .ok value => .go (waiting.push value) c
  | .error e => .halt (.error e) c

theorem Advance.container_answered (waiting : Frame) (answer : Except Error Value)
    (c : Container) : (answered waiting answer c).container = c := by
  cases answer <;> rfl

namespace Invocation

variable {inv inv' : Invocation} {depth : Nat} {registry : String} {frame after : Frame}
  {heap : Heap} {c : Container} {insn : Instruction}

/-- Execute the instruction `insn`, which stands at the frame's `pc`, with its effects. There is
no result where the provider of a call never gives one. -/
def advance (inv : Invocation) (depth : Nat) (registry : String) (frame : Frame) (c : Container)
    (insn : Instruction) : Option Advance :=
  match inv.step frame c.heap insn with
  | .next frame => some (.go frame c)
  | .store id slot value frame =>
    some (.go frame { c with heap := c.heap.store id slot value })
  | .finish value => some (.halt (.ok value) c)
  | .fail cause => some (.halt (.error (.runtime cause)) c)
  | .call site waiting =>
    (Container.invokeSite depth registry site c).map fun (answer, c) => .answered waiting answer c

/-- An instruction that fails ends the run and changes nothing. -/
theorem advance_of_fail {cause : RuntimeError} (h : inv.step frame c.heap insn = .fail cause) :
    inv.advance depth registry frame c insn = some (.halt (.error (.runtime cause)) c) := by
  rw [advance, h]

/-- A step goes on with the next frame, with a value stored, or with the value of a call. -/
theorem advance_eq_go {next : Frame} {c' : Container}
    (h : inv.advance depth registry frame c insn = some (.go next c')) :
    (inv.step frame c.heap insn = .next next ∧ c' = c) ∨
      (∃ id slot value, inv.step frame c.heap insn = .store id slot value next ∧
        c' = { c with heap := c.heap.store id slot value }) ∨
      ∃ site waiting value, inv.step frame c.heap insn = .call site waiting ∧
        Container.invokeSite depth registry site c = some (.ok value, c') ∧
        next = waiting.push value := by
  unfold advance at h
  split at h
  · next hstep =>
      cases h
      exact .inl ⟨hstep, rfl⟩
  · next id slot value _ hstep =>
      cases h
      exact .inr (.inl ⟨id, slot, value, hstep, rfl⟩)
  · cases h
  · cases h
  · next site waiting hstep =>
      obtain ⟨⟨answer, c₁⟩, hinvoke, hanswer⟩ := Option.map_eq_some_iff.1 h
      cases answer with
      | error e => cases hanswer
      | ok value =>
          cases hanswer
          exact .inr (.inr ⟨site, waiting, value, hstep, hinvoke, rfl⟩)

/-- A step ends the run with the value returned, with its failure, or with the error of a call. -/
theorem advance_eq_halt {result : Except Error Value} {c' : Container}
    (h : inv.advance depth registry frame c insn = some (.halt result c')) :
    (∃ value, inv.step frame c.heap insn = .finish value ∧ result = .ok value ∧ c' = c) ∨
      (∃ cause, inv.step frame c.heap insn = .fail cause ∧ result = .error (.runtime cause) ∧
        c' = c) ∨
      ∃ site waiting e, inv.step frame c.heap insn = .call site waiting ∧
        Container.invokeSite depth registry site c = some (.error e, c') ∧ result = .error e := by
  unfold advance at h
  split at h
  · cases h
  · cases h
  · next value hstep =>
      cases h
      exact .inl ⟨value, hstep, rfl, rfl⟩
  · next cause hstep =>
      cases h
      exact .inr (.inl ⟨cause, hstep, rfl, rfl⟩)
  · next site waiting hstep =>
      obtain ⟨⟨answer, c₁⟩, hinvoke, hanswer⟩ := Option.map_eq_some_iff.1 h
      cases answer with
      | ok value => cases hanswer
      | error e =>
          cases hanswer
          exact .inr (.inr ⟨site, waiting, e, hstep, hinvoke, rfl⟩)

/-- Where there is an instruction, a run executes it and goes on unless that ends it. -/
theorem run_succ {remaining : Nat} (h : inv.method.code[frame.pc]? = some insn) :
    inv.run depth registry (remaining + 1) frame c =
      match inv.advance depth registry frame c insn with
      | none => none
      | some (.go frame c) => inv.run depth registry remaining frame c
      | some (.halt result c) => some (result, c) := by
  rw [run, h]
  unfold advance
  dsimp only
  cases inv.step frame c.heap insn with
  | next _ | store _ _ _ _ | finish _ | fail _ => rfl
  | call site waiting =>
      dsimp only
      cases Container.invokeSite depth registry site c with
      | none => rfl
      | some outcome =>
          obtain ⟨result, c'⟩ := outcome
          cases result <;> rfl

/-- Where there is no instruction, a run ends, however many steps remain. -/
theorem run_of_none {remaining : Nat} (h : inv.method.code[frame.pc]? = none) :
    inv.run depth registry remaining frame c =
      some (.error (.runtime (inv.trap frame.pc .fellOff)), c) := by
  cases remaining with
  | zero =>
      have hsize : ¬ frame.pc < inv.method.code.size :=
        Nat.not_lt.2 (Array.getElem?_eq_none_iff.1 h)
      rw [run, if_neg hsize]
  | succ remaining => rw [run, h]

/-- A run that may not execute the next instruction ends at it. -/
theorem run_zero (h : inv.method.code[frame.pc]? = some insn) :
    inv.run depth registry 0 frame c =
      some (.error (.runtime (inv.trap frame.pc (.stepLimit inv.limit))), c) := by
  obtain ⟨hlt, -⟩ := Array.getElem?_eq_some_iff.1 h
  rw [run, if_pos hlt]

/-! ## States of a run -/

/-- From the frame `first` and the container `origin`, a run comes after so many instructions
to a frame and a container. -/
inductive Reaches (inv : Invocation) (depth : Nat) (registry : String) (first : Frame)
    (origin : Container) : Nat → Frame → Container → Prop
  | start : Reaches inv depth registry first origin 0 first origin
  | step {n : Nat} {frame next : Frame} {c c' : Container} {insn : Instruction}
      (before : Reaches inv depth registry first origin n frame c)
      (fetch : inv.method.code[frame.pc]? = some insn)
      (go : inv.advance depth registry frame c insn = some (.go next c')) :
      Reaches inv depth registry first origin (n + 1) next c'

/-- A run goes on from a state that it comes to with the steps that are left. -/
theorem run_of_reaches {first : Frame} {origin : Container} {n : Nat}
    (h : inv.Reaches depth registry first origin n frame c) (remaining : Nat) :
    inv.run depth registry (n + remaining) first origin =
      inv.run depth registry remaining frame c := by
  induction h generalizing remaining with
  | start => rw [Nat.zero_add]
  | @step n frame next c c' insn before fetch go ih =>
      calc inv.run depth registry (n + 1 + remaining) first origin
          = inv.run depth registry (n + (remaining + 1)) first origin := by
            rw [Nat.add_right_comm, Nat.add_assoc]
        _ = inv.run depth registry (remaining + 1) frame c := ih (remaining + 1)
        _ = inv.run depth registry remaining next c' := by rw [run_succ fetch, go]

/-- A run that makes a step comes to what it comes to from there, one instruction later. -/
theorem reaches_succ {first : Frame} {origin : Container} {n : Nat} :
    inv.Reaches depth registry first origin (n + 1) frame c ↔
      ∃ insn next c₁, inv.method.code[first.pc]? = some insn ∧
        inv.advance depth registry first origin insn = some (.go next c₁) ∧
        inv.Reaches depth registry next c₁ n frame c := by
  constructor
  · intro h
    induction n generalizing frame c with
    | zero =>
        cases h with
        | step before fetch go =>
            cases before
            exact ⟨_, _, _, fetch, go, .start⟩
    | succ n ih =>
        cases h with
        | step before fetch go =>
            obtain ⟨insn, next, c₁, hfirst, hgo, hreaches⟩ := ih before
            exact ⟨insn, next, c₁, hfirst, hgo, .step hreaches fetch go⟩
  · rintro ⟨insn, next, c₁, hfirst, hgo, hreaches⟩
    induction hreaches with
    | start => exact .step .start hfirst hgo
    | step _ fetch go ih => exact .step ih fetch go

/-- After so many instructions a run is in one state. -/
theorem Reaches.unique {first frame' : Frame} {origin c' : Container} {n : Nat}
    (h : inv.Reaches depth registry first origin n frame c)
    (h' : inv.Reaches depth registry first origin n frame' c') : frame' = frame ∧ c' = c := by
  induction h generalizing frame' c' with
  | start =>
      cases h'
      exact ⟨rfl, rfl⟩
  | step _ fetch go ih =>
      cases h' with
      | step before' fetch' go' =>
          obtain ⟨rfl, rfl⟩ := ih before'
          rw [fetch] at fetch'
          cases fetch'
          rw [go] at go'
          cases go'
          exact ⟨rfl, rfl⟩

/-- A run does not go on from a state in which an instruction ends it. -/
theorem Reaches.le_of_halt {first frame' : Frame} {origin c' after : Container} {n n' : Nat}
    {result : Except Error Value} (h : inv.Reaches depth registry first origin n frame c)
    (fetch : inv.method.code[frame.pc]? = some insn)
    (halts : inv.advance depth registry frame c insn = some (.halt result after))
    (h' : inv.Reaches depth registry first origin n' frame' c') : n' ≤ n := by
  induction h' with
  | start => exact Nat.zero_le n
  | @step k _ _ _ _ _ before fetch' go ih =>
      by_cases heq : k = n
      · subst heq
        obtain ⟨rfl, rfl⟩ := h.unique before
        rw [fetch] at fetch'
        cases fetch'
        rw [halts] at go
        cases go
      · omega

/-- An instruction that ends a run within its steps gives the run its result. -/
theorem run_of_halt {first : Frame} {origin after : Container} {n remaining : Nat}
    {result : Except Error Value} (h : inv.Reaches depth registry first origin n frame c)
    (hn : n < remaining) (fetch : inv.method.code[frame.pc]? = some insn)
    (halts : inv.advance depth registry frame c insn = some (.halt result after)) :
    inv.run depth registry remaining first origin = some (result, after) := by
  obtain ⟨left, rfl⟩ := Nat.exists_eq_add_of_lt hn
  rw [Nat.add_assoc, run_of_reaches h, run_succ fetch, halts]

/-- In this state, and with so many steps left, a run ends with this result. -/
inductive EndsAt (inv : Invocation) (depth : Nat) (registry : String) (frame : Frame)
    (c : Container) : Nat → Except Error Value → Container → Prop
  | fellOff {remaining : Nat} (fetch : inv.method.code[frame.pc]? = none) :
      EndsAt inv depth registry frame c remaining
        (.error (.runtime (inv.trap frame.pc .fellOff))) c
  | limit {insn : Instruction} (fetch : inv.method.code[frame.pc]? = some insn) :
      EndsAt inv depth registry frame c 0
        (.error (.runtime (inv.trap frame.pc (.stepLimit inv.limit)))) c
  | halt {remaining : Nat} {insn : Instruction} {result : Except Error Value} {c' : Container}
      (fetch : inv.method.code[frame.pc]? = some insn)
      (halts : inv.advance depth registry frame c insn = some (.halt result c')) :
      EndsAt inv depth registry frame c (remaining + 1) result c'

/-- A run that has a result ends where it stands, or makes a step and then has that result. -/
theorem run_eq_some {remaining : Nat} {result : Except Error Value} {c' : Container}
    (h : inv.run depth registry remaining frame c = some (result, c')) :
    inv.EndsAt depth registry frame c remaining result c' ∨
      ∃ less insn next c₁, remaining = less + 1 ∧ inv.method.code[frame.pc]? = some insn ∧
        inv.advance depth registry frame c insn = some (.go next c₁) ∧
        inv.run depth registry less next c₁ = some (result, c') := by
  cases hfetch : inv.method.code[frame.pc]? with
  | none =>
      rw [run_of_none hfetch] at h
      cases h
      exact .inl (.fellOff hfetch)
  | some insn =>
      cases remaining with
      | zero =>
          rw [run_zero hfetch] at h
          cases h
          exact .inl (.limit hfetch)
      | succ less =>
          rw [run_succ hfetch] at h
          cases hadvance : inv.advance depth registry frame c insn with
          | none =>
              rw [hadvance] at h
              cases h
          | some outcome =>
              rw [hadvance] at h
              cases outcome with
              | go next c₁ => exact .inr ⟨less, insn, next, c₁, rfl, rfl, hadvance, h⟩
              | halt answer c₁ =>
                  cases h
                  exact .inl (.halt hfetch hadvance)

/-- A run that has a result comes to a state in which it ends with that result. -/
theorem exists_reaches_of_run {remaining : Nat} {first : Frame} {origin : Container}
    {result : Except Error Value} {c' : Container}
    (h : inv.run depth registry remaining first origin = some (result, c')) :
    ∃ n left frame c, n + left = remaining ∧
      inv.Reaches depth registry first origin n frame c ∧
      inv.EndsAt depth registry frame c left result c' := by
  -- from any state that the run has come to, by induction on the steps that are left
  have hfrom (left : Nat) : ∀ n frame c, n + left = remaining →
      inv.Reaches depth registry first origin n frame c →
      inv.run depth registry left frame c = some (result, c') →
      ∃ n left frame c, n + left = remaining ∧
        inv.Reaches depth registry first origin n frame c ∧
        inv.EndsAt depth registry frame c left result c' := by
    induction left with
    | zero =>
        intro n frame c hn hreaches hrun
        obtain hend | ⟨less, _, _, _, hless, -⟩ := run_eq_some hrun
        · exact ⟨n, 0, frame, c, hn, hreaches, hend⟩
        · cases hless
    | succ left ih =>
        intro n frame c hn hreaches hrun
        obtain hend | ⟨less, insn, next, c₁, hless, hfetch, hgo, hrest⟩ := run_eq_some hrun
        · exact ⟨n, left + 1, frame, c, hn, hreaches, hend⟩
        · cases hless
          have hn' : n + 1 + left = remaining := by omega
          exact ih (n + 1) next c₁ hn' (.step hreaches hfetch hgo) hrest
  exact hfrom remaining 0 first origin (Nat.zero_add remaining) .start h

/-! ## What an instruction does -/

/-- Apart from dynamic calls, an instruction depends on the two names that its errors show and
on the constants only. -/
theorem step_congr (hprogram : inv'.program.name = inv.program.name)
    (hname : inv'.name = inv.name) (hpool : inv'.program.code.pool = inv.program.code.pool)
    (hinsn : ∀ symbol slot, insn ≠ .invokeDynamic symbol slot) :
    inv'.step frame heap insn = inv.step frame heap insn := by
  -- whatever a step asks of its invocation goes through these five
  have htrap : inv'.trap = inv.trap := by
    funext pc trap
    rw [Invocation.trap, Invocation.trap, hprogram, hname]
  have hreceiver : inv'.receiver = inv.receiver := by
    funext heap value
    unfold receiver
    rw [hprogram]
  have hread : inv'.readSlot = inv.readSlot := by
    funext pc frame heap field object
    unfold readSlot
    rw [htrap, hreceiver, hprogram]
  have hwrite : inv'.writeSlot = inv.writeSlot := by
    funext pc frame heap field object value
    unfold writeSlot
    rw [htrap, hreceiver, hprogram]
  have hadd : inv'.addValues = inv.addValues := by
    funext pc frame a b
    unfold addValues
    rw [htrap]
  obtain ⟨pc, stack, locals⟩ := frame
  cases insn with
  | invokeDynamic symbol slot => exact absurd rfl (hinsn symbol slot)
  | _ =>
      rcases stack with _ | ⟨b, _ | ⟨a, stack⟩⟩ <;>
        simp only [step, htrap, hread, hwrite, hadd, hpool]

/-- Only a write to a field stores a value, and only in a slot of an instance of the program's
module. -/
theorem step_eq_store {id : InstanceId} {slot : Nat} {value : Value}
    (h : inv.step frame heap insn = .store id slot value after) :
    ∃ field object stack, insn = .putField field ∧ frame.stack = value :: object :: stack ∧
      inv.receiver heap object = .ok id ∧ (heap.slot? id field.toNat).isSome ∧
      slot = field.toNat ∧ after = { frame with pc := frame.pc + 1, stack } := by
  obtain ⟨pc, stack, locals⟩ := frame
  cases insn with
  | putField field =>
      rcases stack with _ | ⟨top, _ | ⟨object, stack⟩⟩
      · cases h
      · cases h
      · simp only [step, writeSlot] at h
        split at h
        · cases h
        · next hreceiver =>
            split at h
            · next old hslot =>
                cases h
                exact ⟨field, object, stack, rfl, rfl, hreceiver, by rw [hslot]; rfl, rfl, rfl⟩
            · cases h
  | _ =>
      -- how an instruction ends may depend on two operands, but it never stores
      rcases stack with _ | ⟨b, _ | ⟨a, stack⟩⟩ <;>
        simp only [step, readSlot, addValues] at h <;> (repeat' split at h) <;> cases h

/-- Only a dynamic call invokes a call site, and only with a value on the stack. -/
theorem step_eq_call {site : SiteId} (h : inv.step frame heap insn = .call site after) :
    ∃ symbol slot value stack, insn = .invokeDynamic symbol slot ∧
      frame.stack = value :: stack ∧ inv.program.siteAt? inv.index frame.pc = some site ∧
      after = { frame with pc := frame.pc + 1, stack } := by
  obtain ⟨pc, stack, locals⟩ := frame
  cases insn with
  | invokeDynamic symbol slot =>
      cases stack with
      | nil => cases h
      | cons value stack =>
          simp only [step] at h
          split at h
          · next hsite =>
              cases h
              exact ⟨symbol, slot, value, stack, rfl, rfl, hsite, rfl⟩
          · cases h
  | _ =>
      rcases stack with _ | ⟨b, _ | ⟨a, stack⟩⟩ <;>
        simp only [step, readSlot, writeSlot, addValues] at h <;> (repeat' split at h) <;> cases h

/-- An instruction that goes on keeps the number of local slots, and goes on behind itself or at
its branch target. -/
theorem step_eq_next (h : inv.step frame heap insn = .next after) :
    after.locals.size = frame.locals.size ∧
      (after.pc = frame.pc + 1 ∨
        ∃ target, insn.branchTarget? = some target ∧ after.pc = target.toNat) := by
  obtain ⟨pc, stack, locals⟩ := frame
  cases insn with
  | jump target =>
      cases h
      exact ⟨rfl, .inr ⟨target, rfl, rfl⟩⟩
  | jumpIfNull target =>
      cases stack with
      | nil => cases h
      | cons value stack =>
          cases h
          refine ⟨rfl, ?_⟩
          by_cases hnull : value = .null
          · exact .inr ⟨target, rfl, if_pos hnull⟩
          · exact .inl (if_neg hnull)
  | storeLocal slot =>
      cases stack with
      | nil => cases h
      | cons value stack =>
          simp only [step] at h
          split at h
          · cases h
            exact ⟨Array.size_setIfInBounds, .inl rfl⟩
          · cases h
  | _ =>
      rcases stack with _ | ⟨b, _ | ⟨a, stack⟩⟩ <;>
        simp only [step, readSlot, writeSlot, addValues] at h <;> (repeat' split at h) <;>
        cases h <;> exact ⟨rfl, .inl rfl⟩

/-- What the operand of an instruction names is not there. -/
inductive Dangles (inv : Invocation) (frame : Frame) : Instruction → Trap → Prop
  | constant {index : UInt16} (missing : inv.program.code.pool.get? index = none) :
      Dangles inv frame (.pushConst index) (.constantMissing index)
  | load {slot : UInt8} (missing : frame.locals.size ≤ slot.toNat) :
      Dangles inv frame (.loadLocal slot) (.localMissing slot)
  | store {slot : UInt8} (missing : frame.locals.size ≤ slot.toNat) :
      Dangles inv frame (.storeLocal slot) (.localMissing slot)
  | site {symbol slot : UInt16} (missing : inv.program.siteAt? inv.index frame.pc = none) :
      Dangles inv frame (.invokeDynamic symbol slot) .siteMissing

theorem ofOperands_of_receiver {object : Value} {trap : Trap}
    (h : inv.receiver heap object = .error trap) : trap.ofOperands := by
  cases object with
  | object place =>
      simp only [receiver] at h
      split at h
      · cases h
      · cases h
        rfl
  | null | int _ | str _ =>
      cases h
      rfl

/-- An instruction fails for want of a slot of an instance, or traps where it stands: for the
values on the stack, or because its operand names nothing. -/
theorem step_eq_fail {cause : RuntimeError} (h : inv.step frame heap insn = .fail cause) :
    (∃ index, cause = .noSlot index inv.program.name) ∨
      ∃ trap, cause = inv.trap frame.pc trap ∧ (trap.ofOperands ∨ inv.Dangles frame insn trap) := by
  obtain ⟨pc, stack, locals⟩ := frame
  cases insn with
  | pushConst index =>
      simp only [step] at h
      split at h
      · cases h
      · next hmissing =>
          cases h
          exact .inr ⟨_, rfl, .inr (.constant hmissing)⟩
  | loadLocal slot =>
      simp only [step] at h
      split at h
      · cases h
      · next hmissing =>
          cases h
          exact .inr ⟨_, rfl, .inr (.load (Array.getElem?_eq_none_iff.1 hmissing))⟩
  | storeLocal slot =>
      cases stack with
      | nil =>
          cases h
          exact .inr ⟨_, rfl, .inl rfl⟩
      | cons value stack =>
          simp only [step] at h
          split at h
          · cases h
          · next hmissing =>
              cases h
              exact .inr ⟨_, rfl, .inr (.store (Nat.not_lt.1 hmissing))⟩
  | invokeDynamic symbol slot =>
      cases stack with
      | nil =>
          cases h
          exact .inr ⟨_, rfl, .inl rfl⟩
      | cons value stack =>
          simp only [step] at h
          split at h
          · cases h
          · next hmissing =>
              cases h
              exact .inr ⟨_, rfl, .inr (.site hmissing)⟩
  | getField field | putField field =>
      -- an instance that lacks the slot, or a receiver that is none of the module's
      rcases stack with _ | ⟨b, _ | ⟨a, stack⟩⟩ <;>
        simp only [step, readSlot, writeSlot] at h <;> (repeat' split at h) <;> cases h <;>
        first
          | exact .inl ⟨_, rfl⟩
          | exact .inr ⟨_, rfl, .inl rfl⟩
          | exact .inr ⟨_, rfl, .inl (ofOperands_of_receiver ‹_›)⟩
  | _ =>
      rcases stack with _ | ⟨b, _ | ⟨a, stack⟩⟩ <;>
        simp only [step, addValues] at h <;> (repeat' split at h) <;> cases h <;>
        exact .inr ⟨_, rfl, .inl rfl⟩

/-- With an operand on the stack, a dynamic call takes it and invokes the call site of its place. -/
theorem step_dynamic {symbol slot : UInt16} {operand : Value} {stack : List Value} {site : SiteId}
    (hstack : frame.stack = operand :: stack)
    (hsite : inv.program.siteAt? inv.index frame.pc = some site) :
    inv.step frame heap (.invokeDynamic symbol slot) =
      .call site { frame with pc := frame.pc + 1, stack } := by
  simp only [step, hstack, hsite]

/-- A dynamic call needs an operand on the stack. -/
theorem step_dynamic_of_empty {symbol slot : UInt16} (h : frame.stack = []) :
    inv.step frame heap (.invokeDynamic symbol slot) =
      .fail (inv.trap frame.pc .stackUnderflow) := by
  simp only [step, h]

/-! ## Reading a field -/

/-- A read of a field needs an operand on the stack. -/
theorem step_read_of_empty {field : UInt16} (h : frame.stack = []) :
    inv.step frame heap (.getField field) = .fail (inv.trap frame.pc .stackUnderflow) := by
  simp only [step, h]

/-- A read of a field has an operand on the stack that is no instance of the program's module, or
one that lacks the slot, and fails for this cause. -/
inductive ReadFails (inv : Invocation) (frame : Frame) (heap : Heap) (field : UInt16) :
    RuntimeError → Prop
  | receiver {object : Value} {stack : List Value} {trap : Trap}
      (top : frame.stack = object :: stack) (refused : inv.receiver heap object = .error trap) :
      ReadFails inv frame heap field (inv.trap frame.pc trap)
  | range {object : Value} {stack : List Value} {id : InstanceId}
      (top : frame.stack = object :: stack) (found : inv.receiver heap object = .ok id)
      (missing : heap.slot? id field.toNat = none) :
      ReadFails inv frame heap field (.noSlot field.toNat inv.program.name)

theorem step_of_readFails {field : UInt16} {cause : RuntimeError}
    (h : inv.ReadFails frame heap field cause) :
    inv.step frame heap (.getField field) = .fail cause := by
  obtain ⟨pc, stack, locals⟩ := frame
  cases h with
  | receiver top refused =>
      cases top
      simp only [step, readSlot, refused]
  | range top found missing =>
      cases top
      simp only [step, readSlot, found, missing]

/-- With an operand on the stack, a read of a field fails for the sake of its operand or pushes
what the instance has in the slot. -/
theorem readFails_or_step (inv : Invocation) (heap : Heap) (field : UInt16) {object : Value}
    {stack : List Value} (h : frame.stack = object :: stack) :
    (∃ cause, inv.ReadFails frame heap field cause) ∨
      ∃ id value, inv.receiver heap object = .ok id ∧ heap.slot? id field.toNat = some value ∧
        inv.step frame heap (.getField field) =
          .next (Frame.push { frame with pc := frame.pc + 1, stack } value) := by
  cases hreceiver : inv.receiver heap object with
  | error trap => exact .inl ⟨_, .receiver h hreceiver⟩
  | ok id =>
      cases hslot : heap.slot? id field.toNat with
      | none => exact .inl ⟨_, .range h hreceiver hslot⟩
      | some value =>
          refine .inr ⟨id, value, rfl, hslot, ?_⟩
          obtain ⟨pc, _, locals⟩ := frame
          cases h
          simp only [step, readSlot, hreceiver, hslot]

/-- A receiver is an instance of the program's module. -/
theorem owner_of_receiver {object : Value} {id : InstanceId}
    (h : inv.receiver heap object = .ok id) : (heap.owner? id).getD "" = inv.program.name := by
  cases object with
  | object place =>
      simp only [receiver] at h
      split at h
      · next howner =>
          cases h
          exact howner
      · cases h
  | null | int _ | str _ => cases h

/-! ## Calling a provider -/

/-- A dynamic call that is served takes its operand off the stack and is answered with what the
registry holds under its symbol. Nothing changes but the bindings of call sites. -/
theorem advance_dynamic (inv : Invocation) (depth : Nat) {call : DynamicCall}
    {symbol slot : UInt16} {operand : Value} {stack : List Value}
    (hfull : c.AllInitialized registry) (hserved : inv.program.Served registry c)
    (hcall : inv.program.code.HasCall call) (hmethod : call.method = inv.index)
    (hpc : call.pc = frame.pc) (hstack : frame.stack = operand :: stack) :
    ∃ sites, inv.advance (depth + 1) registry frame c (.invokeDynamic symbol slot) =
        some (.answered { frame with pc := frame.pc + 1, stack }
          (c.answer registry call.symbol call.slot) { c with sites }) ∧
      inv.program.Served registry { c with sites } := by
  obtain ⟨site, hsite, hserves⟩ := hserved call hcall
  obtain ⟨sites, hinvoke, hkeep⟩ := Container.invokeSite_of_serves hfull hserves depth
  refine ⟨sites, ?_, ?_⟩
  · rw [hmethod, hpc] at hsite
    rw [advance, step_dynamic hstack hsite]
    dsimp only
    rw [hinvoke, Option.map_some]
  · intro other hother
    obtain ⟨site', hsite', hserves'⟩ := hserved other hother
    exact ⟨site', hsite', hkeep site' _ _ hserves'⟩

end Invocation

/-! ## Starting a method -/

namespace Container

variable {program : Program} {name : String} {args : List Value} {limit : Nat} {inv : Invocation}

/-- A method can be invoked when the program has it and the arguments are as many as it takes. -/
theorem prepare_eq_ok :
    prepare program name args limit = .ok inv ↔
      ∃ index method, program.code.methodIndex? name = some index ∧
        program.code.methods[index]? = some method ∧ args.length = method.params.toNat ∧
        inv = { program, index, name, method, limit } := by
  have hmethod (index : Nat) (method : Method) : program.method? name = some (index, method) ↔
      program.code.methodIndex? name = some index ∧
        program.code.methods[index]? = some method := by
    simp [Program.method?, Option.bind_eq_some_iff]
  unfold prepare
  constructor
  · intro h
    split at h
    · cases h
    · next index method hfound =>
        split at h
        · next hargs =>
            cases h
            obtain ⟨hindex, hget⟩ := (hmethod index method).1 hfound
            exact ⟨index, method, hindex, hget, hargs, rfl⟩
        · cases h
  · rintro ⟨index, method, hindex, hget, hargs, rfl⟩
    rw [(hmethod index method).2 ⟨hindex, hget⟩]
    exact if_pos hargs

/-- A method is not invoked when there is none of the name, or for the number of arguments. -/
theorem prepare_eq_error {cause : RuntimeError}
    (h : prepare program name args limit = .error cause) :
    cause = .noMethod name program.name ∨
      ∃ params, cause = .wrongArity program.name name params args.length := by
  unfold prepare at h
  split at h
  · cases h
    exact .inl rfl
  · next index method hfound =>
      split at h
      · cases h
      · cases h
        exact .inr ⟨_, rfl⟩

/-- An invocation of a method that can be invoked is a run from its start. -/
theorem invoke_of_prepare (h : prepare program name args limit = .ok inv) (depth : Nat)
    (registry : String) (receiver : Value) (c : Container) :
    invoke depth registry program name receiver args limit c =
      inv.run depth registry limit (inv.start receiver args) c := by
  simp only [invoke, h]

theorem program_of_prepare (h : prepare program name args limit = .ok inv) :
    inv.program = program := by
  obtain ⟨_, _, -, -, -, rfl⟩ := prepare_eq_ok.1 h
  rfl

/-- What is invoked is the method of the program that has the name. -/
theorem method?_of_prepare (h : prepare program name args limit = .ok inv) :
    program.method? name = some (inv.index, inv.method) := by
  obtain ⟨index, method, hindex, hmethod, -, rfl⟩ := prepare_eq_ok.1 h
  simp only [Program.method?, hindex, hmethod, Option.bind_eq_bind, Option.bind_some,
    Option.pure_def]

end Container

end LateBinding
