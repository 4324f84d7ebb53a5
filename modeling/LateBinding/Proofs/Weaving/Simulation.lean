import LateBinding.Proofs.Machine.Execution
import LateBinding.Proofs.Weaving.Woven

set_option autoImplicit false

/-! # Weaving preserves behaviour

A read of an injected field and the dynamic call that replaces it give the same value when every
instance stores in the field what the provider keeps (`Module.Injected`), and both take one step.
So a run of a method and a run of the woven method go through the same frames and the same
instances, one instruction at a time, and differ in the bindings of their call sites only.

`Program.Lockstep` is what holds of the two containers at every step: all dynamic calls of both
programs are served, and the injected fields store what the registry holds. `advance_woven` is
the simulation of one instruction, `run_woven` that of a run by induction on the steps that
remain, and `invoke_of_weave` the statement about methods of loaded modules. The one way to part
is a read that fails because its operand is no instance with the field: a dynamic call does not
look at its operand.
-/

namespace LateBinding

/-! ## Injected fields -/

namespace Module

/-- The registry holds a value under the symbol of every injected field, and this value is what
all instances of the module store in the field. -/
def Injected (m : Module) (kind registry : String) (c : Container) : Prop :=
  ∀ field symbol, m.symbol? kind field = some symbol →
    ∃ value, c.held? registry symbol = some value ∧
      ∀ id old, c.heap.owner? id = some (m.pool.text m.name) →
        c.heap.slot? id field.toNat = some old → old = value

/-- The method that is called `name` does not write to injected fields. -/
def LeavesInjected (m : Module) (kind name : String) : Prop :=
  ∀ index method field, m.methodIndex? name = some index → m.methods[index]? = some method →
    .putField field ∈ method.code → m.symbol? kind field = none

variable {m : Module} {kind registry : String} {c : Container}

/-- A store in another field leaves the injected fields as they are. -/
theorem Injected.store (h : m.Injected kind registry c) {field : UInt16}
    (hfield : m.symbol? kind field = none) (id : InstanceId) (value : Value) :
    m.Injected kind registry { c with heap := c.heap.store id field.toNat value } := by
  intro injected symbol hsymbol
  obtain ⟨held, hheld, hstored⟩ := h injected symbol hsymbol
  have hne : injected.toNat ≠ field.toNat := by
    intro heq
    rw [UInt16.toNat_inj.1 heq, hfield] at hsymbol
    cases hsymbol
  refine ⟨held, hheld, fun other old howner hslot => ?_⟩
  rw [Heap.owner?_store] at howner
  rw [Heap.slot?_store_of_ne hne] at hslot
  exact hstored other old howner hslot

/-- Weaving changes no names, so methods are found where they were. -/
theorem methodIndex?_woven (name : String) :
    (m.woven kind).methodIndex? name = m.methodIndex? name := by
  show (m.methods.map _).findIdx? _ = m.methods.findIdx? _
  rw [Array.findIdx?_map]
  rfl

/-- A dynamic call of the program itself has the same strings in the woven program. -/
theorem HasCall.woven {call : DynamicCall} (h : m.HasCall call) :
    (m.woven kind).HasCall call := by
  obtain ⟨method, symbol, slot, hmethod, hinsn, hstrings⟩ := h
  refine ⟨method.weave (m.callTargets kind), symbol, slot, ?_, ?_, hstrings⟩
  · show (m.methods.map _)[call.method]? = _
    rw [Array.getElem?_map, hmethod]
    rfl
  · show (method.code.map _)[call.pc]? = _
    rw [Array.getElem?_map, hinsn]
    rfl

/-- Where a read was replaced, the woven module has a call with the strings of the new operands. -/
theorem HasCall.of_read {index pc : Nat} {method : Method} {field : UInt16} {target : CallTarget}
    {symbol slot : String} (hmethod : m.methods[index]? = some method)
    (hread : method.code[pc]? = some (.getField field))
    (htarget : m.callTarget? kind field = some target)
    (hsymbol : m.pool.string target.symbol = .ok symbol)
    (hslot : m.pool.string target.slot = .ok slot) :
    (m.woven kind).HasCall ⟨index, pc, symbol, slot⟩ := by
  refine ⟨method.weave (m.callTargets kind), target.symbol, target.slot, ?_, ?_, hsymbol, hslot⟩
  · show (m.methods.map _)[index]? = _
    rw [Array.getElem?_map, hmethod]
    rfl
  · show (method.code.map _)[pc]? = _
    rw [Array.getElem?_map, hread]
    show some (Instruction.weave _ _) = _
    rw [weave_getField, htarget]

end Module

/-! ## Woven programs -/

/-- The program with the reads of injected fields replaced, and call sites at these places. -/
def Program.woven (program : Program) (kind : String) (places : List ProgramSite) : Program where
  name := program.name
  code := program.code.woven kind
  sites := places

/-- The invocation of the same method of the woven program. -/
def Invocation.woven (inv : Invocation) (kind : String) (places : List ProgramSite) :
    Invocation :=
  { inv with
    program := inv.program.woven kind places
    method := inv.method.weave (inv.program.code.callTargets kind) }

/-- Weaving does not matter to whether a method can be invoked. -/
theorem Container.prepare_woven {program : Program} {kind name : String}
    {places : List ProgramSite} {args : List Value} {limit : Nat} :
    prepare (program.woven kind places) name args limit =
      (prepare program name args limit).map (·.woven kind places) := by
  have hmethod : (program.woven kind places).method? name =
      (program.method? name).map fun found =>
        (found.1, found.2.weave (program.code.callTargets kind)) := by
    show ((program.code.woven kind).methodIndex? name).bind _ =
      ((program.code.methodIndex? name).bind _).map _
    rw [Module.methodIndex?_woven]
    cases program.code.methodIndex? name with
    | none => rfl
    | some index =>
        show (((program.code.methods.map _)[index]?).bind _) = _
        rw [Array.getElem?_map]
        cases hget : program.code.methods[index]? with
        | none => simp [hget]
        | some method => simp [hget]
  unfold prepare
  rw [hmethod]
  cases program.method? name with
  | none => rfl
  | some found =>
      obtain ⟨index, method⟩ := found
      show (if args.length = method.params.toNat then _ else _) = _
      dsimp only
      split <;> rfl

/-! ## One instruction -/

/-- The two outcomes of an instruction go on with the same frame or end with the same result, with
containers that differ in their call sites only; where they go on, the containers are related. -/
inductive Advance.Agrees (related : Container → Array CallSite → Prop) : Advance → Advance → Prop
  | go (frame : Frame) {c : Container} {sites : Array CallSite} (h : related c sites) :
      Agrees related (.go frame c) (.go frame { c with sites })
  | halt (result : Except Error Value) (c : Container) (sites : Array CallSite) :
      Agrees related (.halt result c) (.halt result { c with sites })

/-- Two calls that are answered alike agree. -/
theorem Advance.agrees_answered {related : Container → Array CallSite → Prop} {c : Container}
    {sites : Array CallSite} (h : related c sites) (waiting : Frame)
    (answer : Except Error Value) :
    Agrees related (.answered waiting answer c) (.answered waiting answer { c with sites }) := by
  cases answer with
  | ok value => exact .go (waiting.push value) h
  | error e => exact .halt (.error e) c sites

/-- What holds of the container of a program, and of the call sites of the container of the woven
program, at every step of the two runs. -/
structure Program.Lockstep (program : Program) (kind registry : String)
    (places : List ProgramSite) (c : Container) (sites : Array CallSite) : Prop where
  full : c.AllInitialized registry
  served : program.Served registry c
  wovenServed : (program.woven kind places).Served registry { c with sites }
  injected : program.code.Injected kind registry c

namespace Invocation

variable {inv : Invocation} {kind registry : String} {places : List ProgramSite} {depth : Nat}
  {frame : Frame} {c : Container} {sites : Array CallSite} {insn : Instruction}

/-- An invocation of a method of a consistent module, which does not write to injected fields. -/
structure Weavable (inv : Invocation) (kind : String) : Prop where
  consistent : inv.program.code.Consistent
  name : inv.program.name = inv.program.code.pool.text inv.program.code.name
  method : inv.program.code.methods[inv.index]? = some inv.method
  leaves : ∀ field, .putField field ∈ inv.method.code →
    inv.program.code.symbol? kind field = none

/-- From related containers, an instruction of the program and one of the woven program take steps
that agree. -/
def StepsAgree (inv : Invocation) (kind registry : String) (places : List ProgramSite)
    (depth : Nat) (frame : Frame) (c : Container) (sites : Array CallSite)
    (insn insn' : Instruction) : Prop :=
  ∃ a a', inv.advance depth registry frame c insn = some a ∧
    (inv.woven kind places).advance depth registry frame { c with sites } insn' = some a' ∧
    a.Agrees (inv.program.Lockstep kind registry places) a'

/-- An instruction that is not a dynamic call does the same in the woven program. -/
theorem stepsAgree_same (h : inv.program.Lockstep kind registry places c sites)
    (hcall : ∀ symbol slot, insn ≠ .invokeDynamic symbol slot)
    (hput : ∀ field, insn = .putField field → inv.program.code.symbol? kind field = none) :
    inv.StepsAgree kind registry places depth frame c sites insn insn := by
  have hsame : (inv.woven kind places).step frame c.heap insn = inv.step frame c.heap insn :=
    step_congr rfl rfl rfl hcall
  simp only [StepsAgree, advance, hsame]
  cases hstep : inv.step frame c.heap insn with
  | next after => exact ⟨_, _, rfl, rfl, .go after h⟩
  | finish value => exact ⟨_, _, rfl, rfl, .halt (.ok value) c sites⟩
  | fail cause => exact ⟨_, _, rfl, rfl, .halt (.error (.runtime cause)) c sites⟩
  | store id slot value after =>
      obtain ⟨field, _, _, rfl, -, -, -, rfl, -⟩ := step_eq_store hstep
      have hinjected := h.injected.store (hput field rfl) id value
      refine ⟨_, _, rfl, rfl, ?_⟩
      exact .go after (c := { c with heap := c.heap.store id field.toNat value })
        ⟨h.full, h.served.congr rfl rfl, h.wovenServed.congr rfl rfl, hinjected⟩
  | call site after =>
      obtain ⟨symbol, slot, _, _, rfl, -⟩ := step_eq_call hstep
      exact absurd rfl (hcall symbol slot)

/-- A dynamic call of the program itself has a call site in both programs, and both sites are
answered by the registry. -/
theorem stepsAgree_call (hinv : inv.Weavable kind)
    (h : inv.program.Lockstep kind registry places c sites) {symbol slot : UInt16}
    (hfetch : inv.method.code[frame.pc]? = some (.invokeDynamic symbol slot)) :
    inv.StepsAgree kind registry places (depth + 1) frame c sites (.invokeDynamic symbol slot)
      (.invokeDynamic symbol slot) := by
  cases hstack : frame.stack with
  | nil =>
      exact ⟨_, _, advance_of_fail (step_dynamic_of_empty hstack),
        advance_of_fail (step_dynamic_of_empty hstack), .halt _ c sites⟩
  | cons operand stack =>
      -- the operands are strings, or the module would not have been accepted
      have hmethod := hinv.consistent.method inv.method (Array.mem_of_getElem? hinv.method)
      obtain ⟨⟨name, hname⟩, ⟨field, hfield⟩⟩ := hmethod.2.2 _ (Array.mem_of_getElem? hfetch)
      have hcall : inv.program.code.HasCall ⟨inv.index, frame.pc, name, field⟩ :=
        ⟨inv.method, symbol, slot, hinv.method, hfetch, hname, hfield⟩
      obtain ⟨after, hadvance, hserved⟩ :=
        advance_dynamic inv depth h.full h.served hcall rfl rfl hstack
      obtain ⟨after', hadvance', hserved'⟩ :=
        advance_dynamic (inv.woven kind places) depth (c := { c with sites }) h.full
          h.wovenServed hcall.woven rfl rfl hstack
      have hrelated : inv.program.Lockstep kind registry places { c with sites := after } after' :=
        ⟨h.full, hserved, hserved', h.injected⟩
      exact ⟨_, _, hadvance, hadvance', Advance.agrees_answered hrelated _ _⟩

/-- A read of an injected field that succeeds pushes the value that the registry holds, and so does
the call that replaces it. -/
theorem stepsAgree_read (hinv : inv.Weavable kind)
    (h : inv.program.Lockstep kind registry places c sites) {field : UInt16}
    {target : CallTarget} (hfetch : inv.method.code[frame.pc]? = some (.getField field))
    (htarget : inv.program.code.callTarget? kind field = some target)
    (hreads : ¬ ∃ cause, inv.ReadFails frame c.heap field cause) :
    inv.StepsAgree kind registry places (depth + 1) frame c sites (.getField field)
      (.invokeDynamic target.symbol target.slot) := by
  cases hstack : frame.stack with
  | nil =>
      exact ⟨_, _, advance_of_fail (step_read_of_empty hstack),
        advance_of_fail (step_dynamic_of_empty hstack), .halt _ c sites⟩
  | cons object stack =>
      obtain ⟨symbol, hsymbol, hfirst, ⟨slot, hslot⟩⟩ := Module.strings_of_callTarget? htarget
      obtain ⟨id, value, hreceiver, hvalue, hstep⟩ :=
        (readFails_or_step inv c.heap field hstack).resolve_left hreads
      -- the receiver is an instance of the module, so its slot has the value that is held
      obtain ⟨held, hheld, hstored⟩ := h.injected field symbol hsymbol
      have howner : c.heap.owner? id = some _ := Heap.owner?_of_slot? hvalue
      rw [owner_of_receiver hreceiver, hinv.name] at howner
      obtain rfl := hstored id value howner hvalue
      have hanswer : c.answer registry symbol slot = .ok value := by
        rw [Container.answer, hheld]
      have hcall : (inv.woven kind places).program.code.HasCall
          ⟨inv.index, frame.pc, symbol, slot⟩ :=
        Module.HasCall.of_read hinv.method hfetch htarget hfirst hslot
      obtain ⟨after, hadvance, hserved⟩ :=
        advance_dynamic (inv.woven kind places) depth (c := { c with sites }) h.full
          h.wovenServed hcall rfl rfl hstack
      refine ⟨.go _ c, _, by rw [advance, hstep], hadvance, ?_⟩
      show Advance.Agrees _ _ (.answered _ (c.answer registry symbol slot) _)
      rw [hanswer]
      exact .go _ ⟨h.full, h.served, hserved, h.injected⟩

/-- **An instruction and the one that replaces it agree**, unless the instruction is a read of an
injected field that fails for the sake of its operand. -/
theorem advance_woven (depth : Nat) (hinv : inv.Weavable kind)
    (h : inv.program.Lockstep kind registry places c sites)
    (hfetch : inv.method.code[frame.pc]? = some insn) :
    (∃ field cause, insn = .getField field ∧ (inv.program.code.symbol? kind field).isSome ∧
        inv.ReadFails frame c.heap field cause) ∨
      inv.StepsAgree kind registry places (depth + 1) frame c sites insn
        (insn.weave (inv.program.code.callTargets kind)) := by
  cases insn with
  | invokeDynamic symbol slot => exact .inr (stepsAgree_call hinv h hfetch)
  | getField field =>
      rw [Module.weave_getField]
      cases htarget : inv.program.code.callTarget? kind field with
      | none => exact .inr (stepsAgree_same h (by simp) (by simp))
      | some target =>
          by_cases hfails : ∃ cause, inv.ReadFails frame c.heap field cause
          · obtain ⟨cause, hfails⟩ := hfails
            obtain ⟨symbol, hsymbol, -⟩ := Module.strings_of_callTarget? htarget
            exact .inl ⟨field, cause, rfl, by rw [hsymbol]; rfl, hfails⟩
          · exact .inr (stepsAgree_read hinv h hfetch htarget hfails)
  | putField field =>
      refine .inr (stepsAgree_same h (by simp) ?_)
      intro other hother
      cases hother
      exact hinv.leaves field (Array.mem_of_getElem? hfetch)
  | _ => exact .inr (stepsAgree_same h (by simp) (by simp))

/-! ## Runs -/

/-- Within its limit, a run comes to a read of an injected field and stops there for this cause:
the operand is no instance of the module, or has no such slot. -/
def StopsReading (inv : Invocation) (kind : String) (depth : Nat) (registry : String)
    (first : Frame) (origin : Container) (cause : RuntimeError) (c : Container) : Prop :=
  ∃ n frame field, n < inv.limit ∧ inv.Reaches depth registry first origin n frame c ∧
    inv.method.code[frame.pc]? = some (.getField field) ∧
    (inv.program.code.symbol? kind field).isSome ∧ inv.ReadFails frame c.heap field cause

/-- The woven program has an instruction where the program has one. -/
theorem getElem?_woven (inv : Invocation) (kind : String) (places : List ProgramSite) (pc : Nat) :
    (inv.woven kind places).method.code[pc]? =
      (inv.method.code[pc]?).map (·.weave (inv.program.code.callTargets kind)) :=
  Array.getElem?_map

/-- Where a run falls off the end of the method, so does the woven run. -/
theorem run_woven_of_none {remaining : Nat} (h : inv.method.code[frame.pc]? = none) :
    (inv.woven kind places).run depth registry remaining frame c =
      some (.error (.runtime (inv.trap frame.pc .fellOff)), c) := by
  have hwoven := getElem?_woven inv kind places frame.pc
  rw [h] at hwoven
  exact run_of_none hwoven

/-- Where a run has used up its steps, so has the woven run. -/
theorem run_woven_zero (h : inv.method.code[frame.pc]? = some insn) :
    (inv.woven kind places).run depth registry 0 frame c =
      some (.error (.runtime (inv.trap frame.pc (.stepLimit inv.limit))), c) := by
  have hwoven := getElem?_woven inv kind places frame.pc
  rw [h] at hwoven
  exact run_zero hwoven

/-- **A run and the woven run agree** from related containers on, unless the run stops at a read
of an injected field. -/
theorem run_woven (depth : Nat) (hinv : inv.Weavable kind) {first : Frame} {origin : Container}
    {n remaining : Nat} (h : inv.program.Lockstep kind registry places c sites)
    (hreach : inv.Reaches (depth + 1) registry first origin n frame c)
    (hlimit : n + remaining = inv.limit) :
    ∃ result after, inv.run (depth + 1) registry remaining frame c = some (result, after) ∧
      ((∃ sites', (inv.woven kind places).run (depth + 1) registry remaining frame
          { c with sites } = some (result, { after with sites := sites' })) ∨
        ∃ cause, result = .error (.runtime cause) ∧
          inv.StopsReading kind (depth + 1) registry first origin cause after) := by
  induction remaining generalizing n frame c sites with
  | zero =>
      cases hfetch : inv.method.code[frame.pc]? with
      | none => exact ⟨_, _, run_of_none hfetch, .inl ⟨sites, run_woven_of_none hfetch⟩⟩
      | some insn => exact ⟨_, _, run_zero hfetch, .inl ⟨sites, run_woven_zero hfetch⟩⟩
  | succ remaining ih =>
      cases hfetch : inv.method.code[frame.pc]? with
      | none => exact ⟨_, _, run_of_none hfetch, .inl ⟨sites, run_woven_of_none hfetch⟩⟩
      | some insn =>
          have hwoven := getElem?_woven inv kind places frame.pc
          rw [hfetch] at hwoven
          rw [run_succ hfetch, run_succ hwoven]
          rcases advance_woven depth hinv h hfetch with
            ⟨field, cause, rfl, hmarked, hfails⟩ | ⟨a, a', hadvance, hadvance', hagree⟩
          · have hbelow : n < inv.limit := by omega
            rw [advance_of_fail (step_of_readFails hfails)]
            exact ⟨.error (.runtime cause), c, rfl,
              .inr ⟨cause, rfl, n, frame, field, hbelow, hreach, hfetch, hmarked, hfails⟩⟩
          · rw [hadvance, hadvance']
            cases hagree with
            | go next hrelated =>
                -- the step that was made counts for the states that the run comes to
                exact ih hrelated (.step hreach hfetch hadvance) (by omega)
            | halt result after sites' => exact ⟨result, after, rfl, .inl ⟨sites', rfl⟩⟩

end Invocation

/-! ## Invoking a method -/

/-- A method of a program and of the woven program, from related containers. -/
theorem Container.invoke_woven {program : Program} {kind registry name : String}
    {places : List ProgramSite} {c : Container} {sites : Array CallSite}
    (hconsistent : program.code.Consistent)
    (hname : program.name = program.code.pool.text program.code.name)
    (hleaves : program.code.LeavesInjected kind name)
    (h : program.Lockstep kind registry places c sites)
    (receiver : Value) (args : List Value) (limit depth : Nat) :
    ∃ result after,
      invoke (depth + 1) registry program name receiver args limit c = some (result, after) ∧
      ((∃ sites', invoke (depth + 1) registry (program.woven kind places) name receiver args limit
          { c with sites } = some (result, { after with sites := sites' })) ∨
        ∃ inv cause, prepare program name args limit = .ok inv ∧
          result = .error (.runtime cause) ∧
          inv.StopsReading kind (depth + 1) registry (inv.start receiver args) c cause after) := by
  unfold invoke
  rw [prepare_woven]
  cases hprepare : prepare program name args limit with
  | error cause => exact ⟨_, c, rfl, .inl ⟨sites, rfl⟩⟩
  | ok inv =>
      obtain ⟨index, method, hindex, hmethod, -, rfl⟩ := prepare_eq_ok.1 hprepare
      have hinv : Invocation.Weavable { program, index, name, method, limit } kind :=
        ⟨hconsistent, hname, hmethod, fun field => hleaves index method field hindex hmethod⟩
      obtain ⟨result, after, hrun, hagree⟩ :=
        Invocation.run_woven depth hinv h .start (Nat.zero_add limit)
      refine ⟨result, after, hrun, hagree.imp_right ?_⟩
      rintro ⟨cause, hresult, hstops⟩
      exact ⟨_, cause, rfl, hresult, hstops⟩

/-- Loading a module and loading the woven module into one container starts them in lockstep. -/
theorem Program.lockstep_of_load {m : Module} {kind registry : String}
    {c loaded loaded' : Container} {program program' : Program}
    (hload : c.load m = .ok (program, loaded))
    (hload' : c.load (m.woven kind) = .ok (program', loaded'))
    (hfull : c.AllInitialized registry) (hinjected : m.Injected kind registry c) :
    program' = program.woven kind program'.sites ∧
      loaded' = { loaded with sites := loaded'.sites } ∧
      program.Lockstep kind registry program'.sites loaded loaded'.sites := by
  have hserved := served_of_load hload registry
  have hserved' := served_of_load hload' registry
  obtain ⟨-, rfl, rfl⟩ := Container.load_eq_ok.1 hload
  obtain ⟨-, rfl, rfl⟩ := Container.load_eq_ok.1 hload'
  rw [Container.addCalls_eq] at hserved hserved' ⊢
  rw [Container.addCalls_eq]
  exact ⟨rfl, rfl, hfull, hserved, hserved', hinjected⟩

/-- **Weaving preserves behaviour.** Take a module that validates and can be woven, a method that
does not write to injected fields, a registry whose providers all have their values, and instances
that store these values in the injected fields. Whatever the step limit, the method of the loaded
module and the method of the loaded woven module then have one result, and they leave containers
that differ in call sites only; or else the run of the module stops at a read of an injected field,
whose operand is no instance of the module or has no such slot. -/
theorem Module.invoke_of_weave {m woven : Module} {kind registry name : String}
    {summary : WeaveSummary} {c : Container} (hvalid : m.validate = .ok ())
    (hweave : m.weave kind = .ok (woven, summary)) (hleaves : m.LeavesInjected kind name)
    (hfull : c.AllInitialized registry) (hinjected : m.Injected kind registry c)
    (receiver : Value) (args : List Value) (limit depth : Nat) :
    ∃ program loaded program' loaded' result after,
      c.load m = .ok (program, loaded) ∧ c.load woven = .ok (program', loaded') ∧
      Container.invoke (depth + 1) registry program name receiver args limit loaded =
        some (result, after) ∧
      ((∃ sites, Container.invoke (depth + 1) registry program' name receiver args limit loaded' =
          some (result, { after with sites })) ∨
        ∃ inv cause, Container.prepare program name args limit = .ok inv ∧
          result = .error (.runtime cause) ∧
          inv.StopsReading kind (depth + 1) registry (inv.start receiver args) loaded cause
            after) := by
  have hconsistent := validate_eq_ok_iff.1 hvalid
  obtain ⟨-, hresult⟩ := weave_eq_ok.1 hweave
  cases hresult
  obtain ⟨program, loaded, hload⟩ := Container.load_of_consistent hconsistent c
  obtain ⟨program', loaded', hload'⟩ := Container.load_of_consistent (hconsistent.woven kind) c
  obtain ⟨hprogram, hloaded, hlockstep⟩ :=
    Program.lockstep_of_load hload hload' hfull hinjected
  obtain ⟨-, -, hparts⟩ := Container.load_eq_ok.1 hload
  have hcode : program.code = m := by rw [hparts]
  have hname : program.name = program.code.pool.text program.code.name := by rw [hparts]
  obtain ⟨result, after, hinvoke, hagree⟩ :=
    Container.invoke_woven (hcode ▸ hconsistent) hname (hcode ▸ hleaves) hlockstep receiver args
      limit depth
  rw [← hprogram, ← hloaded] at hagree
  exact ⟨program, loaded, program', loaded', result, after, hload, hload', hinvoke, hagree⟩

/-- A module with an injected field and a method that answers with its value. -/
def Module.reader : Module where
  name := 0
  pool := ⟨#[.str "Reader", .str "field", .str "inject", .str "symbol", .str "read"]⟩
  fields := #[⟨1, [⟨2, 3⟩]⟩]
  methods := #[⟨4, 0, 0, [], #[.loadLocal 0, .getField 0, .ret]⟩]

/-- A container with an instance of the module above, which stores what the registries hold. -/
def Container.filled : Container where
  singletons := #[{ name := "symbol", body := 0, state := .full (.int 7) }]
  registries := fun _ => ⟨[⟨"symbol", "provide", 0⟩]⟩
  heap := #[⟨"Reader", #[.int 7]⟩]

theorem Module.invoke_of_weave_reader :
    ∃ program loaded program' loaded' result after,
      Container.filled.load reader = .ok (program, loaded) ∧
      Container.filled.load (reader.woven "inject") = .ok (program', loaded') ∧
      Container.invoke 1 "" program "read" (.object 0) [] 3 loaded = some (result, after) ∧
      ((∃ sites, Container.invoke 1 "" program' "read" (.object 0) [] 3 loaded' =
          some (result, { after with sites })) ∨
        ∃ inv cause, Container.prepare program "read" [] 3 = .ok inv ∧
          result = .error (.runtime cause) ∧
          inv.StopsReading "inject" 1 "" (inv.start (.object 0) []) loaded cause after) := by
  have hvalid : reader.validate = .ok () := rfl
  have hscannable : reader.Scannable "inject" :=
    (validate_eq_ok_iff.1 hvalid).scannable "inject" (by decide)
  have hweave := weave_eq_ok.2 ⟨hscannable, rfl⟩
  have hleaves : reader.LeavesInjected "inject" "read" := by
    intro index method field _ hmethod hput
    obtain ⟨hlt, -⟩ := Array.getElem?_eq_some_iff.1 hmethod
    obtain rfl : index = 0 := Nat.lt_one_iff.1 hlt
    cases hmethod
    simp [reader] at hput
  have hfull : Container.filled.AllInitialized "" := by
    intro entry hentry
    obtain rfl := List.mem_singleton.1 hentry
    rfl
  have hinjected : reader.Injected "inject" "" Container.filled := by
    intro field symbol hsymbol
    obtain ⟨found, hfield, -⟩ := symbol?_eq_some.1 hsymbol
    have hzero : field.toNat = 0 := by
      obtain ⟨hlt, -⟩ := Array.getElem?_eq_some_iff.1 hfield
      exact Nat.lt_one_iff.1 hlt
    obtain rfl : field = 0 := UInt16.toNat_inj.1 hzero
    cases hsymbol
    refine ⟨.int 7, rfl, ?_⟩
    intro id old howner hslot
    obtain ⟨obj, hobj, -⟩ := Option.bind_eq_some_iff.1 hslot
    obtain ⟨hlt, -⟩ := Array.getElem?_eq_some_iff.1 hobj
    obtain rfl : id = 0 := Nat.lt_one_iff.1 hlt
    cases hslot
    rfl
  exact invoke_of_weave hvalid hweave hleaves hfull hinjected (.object 0) [] 3 0

end LateBinding
