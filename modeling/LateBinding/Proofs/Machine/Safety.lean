import LateBinding.Proofs.Machine.Execution

set_option autoImplicit false

/-! # Loaded modules stay within bounds

Validation looks at the operands of each instruction once, before anything runs. In a run the
same operands are used in states that no check has seen. `Invocation.InBounds` says of such a
state that everything the next instruction names is there: the invariant of a run is that the
frame has the local slots of its method and that the next instruction is in the code or right
behind it, which a step keeps (`InBounds.advance`) because branches were checked.
`Program.invoke_inBounds` is the statement about a whole invocation, with the only ways left in
which it can trap.
-/

namespace LateBinding

namespace Invocation

variable {inv : Invocation} {depth : Nat} {registry : String} {frame next : Frame}
  {c c' : Container} {insn : Instruction} {receiver : Value} {args : List Value}

/-! ## What is known before a run -/

/-- The method is one of a consistent module, each dynamic call of which has a call site. -/
structure Loaded (inv : Invocation) : Prop where
  consistent : inv.program.code.Consistent
  method : inv.program.code.methods[inv.index]? = some inv.method
  site : ∀ call, inv.program.code.HasCall call →
    ∃ site, inv.program.siteAt? call.method call.pc = some site

/-- A method of a program that was loaded. -/
theorem loaded_of_prepare {origin after : Container} {m : Module} {program : Program}
    {name : String} {limit : Nat} (hload : origin.load m = .ok (program, after))
    (hprepare : Container.prepare program name args limit = .ok inv) : inv.Loaded := by
  obtain ⟨index, method, -, hmethod, -, rfl⟩ := Container.prepare_eq_ok.1 hprepare
  have hserved := Program.served_of_load hload ""
  obtain ⟨hconsistent, -, rfl⟩ := Container.load_eq_ok.1 hload
  refine ⟨hconsistent, hmethod, ?_⟩
  intro call hcall
  obtain ⟨site, hsite, -⟩ := hserved call hcall
  exact ⟨site, hsite⟩

/-- What an instruction of the method names is there. -/
theorem Loaded.allows (h : inv.Loaded) {pc : Nat} (fetch : inv.method.code[pc]? = some insn) :
    inv.program.code.Allows inv.method insn := by
  have hmethod : inv.method ∈ inv.program.code.methods := Array.mem_of_getElem? h.method
  obtain ⟨-, -, hcode⟩ := h.consistent.method inv.method hmethod
  exact hcode insn (Array.mem_of_getElem? fetch)

/-- A dynamic call of the method has a call site. -/
theorem Loaded.siteAt? (h : inv.Loaded) {pc : Nat} {symbol slot : UInt16}
    (fetch : inv.method.code[pc]? = some (.invokeDynamic symbol slot)) :
    ∃ site, inv.program.siteAt? inv.index pc = some site := by
  obtain ⟨⟨symbolText, hsymbol⟩, ⟨slotText, hslot⟩⟩ := h.allows fetch
  exact h.site ⟨inv.index, pc, symbolText, slotText⟩
    ⟨inv.method, symbol, slot, h.method, fetch, hsymbol, hslot⟩

/-! ## The frame in which a method starts -/

/-- The local slots hold the receiver, the arguments and nothing else, and these fit. -/
structure Starts (inv : Invocation) (receiver : Value) (args : List Value)
    (locals : Array Value) : Prop where
  size : locals.size = inv.method.frameSize
  fits : args.length < inv.method.frameSize
  receiver : locals[0]? = some receiver
  argument : ∀ i, i < args.length → locals[i + 1]? = args[i]?
  empty : ∀ i, args.length < i → i < inv.method.frameSize → locals[i]? = some .null

theorem starts_of_prepare {program : Program} {name : String} {limit : Nat}
    (h : Container.prepare program name args limit = .ok inv) (receiver : Value) :
    inv.Starts receiver args (inv.start receiver args).locals := by
  obtain ⟨index, method, -, -, hargs, rfl⟩ := Container.prepare_eq_ok.1 h
  have hframe : method.frameSize = 1 + args.length + method.locals.toNat := by
    rw [Method.frameSize, hargs]
  constructor
  · simp only [start, List.size_toArray, List.length_cons, List.length_append,
      List.length_replicate]
    omega
  · show args.length < method.frameSize
    omega
  · rfl
  · intro i hi
    simp only [start, List.getElem?_toArray, List.getElem?_cons_succ]
    exact List.getElem?_append_left hi
  · intro i hlt hi
    obtain ⟨j, rfl⟩ := Nat.exists_eq_add_of_lt hlt
    have hj : j < method.locals.toNat := by
      have : args.length + j + 1 < method.frameSize := hi
      omega
    simp only [start, List.getElem?_toArray, List.getElem?_cons_succ]
    rw [List.getElem?_append_right (Nat.le_add_right _ _), Nat.add_sub_cancel_left,
      List.getElem?_replicate, if_pos hj]

/-! ## States of a run -/

/-- The frame has the local slots that the code of the method names, and what else the next
instruction names is there. -/
structure InBounds (inv : Invocation) (frame : Frame) : Prop where
  locals : frame.locals.size = inv.method.frameSize
  pc : frame.pc ≤ inv.method.code.size
  slot : ∀ (place : Nat) (slot : UInt8), inv.method.code[place]? = some (.loadLocal slot) ∨
    inv.method.code[place]? = some (.storeLocal slot) → slot.toNat < frame.locals.size
  constant : ∀ index, inv.method.code[frame.pc]? = some (.pushConst index) →
    ∃ constant, inv.program.code.pool.get? index = some constant
  site : ∀ symbol slot, inv.method.code[frame.pc]? = some (.invokeDynamic symbol slot) →
    ∃ site, inv.program.siteAt? inv.index frame.pc = some site

/-- Where the frame has the local slots of the method and stands in its code or right behind it,
everything else was checked before the run. -/
theorem Loaded.inBounds (h : inv.Loaded) (hlocals : frame.locals.size = inv.method.frameSize)
    (hpc : frame.pc ≤ inv.method.code.size) : inv.InBounds frame := by
  refine ⟨hlocals, hpc, ?_, ?_, fun symbol slot fetch => h.siteAt? fetch⟩
  · intro place slot hfetch
    rw [hlocals]
    rcases hfetch with fetch | fetch
    · exact h.allows fetch
    · exact h.allows fetch
  · intro index fetch
    have hlt : index.toNat < inv.program.code.pool.size := h.allows fetch
    exact ⟨_, Array.getElem?_eq_getElem hlt⟩

/-- An instruction that goes on leads to a frame within bounds. -/
theorem InBounds.advance (hloaded : inv.Loaded) (h : inv.InBounds frame)
    (fetch : inv.method.code[frame.pc]? = some insn)
    (go : inv.advance depth registry frame c insn = some (.go next c')) : inv.InBounds next := by
  obtain ⟨hpc, -⟩ := Array.getElem?_eq_some_iff.1 fetch
  rcases advance_eq_go go with ⟨hstep, -⟩ | ⟨id, slot, value, hstep, -⟩ |
    ⟨site, waiting, value, hstep, -, rfl⟩
  · obtain ⟨hsize, hnext | ⟨target, htarget, hnext⟩⟩ := step_eq_next hstep
    · exact hloaded.inBounds (hsize.trans h.locals) (by omega)
    · -- a branch goes into the code
      have htarget : target.toNat < inv.method.code.size := by
        have hallows := hloaded.allows fetch
        cases insn with
        | jump _ | jumpIfNull _ =>
            cases htarget
            exact hallows
        | _ => cases htarget
      exact hloaded.inBounds (hsize.trans h.locals) (by omega)
  · obtain ⟨_, _, _, -, -, -, -, -, rfl⟩ := step_eq_store hstep
    exact hloaded.inBounds h.locals hpc
  · obtain ⟨_, _, _, _, -, -, -, rfl⟩ := step_eq_call hstep
    exact hloaded.inBounds h.locals hpc

/-- All states that a run comes to are within bounds. -/
theorem inBounds_of_reaches {first : Frame} {origin : Container} {n : Nat}
    (hloaded : inv.Loaded) (hfirst : inv.InBounds first)
    (h : inv.Reaches depth registry first origin n frame c) : inv.InBounds frame := by
  induction h with
  | start => exact hfirst
  | step _ fetch go ih => exact ih.advance hloaded fetch go

/-! ## Traps that are left -/

/-- Within bounds, no operand of an instruction names nothing. -/
theorem InBounds.not_dangles {trap : Trap} (h : inv.InBounds frame)
    (fetch : inv.method.code[frame.pc]? = some insn) : ¬ inv.Dangles frame insn trap := by
  intro hdangles
  cases hdangles with
  | constant missing =>
      obtain ⟨constant, hconstant⟩ := h.constant _ fetch
      rw [hconstant] at missing
      cases missing
  | load missing => exact Nat.not_lt.2 missing (h.slot _ _ (.inl fetch))
  | store missing => exact Nat.not_lt.2 missing (h.slot _ _ (.inr fetch))
  | site missing =>
      obtain ⟨site, hsite⟩ := h.site _ _ fetch
      rw [hsite] at missing
      cases missing

/-- Within bounds, an instruction traps for the values on the stack only. -/
theorem InBounds.ofOperands_of_step {heap : Heap} {owner method : String} {pc : Nat} {trap : Trap}
    (h : inv.InBounds frame) (fetch : inv.method.code[frame.pc]? = some insn)
    (hstep : inv.step frame heap insn = .fail (.trapped owner method pc trap)) :
    owner = inv.program.name ∧ method = inv.name ∧ pc = frame.pc ∧ trap.ofOperands := by
  obtain ⟨index, hcause⟩ | ⟨trap', hcause, htrap⟩ := step_eq_fail hstep
  · cases hcause
  · cases hcause
    exact ⟨rfl, rfl, rfl, htrap.resolve_right (h.not_dangles fetch)⟩

/-- A run that ends within bounds with a trap has fallen off the end of the code, has used up
its steps, or has met values that it cannot work with. -/
theorem InBounds.trap_of_endsAt {left pc : Nat} {owner method : String} {trap : Trap}
    (h : inv.InBounds frame)
    (hend : inv.EndsAt depth registry frame c left
      (.error (.runtime (.trapped owner method pc trap))) c') :
    owner = inv.program.name ∧ method = inv.name ∧
      (trap = .fellOff ∧ pc = inv.method.code.size ∨
        pc < inv.method.code.size ∧ (trap = .stepLimit inv.limit ∨ trap.ofOperands)) := by
  cases hend with
  | fellOff fetch =>
      have hsize := Array.getElem?_eq_none_iff.1 fetch
      exact ⟨rfl, rfl, .inl ⟨rfl, Nat.le_antisymm h.pc hsize⟩⟩
  | limit fetch =>
      obtain ⟨hpc, -⟩ := Array.getElem?_eq_some_iff.1 fetch
      exact ⟨rfl, rfl, .inr ⟨hpc, .inl rfl⟩⟩
  | halt fetch halts =>
      obtain ⟨hpc, -⟩ := Array.getElem?_eq_some_iff.1 fetch
      rcases advance_eq_halt halts with ⟨_, -, hresult, -⟩ | ⟨cause, hstep, hresult, -⟩ |
        ⟨site, waiting, e, -, hinvoke, hresult⟩
      · cases hresult
      · cases hresult
        obtain ⟨howner, hmethod, rfl, htrap⟩ := h.ofOperands_of_step fetch hstep
        exact ⟨howner, hmethod, .inr ⟨hpc, .inr htrap⟩⟩
      · -- the error of a call is in the name of a provider, or names one that is missing
        cases hresult
        obtain he | ⟨_, _, he⟩ := Container.error_of_invokeSite hinvoke
        · cases he
        · cases he

end Invocation

/-- **A loaded module stays within bounds.** Whatever a method of it is called with, in whatever
state the instances, the registries and the call sites are, and whatever the step limit: a method
that is found by its name is there, and its receiver and arguments fit into its local slots. In
each state that the run comes to there are as many local slots as the method asks for, and its code
names no others; the next instruction is in the code or right behind it, the constant or call site
that it names is there, and it traps for the values on the stack only. So when the invocation ends
with a trap, it has fallen off the end and stands right behind the code, or it stands in the code
and has used up its steps or met such values. -/
theorem Program.invoke_inBounds {origin after : Container} {m : Module} {program : Program}
    (hload : origin.load m = .ok (program, after)) (c : Container) (depth : Nat)
    (registry name : String) (receiver : Value) (args : List Value) (limit : Nat) :
    (∀ index, program.code.methodIndex? name = some index →
      ∃ method, program.code.methods[index]? = some method) ∧
    (∀ inv, Container.prepare program name args limit = .ok inv →
      inv.Starts receiver args (inv.start receiver args).locals ∧
      ∀ n frame now, inv.Reaches depth registry (inv.start receiver args) c n frame now →
        inv.InBounds frame ∧
        ∀ insn trap, inv.method.code[frame.pc]? = some insn →
          inv.step frame now.heap insn = .fail (inv.trap frame.pc trap) → trap.ofOperands) ∧
    ∀ owner method pc trap now,
      Container.invoke depth registry program name receiver args limit c =
        some (.error (.runtime (.trapped owner method pc trap)), now) →
      ∃ inv, Container.prepare program name args limit = .ok inv ∧
        owner = program.name ∧ method = name ∧
        (trap = .fellOff ∧ pc = inv.method.code.size ∨
          pc < inv.method.code.size ∧ (trap = .stepLimit limit ∨ trap.ofOperands)) := by
  have hreached (inv : Invocation) (hprepare : Container.prepare program name args limit = .ok inv)
      (n : Nat) (frame : Frame) (now : Container)
      (hreaches : inv.Reaches depth registry (inv.start receiver args) c n frame now) :
      inv.InBounds frame := by
    have hloaded := Invocation.loaded_of_prepare hload hprepare
    have hstarts := Invocation.starts_of_prepare hprepare receiver
    have hfirst := hloaded.inBounds hstarts.size (Nat.zero_le _)
    exact Invocation.inBounds_of_reaches hloaded hfirst hreaches
  refine ⟨?_, ?_, ?_⟩
  · intro index hindex
    obtain ⟨hlt, -⟩ := Array.findIdx?_eq_some_iff_getElem.1 hindex
    exact ⟨_, Array.getElem?_eq_getElem hlt⟩
  · intro inv hprepare
    refine ⟨Invocation.starts_of_prepare hprepare receiver, ?_⟩
    intro n frame now hreaches
    have hbounds := hreached inv hprepare n frame now hreaches
    refine ⟨hbounds, ?_⟩
    intro insn trap fetch hstep
    obtain ⟨-, -, -, htrap⟩ := hbounds.ofOperands_of_step fetch hstep
    exact htrap
  · intro owner method pc trap now hinvoke
    unfold Container.invoke at hinvoke
    split at hinvoke
    · next cause hprepare =>
        cases hinvoke
        obtain hcause | ⟨_, hcause⟩ := Container.prepare_eq_error hprepare
        · cases hcause
        · cases hcause
    · next inv hprepare =>
        obtain ⟨n, left, frame, c', -, hreaches, hend⟩ := Invocation.exists_reaches_of_run hinvoke
        have hbounds := hreached inv hprepare n frame c' hreaches
        obtain ⟨_, _, -, -, -, rfl⟩ := Container.prepare_eq_ok.1 hprepare
        exact ⟨_, hprepare, hbounds.trap_of_endsAt hend⟩

/-- A module with a method that answers with its argument, and in place of nothing with the value
of a provider. -/
def Module.chooser : Module where
  name := 0
  pool := ⟨#[.str "Chooser", .str "choose", .str "symbol", .str "slot"]⟩
  methods := #[⟨1, 1, 1, [], #[.loadLocal 1, .storeLocal 2, .loadLocal 2, .jumpIfNull 6,
    .loadLocal 2, .ret, .loadLocal 0, .invokeDynamic 2 3, .ret]⟩]

theorem Program.invoke_inBounds_chooser :
    ∃ program after, Container.load {} Module.chooser = .ok (program, after) ∧
    (∀ index, program.code.methodIndex? "choose" = some index →
      ∃ method, program.code.methods[index]? = some method) ∧
    (∀ inv, Container.prepare program "choose" [.null] 100 = .ok inv →
      inv.Starts (.int 0) [.null] (inv.start (.int 0) [.null]).locals ∧
      ∀ n frame now, inv.Reaches 1 "" (inv.start (.int 0) [.null]) after n frame now →
        inv.InBounds frame ∧
        ∀ insn trap, inv.method.code[frame.pc]? = some insn →
          inv.step frame now.heap insn = .fail (inv.trap frame.pc trap) → trap.ofOperands) ∧
    ∀ owner method pc trap now,
      Container.invoke 1 "" program "choose" (.int 0) [.null] 100 after =
        some (.error (.runtime (.trapped owner method pc trap)), now) →
      ∃ inv, Container.prepare program "choose" [.null] 100 = .ok inv ∧
        owner = program.name ∧ method = "choose" ∧
        (trap = .fellOff ∧ pc = inv.method.code.size ∨
          pc < inv.method.code.size ∧ (trap = .stepLimit 100 ∨ trap.ofOperands)) := by
  have hvalid : Module.chooser.validate = .ok () := rfl
  obtain ⟨program, after, hload⟩ :=
    Container.load_of_consistent (Module.validate_eq_ok_iff.1 hvalid) {}
  exact ⟨program, after, hload, invoke_inBounds hload after 1 "" "choose" (.int 0) [.null] 100⟩

end LateBinding
