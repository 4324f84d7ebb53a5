import LateBinding.Proofs.Container.Installing
import LateBinding.Proofs.Machine.Execution
import LateBinding.Proofs.Weaving.Woven

set_option autoImplicit false

/-! # Woven code does not observe injected fields

In a woven module no instruction reads an injected field, and nothing else that a method can do
looks into the slots of an instance: a provider cannot, and text shows the name of a module only.
So what the injected fields store has no influence on a run. `Heap.AgreesOutside` relates two heaps
that may differ in these slots, `step_eq_of_agrees` says that an instruction does the same on both,
and `Alike` compares two outcomes up to such a difference. The statements go up from there: from
the routines of providers to reads of singletons and call sites, and from one instruction to whole
runs. `Program.invoke_alike_of_weave` is the statement about a woven module.

A woven method may well write to injected fields. The two heaps then still agree in all other
slots.
-/

namespace LateBinding

/-! ## Heaps that agree outside some slots -/

namespace Heap

/-- The two heaps have the same instances with the same numbers of slots, and these store the same,
except that hidden slots of the instances of `owner` may store anything. -/
structure AgreesOutside (heap heap' : Heap) (owner : String) (hidden : Nat → Prop) : Prop where
  size : heap.size = heap'.size
  owners : ∀ id, heap.owner? id = heap'.owner? id
  slotCounts : ∀ id, heap.slotCount? id = heap'.slotCount? id
  slots : ∀ id index, (heap.owner? id = some owner → ¬ hidden index) →
    heap.slot? id index = heap'.slot? id index

namespace AgreesOutside

variable {heap heap' : Heap} {owner : String} {hidden : Nat → Prop}

theorem slot?_isSome (h : heap.AgreesOutside heap' owner hidden) (id : InstanceId) (index : Nat) :
    (heap.slot? id index).isSome = (heap'.slot? id index).isSome := by
  rw [Bool.eq_iff_iff, Heap.slot?_isSome, Heap.slot?_isSome, h.slotCounts id]

/-- A value is displayed without a look into slots. -/
theorem display (h : heap.AgreesOutside heap' owner hidden) (value : Value) :
    heap.display value = heap'.display value := by
  cases value with
  | null | int _ | str _ => rfl
  | object id => rw [Heap.display, Heap.display, h.owners id]

/-- A new instance is the same in both heaps. -/
theorem push (h : heap.AgreesOutside heap' owner hidden) (obj : Instance) :
    Heap.AgreesOutside (heap.push obj) (heap'.push obj) owner hidden := by
  constructor
  · rw [Array.size_push, Array.size_push, h.size]
  · intro id
    have howner := h.owners id
    unfold Heap.owner? at howner ⊢
    rw [Array.getElem?_push, Array.getElem?_push, h.size]
    split
    · rfl
    · exact howner
  · intro id
    have hcount := h.slotCounts id
    unfold Heap.slotCount? at hcount ⊢
    rw [Array.getElem?_push, Array.getElem?_push, h.size]
    split
    · rfl
    · exact hcount
  · intro id index hshown
    have hslot := h.slots id index
    unfold Heap.owner? at hshown hslot
    unfold Heap.slot? at hslot ⊢
    rw [Array.getElem?_push] at hshown ⊢
    rw [Array.getElem?_push, ← h.size]
    split
    · rfl
    · next hne =>
        rw [if_neg hne] at hshown
        exact hslot hshown

/-- A store of one value in both heaps leaves them in agreement, whichever the slot. -/
theorem store (h : heap.AgreesOutside heap' owner hidden) (place : InstanceId) (slot : Nat)
    (value : Value) :
    (heap.store place slot value).AgreesOutside (heap'.store place slot value) owner hidden := by
  constructor
  · rw [Heap.store, Heap.store, Array.size_modify, Array.size_modify, h.size]
  · intro id
    rw [owner?_store, owner?_store, h.owners id]
  · intro id
    rw [slotCount?_store, slotCount?_store, h.slotCounts id]
  · intro id index hshown
    rw [owner?_store] at hshown
    rw [slot?_store, slot?_store, h.slots id index hshown]

end AgreesOutside

end Heap

/-! ## One instruction -/

namespace Invocation

variable {inv : Invocation} {frame : Frame} {heap heap' : Heap} {hidden : Nat → Prop}
  {insn : Instruction}

/-- An instruction that does not read a hidden slot does the same on both heaps. -/
theorem step_eq_of_agrees (h : heap.AgreesOutside heap' inv.program.name hidden)
    (hread : ∀ field, insn = .getField field → ¬ hidden field.toNat) :
    inv.step frame heap insn = inv.step frame heap' insn := by
  have hreceiver : inv.receiver heap = inv.receiver heap' := by
    funext value
    cases value with
    | null | int _ | str _ => rfl
    | object id => simp only [receiver, h.owners id]
  obtain ⟨pc, stack, locals⟩ := frame
  cases insn with
  | getField field =>
      cases stack with
      | nil => rfl
      | cons object stack =>
          have hslot (id : InstanceId) : heap.slot? id field.toNat = heap'.slot? id field.toNat :=
            h.slots id field.toNat fun _ => hread field rfl
          simp only [step, readSlot, hreceiver, hslot]
  | putField field =>
      rcases stack with _ | ⟨value, _ | ⟨object, stack⟩⟩
      · rfl
      · rfl
      · -- a write looks at whether the instance has the slot, and at no more
        simp only [step, writeSlot, hreceiver]
        cases inv.receiver heap' object with
        | error trap => rfl
        | ok id =>
            have hsome := h.slot?_isSome id field.toNat
            cases hslot : heap.slot? id field.toNat <;>
              cases hslot' : heap'.slot? id field.toNat <;>
              simp only [hslot, hslot', Option.isSome_some, Option.isSome_none, reduceCtorEq]
                at hsome ⊢
  | concat =>
      rcases stack with _ | ⟨b, _ | ⟨a, stack⟩⟩
      · rfl
      · rfl
      · simp only [step, h.display]
  | _ =>
      rcases stack with _ | ⟨b, _ | ⟨a, stack⟩⟩ <;> simp only [step]

end Invocation

/-! ## Outcomes that differ in hidden slots -/

/-- Both have no outcome, or they have the same result and leave containers that are the same but
for hidden slots of the instances of `owner`. -/
inductive Alike (owner : String) (hidden : Nat → Prop) :
    Option (Except Error Value × Container) → Option (Except Error Value × Container) → Prop
  | never : Alike owner hidden none none
  | ends (result : Except Error Value) {after : Container} {heap : Heap}
      (h : after.heap.AgreesOutside heap owner hidden) :
      Alike owner hidden (some (result, after)) (some (result, { after with heap }))

/-- Whatever hidden slots store, the effect is alike. -/
def Effect.Ignores (effect : Effect Value) (owner : String) (hidden : Nat → Prop) : Prop :=
  ∀ (c : Container) (heap : Heap), c.heap.AgreesOutside heap owner hidden →
    Alike owner hidden (effect c) (effect { c with heap })

variable {owner : String} {hidden : Nat → Prop} {depth : Nat} {registry : String}

/-! ## Reads of providers -/

namespace Container

/-- Installing methods has nothing to do with instances. -/
theorem foldl_install_heap (methods : List ProviderMethod) (c : Container) (heap : Heap) :
    methods.foldl (install registry) { c with heap } =
      { methods.foldl (install registry) c with heap } := by
  induction methods generalizing c with
  | nil => rfl
  | cons method methods ih => exact ih (c.install registry method)

/-- Registering has nothing to do with instances. -/
theorem register_heap (configurations : List Configuration) (c : Container) (heap : Heap) :
    ({ c with heap } : Container).register registry configurations =
      ((c.register registry configurations).1,
        { (c.register registry configurations).2 with heap }) := by
  unfold register
  cases configurations.forM Configuration.check with
  | error cause => rfl
  | ok _ => simp only [foldl_install_heap]

theorem heap_register (configurations : List Configuration) (c : Container) :
    (c.register registry configurations).2.heap = c.heap := by
  by_cases haccepted : Acceptable configurations
  · obtain ⟨entries, hframe⟩ :=
      foldl_install_frame registry (configurations.flatMap Configuration.methods) c
    rw [register_of_acceptable haccepted, hframe]
  · obtain ⟨cause, hregister⟩ := register_of_not_acceptable haccepted c registry
    rw [hregister]

/-- Linking has nothing to do with instances. -/
theorem link_heap (c : Container) (heap : Heap) (id : SiteId) :
    ({ c with heap } : Container).link registry id =
      ((c.link registry id).1, { (c.link registry id).2 with heap }) := by
  cases htarget : (c.site id).target with
  | some target => rw [link_of_target htarget, link_of_target (c := { c with heap }) htarget]
  | none =>
      cases hentry : c.lookup registry (c.site id).symbol with
      | some entry =>
          rw [link_of_lookup htarget hentry, link_of_lookup (c := { c with heap }) htarget hentry]
          rfl
      | none =>
          rw [link_of_missing htarget hentry, link_of_missing (c := { c with heap }) htarget hentry]
          rfl

theorem heap_link (c : Container) (id : SiteId) : (c.link registry id).2.heap = c.heap := by
  obtain ⟨sites, hlink⟩ := c.link_eq_sites registry id
  rw [hlink]

end Container

/-- A routine ignores hidden slots when the reads that it makes do. -/
theorem Routine.ignores_run {read : SingletonId → Effect Value}
    (hread : ∀ id, (read id).Ignores owner hidden) (routine : Routine) :
    (routine.run read : Effect Value).Ignores owner hidden := by
  induction routine with
  | done result => exact fun _ _ h => .ends result h
  | create name slots next ih =>
      intro c heap h
      have hvalue : (c.heap.allocate name slots).1 = (heap.allocate name slots).1 := h.size
      simp only [Routine.run, Container.create, ← hvalue]
      exact ih _ _ _ (h.push _)
  | display value next ih =>
      intro c heap h
      simp only [Routine.run, ← h.display value]
      exact ih _ _ _ h
  | get registry name next ih =>
      intro c heap h
      have hresolve : ({ c with heap } : Container).resolve registry name registrySlot =
          c.resolve registry name registrySlot := rfl
      simp only [Routine.run, hresolve]
      cases c.resolve registry name registrySlot with
      | error e => exact ih _ _ _ h
      | ok id =>
          have hanswer := hread id c heap h
          dsimp only
          generalize read id c = answer at hanswer
          generalize read id { c with heap } = answer' at hanswer
          cases hanswer with
          | never => exact .never
          | ends result hafter => exact ih _ _ _ hafter
  | register registry names next ih =>
      intro c heap h
      simp only [Routine.run, Container.register_heap]
      refine ih _ _ _ ?_
      rw [Container.heap_register]
      exact h

namespace Container

theorem ignores_runBody {read : SingletonId → Effect Value}
    (hread : ∀ id, (read id).Ignores owner hidden) (id : BodyId) (args : List Value) :
    (runBody read id args).Ignores owner hidden := by
  intro c heap h
  simp only [runBody]
  cases c.bodies[id]? with
  | none => exact .never
  | some body => exact Routine.ignores_run hread _ _ _ h

/-- Reading a singleton ignores hidden slots, also where its body reads further ones. -/
theorem ignores_readSingleton (depth : Nat) (id : SingletonId) :
    (readSingleton depth id).Ignores owner hidden := by
  induction depth generalizing id with
  | zero => exact fun _ _ _ => .never
  | succ depth ih =>
      intro c heap h
      simp only [readSingleton]
      cases c.singletons[id]? with
      | none => exact .never
      | some singleton =>
          dsimp only
          cases singleton.state with
          | running => exact .never
          | full value => exact .ends (.ok value) h
          | empty =>
              have hrun := ignores_runBody ih singleton.body [] (c.setState id .running) heap h
              have hstart : ({ c with heap } : Container).setState id .running =
                  { c.setState id .running with heap } := rfl
              dsimp only
              rw [hstart]
              generalize runBody (readSingleton depth) singleton.body [] (c.setState id .running) =
                outcome at hrun ⊢
              generalize runBody (readSingleton depth) singleton.body []
                { c.setState id .running with heap } = outcome' at hrun ⊢
              cases hrun with
              | never => exact .never
              | ends result hafter =>
                  cases result with
                  | ok value => exact .ends (.ok value) hafter
                  | error e => exact .ends (.error (e.ofProvider singleton.name)) hafter

/-- Invoking a call site ignores hidden slots. -/
theorem ignores_invokeSite (depth : Nat) (registry : String) (id : SiteId) :
    (invokeSite depth registry id).Ignores owner hidden := by
  intro c heap h
  have hlinked : (c.link registry id).2.heap.AgreesOutside heap owner hidden := by
    rw [heap_link]
    exact h
  simp only [invokeSite, link_heap]
  generalize c.link registry id = linked at hlinked
  obtain ⟨answer, c'⟩ := linked
  cases answer with
  | error e => exact .ends (.error e) hlinked
  | ok target => exact ignores_readSingleton depth target c' heap hlinked

end Container

/-! ## Runs -/

namespace Invocation

variable {inv : Invocation}

/-- A run of code that does not read hidden slots ignores them. -/
theorem ignores_run (hread : ∀ field, .getField field ∈ inv.method.code → ¬ hidden field.toNat)
    (depth : Nat) (registry : String) (remaining : Nat) (frame : Frame) :
    (inv.run depth registry remaining frame).Ignores inv.program.name hidden := by
  induction remaining generalizing frame with
  | zero => exact fun _ _ h => .ends _ h
  | succ remaining ih =>
      intro c heap h
      cases hfetch : inv.method.code[frame.pc]? with
      | none =>
          rw [run_of_none hfetch, run_of_none hfetch]
          exact .ends _ h
      | some insn =>
          have hsame : inv.step frame c.heap insn = inv.step frame heap insn := by
            refine step_eq_of_agrees h ?_
            rintro field rfl
            exact hread field (Array.mem_of_getElem? hfetch)
          simp only [run, hfetch, ← hsame]
          cases inv.step frame c.heap insn with
          | next after => exact ih after c heap h
          | finish value => exact .ends (.ok value) h
          | fail cause => exact .ends (.error (.runtime cause)) h
          | store id slot value after =>
              exact ih after { c with heap := c.heap.store id slot value } _
                (h.store id slot value)
          | call site waiting =>
              have hcall := Container.ignores_invokeSite depth registry site c heap h
              dsimp only
              generalize Container.invokeSite depth registry site c = outcome at hcall ⊢
              generalize Container.invokeSite depth registry site { c with heap } = outcome'
                at hcall ⊢
              cases hcall with
              | never => exact .never
              | ends result hafter =>
                  cases result with
                  | ok value => exact ih _ _ _ hafter
                  | error e => exact .ends (.error e) hafter

end Invocation

/-! ## Woven modules -/

namespace Module

variable {m : Module} {kind : String}

/-- The field at `index` carries a marker of the kind. -/
def Marks (m : Module) (kind : String) (index : Nat) : Prop :=
  ∃ field marker, m.fields[index]? = some field ∧ marker ∈ field.markers ∧
    m.pool.string marker.kind = .ok kind

/-- Where the markers are strings, a field that carries one of the kind has a symbol. -/
theorem Scannable.symbol?_isSome (h : m.Scannable kind) {index : UInt16}
    (hmarks : m.Marks kind index.toNat) : (m.symbol? kind index).isSome := by
  obtain ⟨field, marker, hfield, hmarker, hkind⟩ := hmarks
  obtain ⟨-, symbol, hsymbol⟩ := (h.field field (Array.mem_of_getElem? hfield)).1 marker hmarker
  have hfound : m.symbolOf? kind marker = some symbol := by
    simp only [symbolOf?, resolve_eq_ok.2 ⟨hkind, hsymbol⟩, if_true]
  have hmem : symbol ∈ m.symbols kind field := List.mem_filterMap.2 ⟨marker, hmarker, hfound⟩
  rw [symbol?, hfield, Option.bind_some, List.getLast?_isSome]
  exact List.ne_nil_of_mem hmem

/-- A woven module does not read a field that carries a marker of the kind. -/
theorem not_marks_of_read_woven (h : m.Scannable kind) {method : Method}
    (hmethod : method ∈ (m.woven kind).methods) {field : UInt16}
    (hread : .getField field ∈ method.code) : ¬ (m.woven kind).Marks kind field.toNat := by
  intro hmarks
  have hsome : (m.symbol? kind field).isSome := h.symbol?_isSome hmarks
  have hnone : m.symbol? kind field = none := symbol?_of_read_woven h hmethod hread
  rw [hnone] at hsome
  cases hsome

end Module

/-- **Woven code does not observe injected fields.** Take a module that was woven and loaded, and
two containers that are the same but for what the instances of the module store in the fields that
carry a marker of the kind. Whatever method is invoked, with whatever receiver, arguments and step
limit, and by whatever registry its call sites are bound: both invocations have an outcome or none
has. They have the same result, a value or an error, they leave the same call sites bound, and
again the containers are the same but for these fields. Provider bodies need no further assumption,
since a routine has no way to read or to write a slot. -/
theorem Program.invoke_alike_of_weave {m woven : Module} {kind : String} {summary : WeaveSummary}
    {origin loaded c : Container} {program : Program} {heap : Heap}
    (hweave : m.weave kind = .ok (woven, summary))
    (hload : origin.load woven = .ok (program, loaded))
    (hagrees : c.heap.AgreesOutside heap program.name (woven.Marks kind)) (depth : Nat)
    (registry name : String) (receiver : Value) (args : List Value) (limit : Nat) :
    Alike program.name (woven.Marks kind)
      (Container.invoke depth registry program name receiver args limit c)
      (Container.invoke depth registry program name receiver args limit { c with heap }) := by
  obtain ⟨hscannable, hresult⟩ := Module.weave_eq_ok.1 hweave
  cases hresult
  obtain ⟨-, -, hprogram⟩ := Container.load_eq_ok.1 hload
  have hcode : program.code = m.woven kind := by rw [hprogram]
  unfold Container.invoke
  cases hprepare : Container.prepare program name args limit with
  | error cause => exact .ends (.error (.runtime cause)) hagrees
  | ok inv =>
      obtain ⟨index, method, -, hmethod, -, rfl⟩ := Container.prepare_eq_ok.1 hprepare
      rw [hcode] at hmethod
      have hread (field : UInt16) (hfield : .getField field ∈ method.code) :
          ¬ (m.woven kind).Marks kind field.toNat :=
        Module.not_marks_of_read_woven hscannable (Array.mem_of_getElem? hmethod) hfield
      have hrun (frame : Frame) : (Invocation.run { program, index, name, method, limit } depth
          registry limit frame).Ignores program.name ((m.woven kind).Marks kind) :=
        Invocation.ignores_run hread depth registry limit frame
      exact hrun _ c heap hagrees

/-- A module with an injected field, a field of its own, and a method that writes its argument to
the injected field, copies the injected field to the other and answers with that. -/
def Module.copier : Module where
  name := 0
  pool := ⟨#[.str "Copier", .str "injected", .str "own", .str "inject", .str "symbol",
    .str "copy"]⟩
  fields := #[⟨1, [⟨3, 4⟩]⟩, ⟨2, []⟩]
  methods := #[⟨5, 1, 0, [], #[.loadLocal 0, .loadLocal 1, .putField 0, .loadLocal 0, .loadLocal 0,
    .getField 0, .putField 1, .loadLocal 0, .getField 1, .ret]⟩]

/-- A container with two instances of the module above, and a provider that creates an instance. -/
def Container.stocked : Container where
  bodies := #[{ routine := fun _ _ => .create "Other" 1 fun value => .done (.ok value) }]
  singletons := #[{ name := "symbol", body := 0 }]
  registries := fun _ => ⟨[⟨"symbol", "provide", 0⟩]⟩
  heap := #[⟨"Copier", #[.int 1, .null]⟩, ⟨"Copier", #[.null, .int 2]⟩]

/-- The instances of the container above, with other values in the injected field. -/
def Heap.disguised : Heap := #[⟨"Copier", #[.str "other", .null]⟩, ⟨"Copier", #[.object 0, .int 2]⟩]

theorem Program.invoke_alike_of_weave_copier :
    ∃ woven summary program loaded, Module.copier.weave "inject" = .ok (woven, summary) ∧
      Container.stocked.load woven = .ok (program, loaded) ∧ program.name = "Copier" ∧
      loaded.heap.AgreesOutside Heap.disguised "Copier" (woven.Marks "inject") ∧
      (Container.invoke 1 "" program "copy" (.object 0) [.object 1] 10 loaded).map Prod.fst =
        some (.ok (.object 2)) ∧
      Alike "Copier" (woven.Marks "inject")
        (Container.invoke 1 "" program "copy" (.object 0) [.object 1] 10 loaded)
        (Container.invoke 1 "" program "copy" (.object 0) [.object 1] 10
          { loaded with heap := Heap.disguised }) := by
  have hvalid : Module.copier.validate = .ok () := rfl
  have hconsistent := Module.validate_eq_ok_iff.1 hvalid
  have hweave := Module.weave_eq_ok.2 ⟨hconsistent.scannable "inject" (by decide), rfl⟩
  have hload := Container.load_eq_ok (c := .stocked).2 ⟨hconsistent.woven "inject", rfl, rfl⟩
  have hmarks : (Module.copier.woven "inject").Marks "inject" 0 :=
    ⟨⟨1, [⟨3, 4⟩]⟩, ⟨3, 4⟩, rfl, List.mem_singleton_self _, rfl⟩
  have hagrees : Container.stocked.heap.AgreesOutside Heap.disguised "Copier"
      ((Module.copier.woven "inject").Marks "inject") := by
    refine ⟨rfl, ?_, ?_, ?_⟩
    · rintro (_ | _ | id) <;> rfl
    · rintro (_ | _ | id) <;> rfl
    · rintro (_ | _ | id) (_ | index) hshown
      · exact absurd hmarks (hshown rfl)
      · rfl
      · exact absurd hmarks (hshown rfl)
      · rfl
      · rfl
      · rfl
  have hheap : (Container.stocked.addCalls (Module.copier.woven "inject").dynamicCalls).2.heap =
      Container.stocked.heap := by rw [Container.addCalls_eq]
  rw [← hheap] at hagrees
  exact ⟨_, _, _, _, hweave, hload, rfl, hagrees, by decide +kernel,
    invoke_alike_of_weave hweave hload hagrees 1 "" "copy" (.object 0) [.object 1] 10⟩

end LateBinding
