import LateBinding.Proofs.Container.Installing
import LateBinding.Proofs.Machine.Execution
import LateBinding.Proofs.Machine.Sites

set_option autoImplicit false

/-! # What an invocation leaves alone

A method works on instances of many modules and on call sites of many programs, all of them in one
container. `Invocation.Confined` says what of the container an invocation may change: slots of
instances of its own module for which its code has a write, and call sites of its own dynamic calls,
which it may bind. A read of a provider changes neither (`Container.Grows`: it may create
instances), a step stays within these bounds (`confined_advance`), and so does a run, as far as it
has come. `Program.invoke_confined` is the statement about a whole invocation.
-/

namespace LateBinding

/-! ## Providers create instances at most -/

namespace Container

variable {c c₁ c' : Container} {registry : String} {depth : Nat} {answer : Except Error Value}

/-- The later container has the instances and the call sites of the earlier one, as they were, and
possibly instances more. -/
structure Grows (c c' : Container) : Prop where
  heap : ∃ created : Array Instance, c'.heap = c.heap ++ created
  sites : c'.sites = c.sites

namespace Grows

theorem of_eq (hheap : c'.heap = c.heap) (hsites : c'.sites = c.sites) : c.Grows c' :=
  ⟨⟨#[], by rw [hheap, Array.append_empty]⟩, hsites⟩

theorem trans (h : c.Grows c₁) (h' : c₁.Grows c') : c.Grows c' := by
  obtain ⟨created, hcreated⟩ := h.heap
  obtain ⟨more, hmore⟩ := h'.heap
  refine ⟨⟨created ++ more, ?_⟩, h'.sites.trans h.sites⟩
  rw [hmore, hcreated, Array.append_assoc]

theorem create (c : Container) (owner : String) (slots : Nat) :
    c.Grows (c.create owner slots).2 :=
  ⟨⟨#[⟨owner, Array.replicate slots .null⟩], Array.push_eq_append⟩, rfl⟩

theorem register (c : Container) (registry : String) (configurations : List Configuration) :
    c.Grows (c.register registry configurations).2 := by
  by_cases haccepted : Acceptable configurations
  · obtain ⟨entries, hframe⟩ :=
      foldl_install_frame registry (configurations.flatMap Configuration.methods) c
    rw [register_of_acceptable haccepted, hframe]
    exact .of_eq rfl rfl
  · obtain ⟨cause, hregister⟩ := register_of_not_acceptable haccepted c registry
    rw [hregister]
    exact .of_eq rfl rfl

/-- An instance that was there is there, as it was. -/
theorem instance?_eq (h : c.Grows c') {id : InstanceId} {obj : Instance}
    (hobj : c.heap[id]? = some obj) : c'.heap[id]? = some obj := by
  obtain ⟨created, hcreated⟩ := h.heap
  obtain ⟨hlt, -⟩ := Array.getElem?_eq_some_iff.1 hobj
  rw [hcreated, Array.getElem?_append_left hlt, hobj]

end Grows

/-- A routine creates instances at most, where the reads that it makes do. -/
theorem grows_routine {read : SingletonId → Effect Value}
    (hread : ∀ id c answer c', read id c = some (answer, c') → c.Grows c') {routine : Routine}
    (h : routine.run read c = some (answer, c')) : c.Grows c' := by
  induction routine generalizing c with
  | done result =>
      cases h
      exact .of_eq rfl rfl
  | create owner slots next ih => exact (Grows.create c owner slots).trans (ih _ h)
  | display value next ih => exact ih _ h
  | get registry name next ih =>
      simp only [Routine.run] at h
      split at h
      · exact ih _ h
      · split at h
        · cases h
        · next hanswer => exact (hread _ _ _ _ hanswer).trans (ih _ h)
  | register registry names next ih =>
      exact (Grows.register c registry (names.filterMap c.catalog)).trans (ih _ h)

theorem grows_readSingleton {id : SingletonId}
    (h : readSingleton depth id c = some (answer, c')) : c.Grows c' := by
  induction depth generalizing id c answer c' with
  | zero => cases h
  | succ depth ih =>
      obtain ⟨less, singleton, hless, -, ⟨_, -, -, rfl⟩ | ⟨-, outcome, c₁, hrun, -, rfl⟩⟩ :=
        readSingleton_eq_some h
      · exact .of_eq rfl rfl
      · cases hless
        unfold runBody at hrun
        split at hrun
        · cases hrun
        · -- marking the singleton and counting the run touch neither instances nor call sites
          have hbody := grows_routine (fun _ _ _ _ => ih) hrun
          exact ⟨hbody.heap, hbody.sites⟩

end Container

/-! ## What an invocation may change -/

/-- The code of the method has a write to the slot. -/
def Method.Writes (method : Method) (index : Nat) : Prop :=
  ∃ field, .putField field ∈ method.code ∧ field.toNat = index

namespace Invocation

variable {inv : Invocation} {depth : Nat} {registry : String} {frame first : Frame}
  {c c₁ c' origin : Container} {insn : Instruction}

/-- The call site belongs to a dynamic call of the method. -/
def Owns (inv : Invocation) (site : SiteId) : Prop :=
  ∃ pc, inv.program.siteAt? inv.index pc = some site

/-- From the earlier to the later container, only what the invocation may change has changed. -/
structure Confined (inv : Invocation) (c c' : Container) : Prop where
  /-- An instance stays an instance of its module. -/
  owner : ∀ id owner, c.heap.owner? id = some owner → c'.heap.owner? id = some owner
  /-- No instance gains or loses slots. -/
  slotCount : ∀ id count, c.heap.slotCount? id = some count → c'.heap.slotCount? id = some count
  /-- A slot stores what it stored, unless the code has a write to it and the instance is one of
  the program's module. -/
  slot : ∀ id index value, c.heap.slot? id index = some value →
    c'.heap.slot? id index = some value ∨
      c.heap.owner? id = some inv.program.name ∧ inv.method.Writes index
  /-- A call site is as it was, unless it is one of the method's, was not bound, and is now. -/
  site : ∀ id, c'.site id = c.site id ∨
    inv.Owns id ∧ (c.site id).target = none ∧
      ∃ target, c'.site id = { c.site id with target := some target }

theorem Confined.refl (inv : Invocation) (c : Container) : inv.Confined c c where
  owner _ _ h := h
  slotCount _ _ h := h
  slot _ _ _ h := .inl h
  site _ := .inl rfl

theorem Confined.trans (h : inv.Confined c c₁) (h' : inv.Confined c₁ c') : inv.Confined c c' where
  owner id owner howner := h'.owner id owner (h.owner id owner howner)
  slotCount id count hcount := h'.slotCount id count (h.slotCount id count hcount)
  slot id index value hslot := by
    rcases h.slot id index value hslot with hkept | hwritten
    · rcases h'.slot id index value hkept with hkept | ⟨howner, hwrites⟩
      · exact .inl hkept
      · -- the instance has had this module all along
        have hbefore := Heap.owner?_of_slot? hslot
        rw [h.owner id _ hbefore] at howner
        exact .inr ⟨hbefore.trans howner, hwrites⟩
    · exact .inr hwritten
  site id := by
    rcases h.site id with hkept | ⟨howns, hunbound, target, hbound⟩
    · have hlater := h'.site id
      rwa [hkept] at hlater
    · rcases h'.site id with hkept | ⟨-, hunbound', -⟩
      · exact .inr ⟨howns, hunbound, target, hkept.trans hbound⟩
      · -- what was bound is not bound a second time
        rw [hbound] at hunbound'
        cases hunbound'

theorem confined_of_grows (inv : Invocation) (h : c.Grows c') : inv.Confined c c' where
  owner id owner howner := by
    obtain ⟨obj, hobj, hname⟩ := Option.map_eq_some_iff.1 howner
    rw [Heap.owner?, h.instance?_eq hobj, Option.map_some, hname]
  slotCount id count hcount := by
    obtain ⟨obj, hobj, hsize⟩ := Option.map_eq_some_iff.1 hcount
    rw [Heap.slotCount?, h.instance?_eq hobj, Option.map_some, hsize]
  slot id index value hslot := by
    obtain ⟨obj, hobj, hvalue⟩ := Option.bind_eq_some_iff.1 hslot
    refine .inl ?_
    rw [Heap.slot?, h.instance?_eq hobj, Option.bind_some, hvalue]
  site id := by
    refine .inl ?_
    rw [Container.site, Container.site, h.sites]

/-- A write to a field of an instance of the program's module. -/
theorem confined_store {id : InstanceId} {field : UInt16} {value : Value}
    (hwrite : .putField field ∈ inv.method.code)
    (howner : c.heap.owner? id = some inv.program.name) :
    inv.Confined c { c with heap := c.heap.store id field.toNat value } where
  owner other owner h := by rwa [Heap.owner?_store]
  slotCount other count h := by rwa [Heap.slotCount?_store]
  slot other index old h := by
    show Heap.slot? (c.heap.store id field.toNat value) other index = some old ∨ _
    rw [Heap.slot?_store]
    by_cases hsame : id = other ∧ field.toNat = index
    · obtain ⟨rfl, rfl⟩ := hsame
      exact .inr ⟨howner, field, hwrite, rfl⟩
    · exact .inl ((if_neg hsame).trans h)
  site _ := .inl rfl

/-- A link of a call site of the method. -/
theorem confined_link {id : SiteId} (howns : inv.Owns id) (c : Container) (registry : String) :
    inv.Confined c (c.link registry id).2 := by
  cases htarget : (c.site id).target with
  | some target =>
      rw [Container.link_of_target htarget]
      exact .refl inv c
  | none =>
      cases hentry : c.lookup registry (c.site id).symbol with
      | none =>
          rw [Container.link_of_missing htarget hentry]
          exact .refl inv c
      | some entry =>
          rw [Container.link_of_lookup htarget hentry]
          refine { owner := fun _ _ h => h, slotCount := fun _ _ h => h,
                   slot := fun _ _ _ h => .inl h, site := ?_ }
          intro other
          rcases c.site_bind id other entry.singleton with hkept | ⟨rfl, hbound⟩
          · exact .inl hkept
          · exact .inr ⟨howns, htarget, entry.singleton, hbound⟩

/-- A call of a provider binds the call site and creates instances at most. -/
theorem confined_invokeSite {id : SiteId} {answer : Except Error Value} (howns : inv.Owns id)
    (h : Container.invokeSite depth registry id c = some (answer, c')) : inv.Confined c c' := by
  have hlink := confined_link howns c registry
  cases hlinked : c.link registry id with
  | mk found c₁ =>
      rw [hlinked] at hlink
      cases found with
      | error e =>
          rw [Container.invokeSite_of_error hlinked] at h
          cases h
          exact hlink
      | ok target =>
          rw [Container.invokeSite_of_ok hlinked] at h
          exact hlink.trans (inv.confined_of_grows (Container.grows_readSingleton h))

/-! ## Steps and runs -/

/-- **One instruction changes only what the invocation may change**, whether the run goes on with it
or ends. -/
theorem confined_advance {outcome : Advance} (fetch : inv.method.code[frame.pc]? = some insn)
    (h : inv.advance depth registry frame c insn = some outcome) :
    inv.Confined c outcome.container := by
  unfold advance at h
  cases hstep : inv.step frame c.heap insn with
  | next _ | finish _ | fail _ =>
      simp only [hstep] at h
      cases h
      exact .refl inv c
  | store id slot value after =>
      simp only [hstep] at h
      cases h
      obtain ⟨field, object, _, rfl, -, hreceiver, hslot, rfl, -⟩ := step_eq_store hstep
      obtain ⟨old, hold⟩ := Option.isSome_iff_exists.1 hslot
      have howner : c.heap.owner? id = some inv.program.name := by
        rw [Heap.owner?_of_slot? hold, owner_of_receiver hreceiver]
      exact confined_store (Array.mem_of_getElem? fetch) howner
  | call site waiting =>
      simp only [hstep] at h
      obtain ⟨⟨answer, c'⟩, hinvoke, rfl⟩ := Option.map_eq_some_iff.1 h
      obtain ⟨_, _, _, _, -, -, hsite, -⟩ := step_eq_call hstep
      rw [Advance.container_answered]
      exact confined_invokeSite ⟨frame.pc, hsite⟩ hinvoke

/-- What a run has changed until it comes to a state. -/
theorem confined_of_reaches {n : Nat} (h : inv.Reaches depth registry first origin n frame c) :
    inv.Confined origin c := by
  induction h with
  | start => exact .refl inv origin
  | step _ fetch go ih => exact ih.trans (confined_advance fetch go)

/-- What a run changes as it ends. -/
theorem confined_of_endsAt {left : Nat} {result : Except Error Value}
    (h : inv.EndsAt depth registry frame c left result c') : inv.Confined c c' := by
  cases h with
  | fellOff fetch => exact .refl inv c
  | limit fetch => exact .refl inv c
  | halt fetch halts => exact confined_advance fetch halts

/-- A call site of a program that was loaded belongs to one method. -/
theorem method_of_owns {loaded : Container} {s : ProgramSite}
    (htable : inv.program.Tabulates origin loaded) (hs : s ∈ inv.program.sites)
    (howns : inv.Owns s.site) : s.method = inv.index := by
  obtain ⟨pc, hpc⟩ := howns
  have hlisted : ⟨inv.index, pc, s.site⟩ ∈ inv.program.sites := (htable.listed _).2 hpc
  have hsame := htable.own s hs _ hlisted rfl
  rw [hsame]

end Invocation

/-! ## Invocations -/

namespace Program

/-- **An invocation leaves alone what is not its own.** Take a loaded module, and invoke a method
of it in whatever container, with whatever receiver, arguments and step limit. Where the module has
no such method, or the arguments are not as many as it takes, the container is the one before. Else
whatever the run has changed, as far as it has come and also when it has ended, with a value or with
an error, are slots of instances of the module that the method has a write to, and call sites of
the method that were not bound and are now; so of the call sites of the module, those of its other
methods and those that were bound are as before. Provider bodies need no further assumption, since a
routine has no way to write a slot or to run code. -/
theorem invoke_confined {origin loaded : Container} {m : Module} {program : Program}
    (hload : origin.load m = .ok (program, loaded)) (c : Container) (depth : Nat)
    (registry name : String) (receiver : Value) (args : List Value) (limit : Nat) :
    m.title = .ok program.name ∧ program.code = m ∧
    (program.method? name = none →
      Container.invoke depth registry program name receiver args limit c =
        some (.error (.runtime (.noMethod name program.name)), c)) ∧
    (∀ index method, program.method? name = some (index, method) →
      args.length ≠ method.params.toNat →
      Container.invoke depth registry program name receiver args limit c =
        some (.error (.runtime
          (.wrongArity program.name name method.params.toNat args.length)), c)) ∧
    ∀ inv, Container.prepare program name args limit = .ok inv →
      inv.program = program ∧ program.method? name = some (inv.index, inv.method) ∧
      (∀ n frame now, inv.Reaches depth registry (inv.start receiver args) c n frame now →
        inv.Confined c now) ∧
      ∀ result after,
        Container.invoke depth registry program name receiver args limit c =
          some (result, after) →
        inv.Confined c after ∧
        ∀ s ∈ program.sites, after.site s.site = c.site s.site ∨
          s.method = inv.index ∧ (c.site s.site).target = none ∧
            ∃ target, after.site s.site = { c.site s.site with target := some target } := by
  have htable := tabulates_of_load hload
  obtain ⟨hconsistent, -, hprogram⟩ := Container.load_eq_ok.1 hload
  have hname : m.title = .ok program.name := by
    rw [hprogram]
    exact Pool.isString_iff.1 hconsistent.name
  have hcode : program.code = m := by rw [hprogram]
  refine ⟨hname, hcode, ?_, ?_, ?_⟩
  · intro hnone
    simp only [Container.invoke, Container.prepare, hnone]
  · intro index method hmethod harity
    simp only [Container.invoke, Container.prepare, hmethod, if_neg harity]
  · intro inv hprepare
    have hown : inv.program = program := Container.program_of_prepare hprepare
    refine ⟨hown, Container.method?_of_prepare hprepare, ?_, ?_⟩
    · intro n frame now hreaches
      exact Invocation.confined_of_reaches hreaches
    · intro result after hinvoke
      rw [Container.invoke_of_prepare hprepare] at hinvoke
      obtain ⟨n, left, frame, now, -, hreaches, hend⟩ := Invocation.exists_reaches_of_run hinvoke
      have hbefore : inv.Confined c now := Invocation.confined_of_reaches hreaches
      have hconfined : inv.Confined c after := hbefore.trans (Invocation.confined_of_endsAt hend)
      refine ⟨hconfined, ?_⟩
      intro s hs
      rcases hconfined.site s.site with hkept | ⟨howns, hbound⟩
      · exact .inl hkept
      · rw [← hown] at htable hs
        exact .inr ⟨Invocation.method_of_owns htable hs howns, hbound⟩

end Program

/-- A method that fills a field of its receiver with what a provider gives. -/
def Method.fill : Method :=
  ⟨3, 0, 0, [], #[.loadLocal 0, .dup, .invokeDynamic 4 1, .putField 0, .pushNull, .ret]⟩

def Module.filler : Module where
  name := 0
  pool := ⟨#[.str "Filler", .str "own", .str "kept", .str "fill", .str "symbol"]⟩
  fields := #[⟨1, []⟩, ⟨2, []⟩]
  methods := #[.fill]

/-- A container with an instance of the module above and one of another module, and a provider that
creates an instance. -/
def Container.peopled : Container where
  bodies := #[{ routine := fun _ _ => .create "Other" 1 fun value => .done (.ok value) }]
  singletons := #[{ name := "symbol", body := 0 }]
  registries := fun _ => ⟨[⟨"symbol", "provide", 0⟩]⟩
  heap := #[⟨"Filler", #[.null, .int 1]⟩, ⟨"Other", #[.int 2]⟩]

theorem Program.invoke_confined_filler :
    ∃ program loaded inv, Container.peopled.load Module.filler = .ok (program, loaded) ∧
      Container.prepare program "fill" [] 10 = .ok inv ∧
      (∃ after, Container.invoke 1 "" program "fill" (.object 0) [] 10 loaded =
          some (.ok .null, after) ∧
        after.heap = #[⟨"Filler", #[.object 2, .int 1]⟩, ⟨"Other", #[.int 2]⟩,
          ⟨"Other", #[.null]⟩] ∧
        inv.Confined loaded after) ∧
      (∃ after, Container.invoke 1 "" program "fill" (.object 1) [] 10 loaded =
          some (.error (.runtime (.trapped "Filler" "fill" 3 (.foreignInstance "Other" "Filler"))),
            after) ∧
        inv.Confined loaded after) ∧
      Container.invoke 1 "" program "empty" (.object 0) [] 10 loaded =
        some (.error (.runtime (.noMethod "empty" "Filler")), loaded) ∧
      Container.invoke 1 "" program "fill" (.object 0) [.null] 10 loaded =
        some (.error (.runtime (.wrongArity "Filler" "fill" 0 1)), loaded) := by
  let program : Program := ⟨"Filler", .filler, [⟨0, 2, 0⟩]⟩
  let loaded : Container := { Container.peopled with sites := #[⟨"symbol", "own", none⟩] }
  let inv : Invocation := ⟨program, 0, "fill", .fill, 10⟩
  have hload : Container.peopled.load Module.filler = .ok (program, loaded) := rfl
  have hindex : program.code.methodIndex? "fill" = some 0 := by decide +kernel
  have hprepare : Container.prepare program "fill" [] 10 = .ok inv :=
    Container.prepare_eq_ok.2 ⟨0, .fill, hindex, rfl, rfl, rfl⟩
  have hmethod : program.method? "fill" = some (0, .fill) := Container.method?_of_prepare hprepare
  have hmissing : program.method? "empty" = none := by decide +kernel
  obtain ⟨-, -, -, -, hown⟩ := invoke_confined hload loaded 1 "" "fill" (.object 0) [] 10
  obtain ⟨-, -, -, -, hforeign⟩ := invoke_confined hload loaded 1 "" "fill" (.object 1) [] 10
  obtain ⟨-, -, hnone, -⟩ := invoke_confined hload loaded 1 "" "empty" (.object 0) [] 10
  obtain ⟨-, -, -, harity, -⟩ := invoke_confined hload loaded 1 "" "fill" (.object 0) [.null] 10
  obtain ⟨-, -, -, hends⟩ := hown inv hprepare
  obtain ⟨-, -, -, hfails⟩ := hforeign inv hprepare
  have hstored : (Container.invoke 1 "" program "fill" (.object 0) [] 10 loaded).map
      (fun outcome => (outcome.1, outcome.2.heap)) = some (.ok .null,
        #[⟨"Filler", #[.object 2, .int 1]⟩, ⟨"Other", #[.int 2]⟩, ⟨"Other", #[.null]⟩]) := by
    decide +kernel
  have hrefused : (Container.invoke 1 "" program "fill" (.object 1) [] 10 loaded).map Prod.fst =
      some (.error (.runtime
        (.trapped "Filler" "fill" 3 (.foreignInstance "Other" "Filler")))) := by
    decide +kernel
  obtain ⟨⟨_, after⟩, hafter, heq⟩ := Option.map_eq_some_iff.1 hstored
  obtain ⟨rfl, hheap⟩ := Prod.mk.inj heq
  obtain ⟨⟨_, failed⟩, hfailed, rfl⟩ := Option.map_eq_some_iff.1 hrefused
  exact ⟨program, loaded, inv, hload, hprepare, ⟨after, hafter, hheap, (hends _ _ hafter).1⟩,
    ⟨failed, hfailed, (hfails _ _ hfailed).1⟩, hnone hmissing, harity 0 .fill hmethod (by decide)⟩

end LateBinding
