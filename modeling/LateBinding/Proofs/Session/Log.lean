import LateBinding.Proofs.Container.Linking
import LateBinding.Proofs.Machine.Execution

set_option autoImplicit false

/-! # What happens in a session

A session is a list of operations on one container (`Operation.performAll`). What matters to
providers and call sites is often not done by an operation itself but deep inside it: by a body
that asks a registry, or by a method that comes to a dynamic call. The events of a session are
collected here from the places where they happen: `readLog` follows the reads of singletons
through the bodies they run, `Invocation.log` follows a method from step to step. Each log takes
the same way as the function that it belongs to and asks this function for the container to go on
with, so it needs no semantics of its own.
-/

namespace LateBinding

/-- What a read of a singleton came to. -/
structure Read where
  /-- How the body ended, if it was run for this read. -/
  run : Option (Except Error Value)
  answer : Except Error Value

/-- Something that happens to providers and call sites. -/
inductive Event where
  /-- An entry was installed in a registry, with a fresh singleton for the body. -/
  | installed (registry : String) (entry : Entry) (body : BodyId)
  /-- A singleton with this body was read, and the read has ended. -/
  | read (singleton : SingletonId) (body : BodyId) (read : Read)
  /-- A call site was linked or invoked by way of a registry, in the state `before`. -/
  | used (site : SiteId) (registry : String) (before : Container)

/-- The read for which a body was run that ended like this, by the provider called `name`. -/
def Read.ofRun (name : String) (outcome : Except Error Value) : Read where
  run := some outcome
  answer := outcome.mapError (Error.ofProvider name)

/-- The read of a value that is there. -/
def Read.ofValue (value : Value) : Read where
  run := none
  answer := .ok value

/-! ## Registering and reading -/

namespace Container

/-- The installation of a method, as an event. -/
def installation (registry : String) (c : Container) (method : ProviderMethod) : Event :=
  .installed registry ⟨method.provides, method.name, c.singletons.size⟩ method.body

/-- The installations of methods, one after the other. -/
def installLog (registry : String) : List ProviderMethod → Container → List Event
  | [], _ => []
  | method :: methods, c =>
    c.installation registry method :: installLog registry methods (c.install registry method)

/-- What happens when configuration objects are registered. -/
def registerLog (c : Container) (registry : String) (configurations : List Configuration) :
    List Event :=
  match configurations.forM Configuration.check with
  | .error _ => []
  | .ok () => installLog registry (configurations.flatMap Configuration.methods) c

end Container

/-- What happens in a routine, with `read` for reading singletons and `log` for what happens when
one is read. -/
def Routine.log (read : SingletonId → Effect Value) (log : SingletonId → Container → List Event) :
    Routine → Container → List Event
  | .done _, _ => []
  | .create owner slots next, c =>
    let (value, c) := c.create owner slots
    (next value).log read log c
  | .display value next, c => (next (c.heap.display value)).log read log c
  | .get registry name next, c =>
    match c.resolve registry name registrySlot with
    | .error e => (next (.error e)).log read log c
    | .ok id =>
      log id c ++
        match read id c with
        | none => []
        | some (result, c) => (next result).log read log c
  | .register registry names next, c =>
    let configurations := names.filterMap c.catalog
    let (result, after) := c.register registry configurations
    c.registerLog registry configurations ++ (next result).log read log after

namespace Container

/-- The container in which a body is started once more. -/
def counted (c : Container) (id : BodyId) (body : Body) : Container :=
  { c with bodies := c.bodies.setIfInBounds id { body with runs := body.runs + 1 } }

/-- A run of a body that has an outcome is a run of its routine, from where it is counted. -/
theorem runBody_eq_some {c c' : Container} {read : SingletonId → Effect Value} {id : BodyId}
    {args : List Value} {outcome : Except Error Value}
    (h : runBody read id args c = some (outcome, c')) :
    ∃ body, c.bodies[id]? = some body ∧
      (body.routine (body.runs + 1) args).run read (c.counted id body) = some (outcome, c') := by
  unfold runBody at h
  cases hbody : c.bodies[id]? with
  | none =>
      rw [hbody] at h
      cases h
  | some body =>
      rw [hbody] at h
      exact ⟨body, rfl, h⟩

/-- What happens in a run of the body at `id`. -/
def runLog (read : SingletonId → Effect Value) (log : SingletonId → Container → List Event)
    (id : BodyId) (args : List Value) (c : Container) : List Event :=
  match c.bodies[id]? with
  | none => []
  | some body => (body.routine (body.runs + 1) args).log read log (c.counted id body)

/-- What happens when the singleton at `id` is read. -/
def readLog : (depth : Nat) → SingletonId → Container → List Event
  | 0, _, _ => []
  | depth + 1, id, c =>
    match c.singletons[id]? with
    | none => []
    | some singleton =>
      match singleton.state with
      | .full value => [.read id singleton.body (.ofValue value)]
      | .running => []
      | .empty =>
        let started := c.setState id .running
        runLog (readSingleton depth) (readLog depth) singleton.body [] started ++
          match runBody (readSingleton depth) singleton.body [] started with
          | none => []
          | some (outcome, _) => [.read id singleton.body (.ofRun singleton.name outcome)]

/-- What happens when the call site at `id` is invoked. -/
def siteLog (depth : Nat) (registry : String) (id : SiteId) (c : Container) : List Event :=
  .used id registry c ::
    match c.link registry id with
    | (.ok target, c) => readLog depth target c
    | (.error _, _) => []

end Container

/-! ## Running methods -/

namespace Invocation

/-- What happens in one instruction: an event only where it is a dynamic call. -/
def stepLog (inv : Invocation) (depth : Nat) (registry : String) (frame : Frame) (c : Container)
    (insn : Instruction) : List Event :=
  match inv.step frame c.heap insn with
  | .call site _ => Container.siteLog depth registry site c
  | .next _ | .store _ _ _ _ | .finish _ | .fail _ => []

/-- What happens in a run of at most `remaining` instructions. -/
def log (inv : Invocation) (depth : Nat) (registry : String) :
    (remaining : Nat) → Frame → Container → List Event
  | 0, _, _ => []
  | remaining + 1, frame, c =>
    match inv.method.code[frame.pc]? with
    | none => []
    | some insn =>
      inv.stepLog depth registry frame c insn ++
        match inv.advance depth registry frame c insn with
        | some (.go frame c) => inv.log depth registry remaining frame c
        | some (.halt _ _) | none => []

/-- Where there is no instruction, nothing happens any more. -/
theorem log_of_none {inv : Invocation} {depth : Nat} {registry : String} {frame : Frame}
    {c : Container} {remaining : Nat} (h : inv.method.code[frame.pc]? = none) :
    inv.log depth registry remaining frame c = [] := by
  cases remaining with
  | zero => rfl
  | succ remaining => rw [log, h]

/-- Where there is an instruction, what happens in it comes first. -/
theorem log_succ {inv : Invocation} {depth : Nat} {registry : String} {frame : Frame}
    {c : Container} {insn : Instruction} {remaining : Nat}
    (h : inv.method.code[frame.pc]? = some insn) :
    inv.log depth registry (remaining + 1) frame c =
      inv.stepLog depth registry frame c insn ++
        match inv.advance depth registry frame c insn with
        | some (.go frame c) => inv.log depth registry remaining frame c
        | some (.halt _ _) | none => [] := by
  rw [log, h]

end Invocation

/-- What happens when a method of a program is invoked. -/
def Container.invokeLog (depth : Nat) (registry : String) (program : Program) (name : String)
    (receiver : Value) (args : List Value) (limit : Nat) (c : Container) : List Event :=
  match prepare program name args limit with
  | .error _ => []
  | .ok inv => inv.log depth registry limit (inv.start receiver args) c

/-! ## Ways to a value -/

/-- A way to the value of a provider. -/
inductive Handle where
  /-- A name, for which a registry is asked. -/
  | named (registry name : String)
  /-- A singleton that was found before and kept, by itself or as a callable. -/
  | kept (singleton : SingletonId)
  /-- A call site, with the registry by which it is bound if it is not yet. -/
  | site (registry : String) (site : SiteId)

namespace Handle

/-- The value to which a handle leads. -/
def read (depth : Nat) : Handle → Effect Value
  | named registry name => Container.get depth registry name
  | kept id => Container.readSingleton depth id
  | site registry id => Container.invokeSite depth registry id

/-- What happens when the value is read. -/
def log (depth : Nat) (c : Container) : Handle → List Event
  | named registry name =>
    match c.resolve registry name registrySlot with
    | .ok id => c.readLog depth id
    | .error _ => []
  | kept id => c.readLog depth id
  | site registry id => c.siteLog depth registry id

/-- The singleton to which a handle leads. -/
def target? (c : Container) : Handle → Option SingletonId
  | named registry name => (c.resolve registry name registrySlot).toOption
  | kept id => some id
  | site registry id => (c.link registry id).1.toOption

/-- The use that is made of a call site before the singleton is read. -/
def use (c : Container) : Handle → List Event
  | named _ _ | kept _ => []
  | site registry id => [.used id registry c]

/-- Whatever the handle, the singleton to which it leads is read, in a container that differs in
the bindings of call sites at most. -/
theorem reads_target {handle : Handle} {c : Container} {id : SingletonId}
    (h : handle.target? c = some id) :
    ∃ sites, ∀ depth,
      handle.read depth c = Container.readSingleton depth id { c with sites } ∧
      handle.log depth c = handle.use c ++ Container.readLog depth id { c with sites } := by
  cases handle with
  | named registry name =>
      simp only [target?] at h
      cases hid : c.resolve registry name registrySlot with
      | error e =>
          rw [hid] at h
          cases h
      | ok found =>
          rw [hid] at h
          cases h
          refine ⟨c.sites, fun depth => ⟨?_, ?_⟩⟩
          · simp only [read, Container.get, hid]
          · simp only [log, use, hid, List.nil_append]
  | kept kept =>
      cases h
      exact ⟨c.sites, fun depth => ⟨rfl, rfl⟩⟩
  | site registry site =>
      obtain ⟨sites, hsites⟩ := Container.link_eq_sites c registry site
      simp only [target?] at h
      cases hlink : c.link registry site with
      | mk answer after =>
          rw [hlink] at h hsites
          cases hsites
          cases answer with
          | error e => cases h
          | ok found =>
              cases h
              refine ⟨sites, fun depth => ⟨Container.invokeSite_of_ok hlink depth, ?_⟩⟩
              simp only [log, use, Container.siteLog, hlink, List.singleton_append]

end Handle

/-! ## Sessions -/

/-- Something that can be done with a container. -/
inductive Operation where
  | addBody (routine : Nat → List Value → Routine)
  | define (name : String) (configuration : Configuration)
  | register (registry : String) (configurations : List Configuration)
  | clear (registry : String)
  | addSite (symbol slot : String)
  | link (registry : String) (site : SiteId)
  | read (handle : Handle)
  | load (m : Module)
  | create (owner : String) (slots : Nat)
  | setSlot (id : InstanceId) (index : Nat) (value : Value)
  | invoke (registry : String) (program : Program) (name : String) (receiver : Value)
      (args : List Value) (limit : Nat)

namespace Operation

/-- The container after an operation. There is none if a provider never gives its value. An
operation that is refused leaves the container as it is. -/
def perform (depth : Nat) (c : Container) : Operation → Option Container
  | addBody routine => some (c.addBody routine).2
  | define name configuration => some (c.define name configuration)
  | register registry configurations => some (c.register registry configurations).2
  | clear registry => some (c.clear registry)
  | addSite symbol slot => some (c.addSite symbol slot).2
  | link registry site => some (c.link registry site).2
  | read handle => (handle.read depth c).map Prod.snd
  | load m =>
    match c.load m with
    | .ok (_, c) => some c
    | .error _ => some c
  | create owner slots => some (c.create owner slots).2
  | setSlot id index value =>
    match c.setSlot id index value with
    | .ok c => some c
    | .error _ => some c
  | invoke registry program name receiver args limit =>
    (Container.invoke depth registry program name receiver args limit c).map Prod.snd

/-- What happens in an operation. -/
def log (depth : Nat) (c : Container) : Operation → List Event
  | register registry configurations => c.registerLog registry configurations
  | link registry site => [.used site registry c]
  | read handle => handle.log depth c
  | invoke registry program name receiver args limit =>
    c.invokeLog depth registry program name receiver args limit
  | addBody _ | define _ _ | clear _ | addSite _ _ | load _ | create _ _ | setSlot _ _ _ => []

/-- The container after a session. -/
def performAll (depth : Nat) : List Operation → Container → Option Container
  | [], c => some c
  | op :: ops, c => (op.perform depth c).bind (performAll depth ops)

/-- What happens in a session. -/
def logAll (depth : Nat) : List Operation → Container → List Event
  | [], _ => []
  | op :: ops, c =>
    op.log depth c ++
      match op.perform depth c with
      | none => []
      | some c => logAll depth ops c

end Operation

end LateBinding
