import LateBinding.Proofs.Session.Log

set_option autoImplicit false

/-! # Following a session

To follow something through a session means to relate each container with what happens until the
next. `ReadRule` lists what such a relation has to allow so that it holds across every read: what
a body can ask for, a read that finds a value, and a run of a body around which the singleton is
marked as being computed. `SessionRule` adds what only operations can do. The inductions over
routines, nested reads, instructions and operations are made here, once for all relations, and
end in `SessionRule.performAll`. The relations meant are those of a `Trace`: some part of the
container goes through states of its own, and each event allows a step from one to the next.
-/

namespace LateBinding

/-! ## Traces -/

/-- Two states that steps connect, one step for each event. -/
inductive Trace {σ : Type} (step : Event → σ → σ → Prop) : List Event → σ → σ → Prop
  | nil (s : σ) : Trace step [] s s
  | cons {event : Event} {log : List Event} {s s₁ s₂ : σ} (first : step event s s₁)
      (rest : Trace step log s₁ s₂) : Trace step (event :: log) s s₂

namespace Trace

variable {σ : Type} {step : Event → σ → σ → Prop} {event : Event} {log log' : List Event}
  {s s₁ s₂ : σ}

theorem append (h : Trace step log s s₁) (h' : Trace step log' s₁ s₂) :
    Trace step (log ++ log') s s₂ := by
  induction h with
  | nil _ => exact h'
  | cons first _ ih => exact .cons first (ih h')

theorem single (h : step event s s₁) : Trace step [event] s s₁ := .cons h (.nil s₁)

/-- A state that no event changes stays. -/
theorem of_forall (h : ∀ event ∈ log, step event s s) : Trace step log s s := by
  induction log with
  | nil => exact .nil s
  | cons event log ih =>
      have hlog : ∀ other ∈ log, step other s s := fun other hother => h other (.tail _ hother)
      exact .cons (h event (.head _)) (ih hlog)

/-- Along a trace, each event has a state before it and one after it. -/
theorem split (h : Trace step (log ++ event :: log') s s₂) :
    ∃ before after, Trace step log s before ∧ step event before after ∧
      Trace step log' after s₂ := by
  induction log generalizing s with
  | nil =>
      cases h with
      | cons first rest => exact ⟨s, _, .nil s, first, rest⟩
  | cons other log ih =>
      cases h with
      | cons first rest =>
          obtain ⟨before, after, hlog, hevent, hrest⟩ := ih rest
          exact ⟨before, after, .cons first hlog, hevent, hrest⟩

end Trace

/-! ## Rules -/

/-- A relation between two containers and what happens from the one to the other, which covers
everything that a read of a singleton can do. -/
structure ReadRule (R : Container → List Event → Container → Prop) : Prop where
  refl (c : Container) : R c [] c
  trans {c c₁ c₂ : Container} {log log' : List Event} :
    R c log c₁ → R c₁ log' c₂ → R c (log ++ log') c₂
  heap (c : Container) (heap : Heap) : R c [] { c with heap }
  install (registry : String) (c : Container) (method : ProviderMethod) :
    R c [c.installation registry method] (c.install registry method)
  /-- A singleton that has its value is read. -/
  hit {c : Container} {id : SingletonId} {singleton : Singleton} {value : Value} :
    c.singletons[id]? = some singleton → singleton.state = .full value →
    R c [.read id singleton.body (.ofValue value)] c
  /-- A singleton that is empty is read, and what its body does is covered already. -/
  miss {c c₁ : Container} {id : SingletonId} {singleton : Singleton} {body : Body}
      {log : List Event} (outcome : Except Error Value) :
    c.singletons[id]? = some singleton → singleton.state = .empty →
    c.bodies[singleton.body]? = some body →
    R ((c.setState id .running).counted singleton.body body) log c₁ →
    R c (log ++ [.read id singleton.body (.ofRun singleton.name outcome)])
      (c₁.setState id (.after outcome))

/-- A relation that covers everything in a session. -/
structure SessionRule (R : Container → List Event → Container → Prop) : Prop
    extends ReadRule R where
  addBody (c : Container) (routine : Nat → List Value → Routine) : R c [] (c.addBody routine).2
  define (c : Container) (name : String) (configuration : Configuration) :
    R c [] (c.define name configuration)
  clear (c : Container) (registry : String) : R c [] (c.clear registry)
  addSite (c : Container) (symbol slot : String) : R c [] (c.addSite symbol slot).2
  link (c : Container) (registry : String) (id : SiteId) :
    R c [.used id registry c] (c.link registry id).2

variable {R : Container → List Event → Container → Prop} {c c' : Container} {depth : Nat}
  {registry : String}

/-! ## Reads -/

namespace ReadRule

theorem install_all (rule : ReadRule R) (registry : String) (methods : List ProviderMethod)
    (c : Container) :
    R c (Container.installLog registry methods c)
      (methods.foldl (Container.install registry) c) := by
  induction methods generalizing c with
  | nil => exact rule.refl c
  | cons method methods ih => exact rule.trans (rule.install registry c method) (ih _)

theorem register (rule : ReadRule R) (c : Container) (registry : String)
    (configurations : List Configuration) :
    R c (c.registerLog registry configurations) (c.register registry configurations).2 := by
  unfold Container.registerLog Container.register
  cases configurations.forM Configuration.check with
  | error _ => exact rule.refl c
  | ok _ => exact rule.install_all registry _ c

/-- A routine, where the relation covers the reads that it makes. -/
theorem routine (rule : ReadRule R) {read : SingletonId → Effect Value}
    {log : SingletonId → Container → List Event}
    (hread : ∀ id c answer c', read id c = some (answer, c') → R c (log id c) c')
    {routine : Routine} {outcome : Except Error Value}
    (h : routine.run read c = some (outcome, c')) : R c (routine.log read log c) c' := by
  induction routine generalizing c with
  | done result =>
      cases h
      exact rule.refl _
  | create owner slots next ih =>
      rw [← List.nil_append (Routine.log ..)]
      exact rule.trans (rule.heap c (c.heap.allocate owner slots).2) (ih _ h)
  | display value next ih => exact ih _ h
  | get registry name next ih =>
      simp only [Routine.run] at h
      simp only [Routine.log]
      cases hid : c.resolve registry name registrySlot with
      | error e =>
          rw [hid] at h
          exact ih _ h
      | ok id =>
          rw [hid] at h
          cases hanswer : read id c with
          | none => simp only [hanswer, reduceCtorEq] at h
          | some result =>
              obtain ⟨answer, c₁⟩ := result
              simp only [hanswer] at h
              simp only [hanswer]
              exact rule.trans (hread id c answer c₁ hanswer) (ih _ h)
  | register registry names next ih =>
      exact rule.trans (rule.register c registry (names.filterMap c.catalog)) (ih _ h)

/-- A run of a body, from where its run is counted. -/
theorem runBody (rule : ReadRule R) {read : SingletonId → Effect Value}
    {log : SingletonId → Container → List Event}
    (hread : ∀ id c answer c', read id c = some (answer, c') → R c (log id c) c')
    {id : BodyId} {args : List Value} {outcome : Except Error Value}
    (h : Container.runBody read id args c = some (outcome, c')) :
    ∃ body, c.bodies[id]? = some body ∧
      R (c.counted id body) (Container.runLog read log id args c) c' := by
  obtain ⟨body, hbody, hrun⟩ := Container.runBody_eq_some h
  refine ⟨body, hbody, ?_⟩
  rw [Container.runLog, hbody]
  exact rule.routine hread hrun

/-- A read of a singleton. -/
theorem readSingleton (rule : ReadRule R) {id : SingletonId} {answer : Except Error Value}
    (h : Container.readSingleton depth id c = some (answer, c')) :
    R c (Container.readLog depth id c) c' := by
  induction depth generalizing id c answer c' with
  | zero => cases h
  | succ depth ih =>
      obtain ⟨less, singleton, hless, hs, ⟨value, hstate, -, rfl⟩ |
        ⟨hstate, outcome, c₁, hrun, -, rfl⟩⟩ := Container.readSingleton_eq_some h
      · simp only [Container.readLog, hs, hstate]
        exact rule.hit hs hstate
      · cases hless
        simp only [Container.readLog, hs, hstate, hrun]
        have hnested : ∀ id c answer c', Container.readSingleton depth id c = some (answer, c') →
            R c (Container.readLog depth id c) c' := fun _ _ _ _ => ih
        obtain ⟨body, hbody, hbetween⟩ := rule.runBody hnested hrun
        exact rule.miss outcome hs hstate hbody hbetween

end ReadRule

/-! ## Operations -/

namespace SessionRule

theorem invokeSite (rule : SessionRule R) {id : SiteId} {answer : Except Error Value}
    (h : Container.invokeSite depth registry id c = some (answer, c')) :
    R c (Container.siteLog depth registry id c) c' := by
  have hlink := rule.link c registry id
  unfold Container.siteLog
  cases hlinked : c.link registry id with
  | mk result c₁ =>
      rw [hlinked] at hlink
      cases result with
      | error e =>
          rw [Container.invokeSite_of_error hlinked] at h
          cases h
          exact hlink
      | ok target =>
          rw [Container.invokeSite_of_ok hlinked] at h
          exact rule.trans hlink (rule.readSingleton h)

/-- One instruction, whether the run goes on with it or ends. -/
theorem advance (rule : SessionRule R) {inv : Invocation} {frame : Frame} {insn : Instruction}
    {outcome : Advance} (h : inv.advance depth registry frame c insn = some outcome) :
    R c (inv.stepLog depth registry frame c insn) outcome.container := by
  unfold Invocation.advance at h
  unfold Invocation.stepLog
  cases hstep : inv.step frame c.heap insn with
  | next _ | finish _ | fail _ =>
      simp only [hstep] at h
      cases h
      exact rule.refl c
  | store id slot value next =>
      simp only [hstep] at h
      cases h
      exact rule.heap c (c.heap.store id slot value)
  | call site waiting =>
      simp only [hstep] at h
      obtain ⟨⟨answer, c'⟩, hinvoke, rfl⟩ := Option.map_eq_some_iff.1 h
      rw [Advance.container_answered]
      exact rule.invokeSite hinvoke

theorem run (rule : SessionRule R) {inv : Invocation} {remaining : Nat} {frame : Frame}
    {result : Except Error Value}
    (h : inv.run depth registry remaining frame c = some (result, c')) :
    R c (inv.log depth registry remaining frame c) c' := by
  induction remaining generalizing frame c with
  | zero =>
      cases h
      exact rule.refl _
  | succ remaining ih =>
      cases hfetch : inv.method.code[frame.pc]? with
      | none =>
          rw [Invocation.run_of_none hfetch] at h
          rw [Invocation.log_of_none hfetch]
          cases h
          exact rule.refl _
      | some insn =>
          rw [Invocation.run_succ hfetch] at h
          rw [Invocation.log_succ hfetch]
          cases hadvance : inv.advance depth registry frame c insn with
          | none =>
              rw [hadvance] at h
              cases h
          | some outcome =>
              rw [hadvance] at h
              have hstep := rule.advance hadvance
              cases outcome with
              | go next c₁ => exact rule.trans hstep (ih h)
              | halt answer c₁ =>
                  cases h
                  exact rule.trans hstep (rule.refl _)

/-- What a run does until it comes to a state. -/
theorem reaches (rule : SessionRule R) {inv : Invocation} {first frame : Frame} {n : Nat}
    (h : inv.Reaches depth registry first c n frame c') : ∃ log, R c log c' := by
  induction h with
  | start => exact ⟨[], rule.refl c⟩
  | step _ _ go ih =>
      obtain ⟨log, hbefore⟩ := ih
      exact ⟨_, rule.trans hbefore (rule.advance go)⟩

theorem invoke (rule : SessionRule R) {program : Program} {name : String} {receiver : Value}
    {args : List Value} {limit : Nat} {result : Except Error Value}
    (h : Container.invoke depth registry program name receiver args limit c = some (result, c')) :
    R c (Container.invokeLog depth registry program name receiver args limit c) c' := by
  unfold Container.invoke at h
  unfold Container.invokeLog
  cases hprepare : Container.prepare program name args limit with
  | error cause =>
      simp only [hprepare] at h
      cases h
      exact rule.refl _
  | ok inv =>
      simp only [hprepare] at h
      exact rule.run h

theorem read (rule : SessionRule R) {handle : Handle} {answer : Except Error Value}
    (h : handle.read depth c = some (answer, c')) : R c (handle.log depth c) c' := by
  cases handle with
  | named registry name =>
      simp only [Handle.read, Container.get] at h
      simp only [Handle.log]
      cases hid : c.resolve registry name registrySlot with
      | error e =>
          simp only [hid] at h
          cases h
          exact rule.refl _
      | ok id =>
          simp only [hid] at h
          exact rule.readSingleton h
  | kept id => exact rule.readSingleton h
  | site registry id => exact rule.invokeSite h

theorem addCalls (rule : SessionRule R) (calls : List DynamicCall) (c : Container) :
    R c [] (c.addCalls calls).2 := by
  induction calls generalizing c with
  | nil => exact rule.refl c
  | cons call calls ih => exact rule.trans (rule.addSite c call.symbol call.slot) (ih _)

theorem load (rule : SessionRule R) {m : Module} {program : Program}
    (h : c.load m = .ok (program, c')) : R c [] c' := by
  obtain ⟨-, rfl, -⟩ := Container.load_eq_ok.1 h
  exact rule.addCalls m.dynamicCalls c

theorem setSlot (rule : SessionRule R) {id : InstanceId} {index : Nat} {value : Value}
    (h : c.setSlot id index value = .ok c') : R c [] c' := by
  unfold Container.setSlot at h
  split at h
  · cases h
    exact rule.heap c _
  · cases h

theorem perform (rule : SessionRule R) {op : Operation} (h : op.perform depth c = some c') :
    R c (op.log depth c) c' := by
  cases op with
  | addBody routine =>
      cases h
      exact rule.addBody c routine
  | define name configuration =>
      cases h
      exact rule.define c name configuration
  | register registry configurations =>
      cases h
      exact rule.register c registry configurations
  | clear registry =>
      cases h
      exact rule.clear c registry
  | addSite symbol slot =>
      cases h
      exact rule.addSite c symbol slot
  | link registry site =>
      cases h
      exact rule.link c registry site
  | read handle =>
      obtain ⟨⟨answer, _⟩, hread, rfl⟩ := Option.map_eq_some_iff.1 h
      exact rule.read hread
  | load m =>
      simp only [Operation.perform] at h
      split at h
      · next hload =>
          cases h
          exact rule.load hload
      · cases h
        exact rule.refl _
  | create owner slots =>
      cases h
      exact rule.heap c (c.heap.allocate owner slots).2
  | setSlot id index value =>
      simp only [Operation.perform] at h
      split at h
      · next hset =>
          cases h
          exact rule.setSlot hset
      · cases h
        exact rule.refl _
  | invoke registry program name receiver args limit =>
      obtain ⟨⟨result, _⟩, hinvoke, rfl⟩ := Option.map_eq_some_iff.1 h
      exact rule.invoke hinvoke

/-- **A relation that covers whatever can be done in a session covers the session.** -/
theorem performAll (rule : SessionRule R) {ops : List Operation}
    (h : Operation.performAll depth ops c = some c') : R c (Operation.logAll depth ops c) c' := by
  induction ops generalizing c with
  | nil =>
      cases h
      exact rule.refl _
  | cons op ops ih =>
      obtain ⟨c₁, hop, hops⟩ := Option.bind_eq_some_iff.1 h
      simp only [Operation.logAll, hop]
      exact rule.trans (rule.perform hop) (ih hops)

end SessionRule

end LateBinding
