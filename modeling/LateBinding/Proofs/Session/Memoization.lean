import LateBinding.Proofs.Session.Rules

set_option autoImplicit false

/-! # A provider keeps its value

However a provider is reached in a session, by a name, by a singleton that was kept or by a call
site, there is one singleton behind its entry. `EntryStep` is all that can happen to it: it is
installed, its body is run once more while it is empty, and it answers with its value once it has
one. While a body is running there is no step for its singleton, so what a body does in between,
even to the name of its own entry, cannot change it. `FollowsEntries` carries this through whole
sessions, and `Operation.entry_memoized` is the history of an entry that results.
-/

namespace LateBinding

/-! ## What happens to a singleton -/

/-- The singleton that an event concerns. -/
def Event.singleton? : Event → Option SingletonId
  | .installed _ entry _ => some entry.singleton
  | .read id _ _ => some id
  | .used _ _ _ => none

/-- The body that was run for a read. -/
def Event.ranBody? : Event → Option BodyId
  | .read _ body result => if result.run.isSome then some body else none
  | .installed _ _ _ | .used _ _ _ => none

/-- Whether an event concerns the singleton at `id`. -/
def Event.concerns (id : SingletonId) (event : Event) : Bool := event.singleton? == some id

theorem Event.concerns_of_ne {event : Event} {id other : SingletonId}
    (hevent : event.singleton? = some other) (h : other ≠ id) : event.concerns id = false := by
  rw [concerns, hevent]
  exact beq_eq_false_iff_ne.2 (h ∘ Option.some.inj)

theorem Event.concerns_self {event : Event} {id : SingletonId}
    (hevent : event.singleton? = some id) : event.concerns id := by
  rw [concerns, hevent]
  exact beq_self_eq_true _

/-- An installation concerns the singleton of its entry. -/
theorem Event.singleton_ne_of_unconcerned {registry : String} {entry : Entry} {body : BodyId}
    {id : SingletonId} (h : (installed registry entry body).concerns id = false) :
    entry.singleton ≠ id := by
  intro heq
  have hconcerns : (installed registry entry body).concerns id := concerns_self (congrArg some heq)
  rw [h] at hconcerns
  cases hconcerns

/-- How often the body at `id` was run. -/
def runsIn (id : BodyId) (log : List Event) : Nat := log.countP (·.ranBody? == some id)

theorem runsIn_append (id : BodyId) (log log' : List Event) :
    runsIn id (log ++ log') = runsIn id log + runsIn id log' := List.countP_append

/-- What an event makes of the singleton at `id`. -/
inductive EntryStep (id : SingletonId) : Event → Option Singleton → Option Singleton → Prop
  | installed (registry name method : String) (body : BodyId) :
      EntryStep id (.installed registry ⟨name, method, id⟩ body) none (some { name, body })
  | ran (name : String) (body : BodyId) (outcome : Except Error Value) :
      EntryStep id (.read id body (.ofRun name outcome)) (some ⟨name, body, .empty⟩)
        (some ⟨name, body, .after outcome⟩)
  | answered (name : String) (body : BodyId) (value : Value) :
      EntryStep id (.read id body (.ofValue value)) (some ⟨name, body, .full value⟩)
        (some ⟨name, body, .full value⟩)
  | other {event : Event} (state : Option Singleton) (unconcerned : event.concerns id = false) :
      EntryStep id event state state

/-- Nothing happens to a singleton whose value is being computed. -/
theorem EntryStep.of_running {id : SingletonId} {log : List Event} {name : String} {body : BodyId}
    {after : Option Singleton}
    (h : Trace (EntryStep id) log (some ⟨name, body, .running⟩) after) :
    after = some ⟨name, body, .running⟩ ∧ ∀ event ∈ log, event.concerns id = false := by
  induction log with
  | nil =>
      cases h
      exact ⟨rfl, List.forall_mem_nil _⟩
  | cons event log ih =>
      cases h with
      | cons first rest =>
          cases first with
          | other _ unconcerned =>
              obtain ⟨hafter, hrest⟩ := ih rest
              exact ⟨hafter, List.forall_mem_cons.2 ⟨unconcerned, hrest⟩⟩

/-! ## Singletons in a session -/

/-- A body that is started has been run once more. -/
theorem Container.runs_counted {c : Container} {id : BodyId} {body : Body}
    (h : c.bodies[id]? = some body) (other : BodyId) :
    (c.counted id body).runs other = c.runs other + if id = other then 1 else 0 := by
  obtain ⟨hlt, -⟩ := Array.getElem?_eq_some_iff.1 h
  simp only [runs, counted, Array.getElem?_setIfInBounds]
  by_cases hother : id = other
  · subst hother
    simp only [if_true, hlt, h, Option.map_some, Option.getD_some]
  · simp only [if_neg hother, Nat.add_zero]

/-- Every singleton goes the steps that the events allow, and every run of a body is counted. -/
structure FollowsEntries (c : Container) (log : List Event) (c' : Container) : Prop where
  entries : ∀ id, Trace (EntryStep id) log c.singletons[id]? c'.singletons[id]?
  runs : ∀ body, c'.runs body = c.runs body + runsIn body log

namespace FollowsEntries

variable {c c₁ c' : Container} {log log' : List Event}

theorem trans (h : FollowsEntries c log c₁) (h' : FollowsEntries c₁ log' c') :
    FollowsEntries c (log ++ log') c' := by
  constructor
  · intro id
    exact (h.entries id).append (h'.entries id)
  · intro body
    rw [h'.runs, h.runs, runsIn_append, Nat.add_assoc]

/-- Where singletons and bodies are kept, nothing happens to them. -/
theorem of_eq (hsingletons : c'.singletons = c.singletons) (hbodies : c'.bodies = c.bodies) :
    FollowsEntries c [] c' := by
  constructor
  · intro id
    rw [hsingletons]
    exact .nil _
  · intro body
    rw [Container.runs, Container.runs, hbodies]
    rfl

/-- One event for which no body is run. -/
theorem of_event {event : Event}
    (hentries : ∀ id, EntryStep id event c.singletons[id]? c'.singletons[id]?)
    (hbodies : c'.bodies = c.bodies) (hran : event.ranBody? = none) :
    FollowsEntries c [event] c' := by
  constructor
  · intro id
    exact .single (hentries id)
  · intro body
    rw [Container.runs, Container.runs, hbodies, runsIn, List.countP_singleton, hran]
    rfl

theorem install (registry : String) (c : Container) (method : ProviderMethod) :
    FollowsEntries c [c.installation registry method] (c.install registry method) := by
  refine of_event ?_ rfl rfl
  intro id
  have hpush : (c.install registry method).singletons =
      c.singletons.push { name := method.provides, body := method.body } := rfl
  rw [hpush]
  by_cases hid : c.singletons.size = id
  · subst hid
    rw [Array.getElem?_push_size, Array.getElem?_eq_none (Nat.le_refl _)]
    exact .installed registry method.provides method.name method.body
  · rw [Array.getElem?_push, if_neg (Ne.symm hid)]
    exact .other _ (Event.concerns_of_ne rfl hid)

theorem hit {id : SingletonId} {singleton : Singleton} {value : Value}
    (hs : c.singletons[id]? = some singleton) (hstate : singleton.state = .full value) :
    FollowsEntries c [.read id singleton.body (.ofValue value)] c := by
  refine of_event ?_ rfl rfl
  intro other
  by_cases hother : id = other
  · subst hother
    obtain ⟨name, body, state⟩ := singleton
    cases hstate
    rw [hs]
    exact .answered name body value
  · exact .other _ (Event.concerns_of_ne rfl hother)

/-- A run of the body of an empty singleton. While it lasts, nothing happens to the singleton. -/
theorem miss {id : SingletonId} {singleton : Singleton} {body : Body}
    (outcome : Except Error Value) (hs : c.singletons[id]? = some singleton)
    (hstate : singleton.state = .empty) (hbody : c.bodies[singleton.body]? = some body)
    (h : FollowsEntries ((c.setState id .running).counted singleton.body body) log c₁) :
    FollowsEntries c (log ++ [.read id singleton.body (.ofRun singleton.name outcome)])
      (c₁.setState id (.after outcome)) := by
  obtain ⟨name, bodyId, state⟩ := singleton
  cases hstate
  constructor
  · intro other
    have hentry : Trace (EntryStep other) log (c.setState id .running).singletons[other]?
        c₁.singletons[other]? := h.entries other
    by_cases hother : id = other
    · subst hother
      rw [Container.singleton?_setState_self hs] at hentry
      obtain ⟨hafter, hlog⟩ := EntryStep.of_running hentry
      rw [hs, Container.singleton?_setState_self hafter]
      have hkept : Trace (EntryStep id) log (some ⟨name, bodyId, .empty⟩)
          (some ⟨name, bodyId, .empty⟩) :=
        .of_forall fun event hevent => .other _ (hlog event hevent)
      exact hkept.append (.single (.ran name bodyId outcome))
    · rw [Container.singleton?_setState_of_ne hother] at hentry ⊢
      exact hentry.append (.single (.other _ (Event.concerns_of_ne rfl hother)))
  · intro other
    have hstart : ((c.setState id .running).counted bodyId body).runs other =
        c.runs other + if bodyId = other then 1 else 0 :=
      Container.runs_counted (c := c.setState id .running) hbody other
    have hran : runsIn other [.read id bodyId (.ofRun name outcome)] =
        if bodyId = other then 1 else 0 := by
      rw [runsIn, List.countP_singleton]
      simp only [Event.ranBody?, Read.ofRun, Option.isSome_some, if_true, beq_iff_eq,
        Option.some.injEq]
    calc c₁.runs other
        = ((c.setState id .running).counted bodyId body).runs other + runsIn other log :=
          h.runs other
      _ = c.runs other + (if bodyId = other then 1 else 0) + runsIn other log := by rw [hstart]
      _ = c.runs other + runsIn other (log ++ [.read id bodyId (.ofRun name outcome)]) := by
          rw [runsIn_append, hran]
          omega

/-- A body that is added has not been run. -/
theorem addBody (c : Container) (routine : Nat → List Value → Routine) :
    FollowsEntries c [] (c.addBody routine).2 := by
  refine ⟨fun id => .nil _, ?_⟩
  intro body
  simp only [Container.runs, Container.addBody, Array.getElem?_push]
  split
  · next hbody =>
      subst hbody
      rw [Array.getElem?_eq_none (Nat.le_refl _)]
      rfl
  · rfl

theorem link (c : Container) (registry : String) (id : SiteId) :
    FollowsEntries c [.used id registry c] (c.link registry id).2 := by
  obtain ⟨sites, hlink⟩ := Container.link_eq_sites c registry id
  rw [hlink]
  exact of_event (fun other => .other _ rfl) rfl rfl

/-- Everything in a session leads each singleton from step to step. -/
theorem rule : SessionRule FollowsEntries where
  refl _ := of_eq rfl rfl
  trans := trans
  heap _ _ := of_eq rfl rfl
  install := install
  hit := hit
  miss outcome hs hstate hbody hrun := miss outcome hs hstate hbody hrun
  addBody := addBody
  define _ _ _ := of_eq rfl rfl
  clear _ _ := of_eq rfl rfl
  addSite _ _ _ := of_eq rfl rfl
  link := link

end FollowsEntries

/-! ## The history of an entry -/

/-- What can have happened to a provider since it was installed, and how far its singleton has
come by it: the body has failed, as often as it was run; or it has failed, has then succeeded once,
and the value was given to everyone since. -/
inductive History (id : SingletonId) (name : String) (body : BodyId) :
    List Event → SingletonState → Prop
  | failing (failures : List Error) :
      History id name body (failures.map fun e => .read id body (.ofRun name (.error e))) .empty
  | settled (failures : List Error) (value : Value) (answers : Nat) :
      History id name body
        (failures.map (fun e => .read id body (.ofRun name (.error e))) ++
          .read id body (.ofRun name (.ok value)) ::
            List.replicate answers (.read id body (.ofValue value)))
        (.full value)

namespace History

variable {id : SingletonId} {name : String} {body : BodyId} {reads : List Event}
  {state : SingletonState}

/-- The body may have failed once more before. -/
theorem fail (h : History id name body reads state) (e : Error) :
    History id name body (.read id body (.ofRun name (.error e)) :: reads) state := by
  cases h with
  | failing failures => exact .failing (e :: failures)
  | settled failures value answers => exact .settled (e :: failures) value answers

/-- A history is made of reads. -/
theorem eq_read (h : History id name body reads state) {event : Event} (hevent : event ∈ reads) :
    ∃ result, event = .read id body result := by
  cases h with
  | failing failures =>
      obtain ⟨e, -, rfl⟩ := List.mem_map.1 hevent
      exact ⟨_, rfl⟩
  | settled failures value answers =>
      rcases List.mem_append.1 hevent with hfailure | hrest
      · obtain ⟨e, -, rfl⟩ := List.mem_map.1 hfailure
        exact ⟨_, rfl⟩
      · rcases List.mem_cons.1 hrest with rfl | hanswer
        · exact ⟨_, rfl⟩
        · obtain ⟨-, rfl⟩ := List.mem_replicate.1 hanswer
          exact ⟨_, rfl⟩

end History

namespace EntryStep

variable {id : SingletonId} {log : List Event} {name : String} {body : BodyId} {value : Value}
  {after : Option Singleton}

/-- A singleton that has its value keeps it, and all that happens is that the value is given. -/
theorem of_full (h : Trace (EntryStep id) log (some ⟨name, body, .full value⟩) after) :
    after = some ⟨name, body, .full value⟩ ∧
      ∃ answers, log.filter (·.concerns id) =
        List.replicate answers (.read id body (.ofValue value)) := by
  induction log with
  | nil =>
      cases h
      exact ⟨rfl, 0, rfl⟩
  | cons event log ih =>
      cases h with
      | cons first rest =>
          cases first with
          | answered =>
              obtain ⟨hafter, answers, hlog⟩ := ih rest
              refine ⟨hafter, answers + 1, ?_⟩
              rw [List.filter_cons_of_pos (Event.concerns_self rfl), hlog, List.replicate_succ]
          | other _ unconcerned =>
              obtain ⟨hafter, answers, hlog⟩ := ih rest
              refine ⟨hafter, answers, ?_⟩
              rw [List.filter_cons_of_neg (Bool.eq_false_iff.1 unconcerned), hlog]

/-- An empty singleton has the history of a provider before it. -/
theorem of_empty (h : Trace (EntryStep id) log (some ⟨name, body, .empty⟩) after) :
    ∃ state, after = some ⟨name, body, state⟩ ∧
      History id name body (log.filter (·.concerns id)) state := by
  induction log with
  | nil =>
      cases h
      exact ⟨.empty, rfl, .failing []⟩
  | cons event log ih =>
      cases h with
      | cons first rest =>
          cases first with
          | ran _ _ outcome =>
              rw [List.filter_cons_of_pos (Event.concerns_self rfl)]
              cases outcome with
              | error e =>
                  obtain ⟨state, hafter, hhistory⟩ := ih rest
                  exact ⟨state, hafter, hhistory.fail e⟩
              | ok value =>
                  obtain ⟨hafter, answers, hlog⟩ := of_full rest
                  rw [hlog]
                  exact ⟨.full value, hafter, .settled [] value answers⟩
          | other _ unconcerned =>
              rw [List.filter_cons_of_neg (Bool.eq_false_iff.1 unconcerned)]
              exact ih rest

/-- A singleton that is not there is installed before anything else happens to it. -/
theorem of_none (h : Trace (EntryStep id) log none after) :
    (after = none ∧ log.filter (·.concerns id) = []) ∨
      ∃ registry name method body reads state,
        log.filter (·.concerns id) = .installed registry ⟨name, method, id⟩ body :: reads ∧
        History id name body reads state ∧ after = some ⟨name, body, state⟩ := by
  induction log with
  | nil =>
      cases h
      exact .inl ⟨rfl, rfl⟩
  | cons event log ih =>
      cases h with
      | cons first rest =>
          cases first with
          | installed registry name method body =>
              obtain ⟨state, hafter, hhistory⟩ := of_empty rest
              rw [List.filter_cons_of_pos (Event.concerns_self rfl)]
              exact .inr ⟨registry, name, method, body, _, state, rfl, hhistory, hafter⟩
          | other _ unconcerned =>
              rw [List.filter_cons_of_neg (Bool.eq_false_iff.1 unconcerned)]
              exact ih rest

/-- A singleton that is there is not installed again. -/
theorem not_installed {singleton : Singleton} {registry : String} {entry : Entry}
    (h : Trace (EntryStep id) log (some singleton) after)
    (hinstalled : .installed registry entry body ∈ log) : entry.singleton ≠ id := by
  induction log generalizing singleton with
  | nil => cases hinstalled
  | cons event log ih =>
      cases h with
      | cons first rest =>
          cases hinstalled with
          | head =>
              cases first with
              | other _ unconcerned => exact Event.singleton_ne_of_unconcerned unconcerned
          | tail _ hlater =>
              cases first with
              | ran | answered | other => exact ih rest hlater

end EntryStep

/-- The container has the entry's singleton as the entry's history in the log has left it. -/
def Container.Remembers (c : Container) (log : List Event) (registry : String) (entry : Entry)
    (body : BodyId) : Prop :=
  ∃ reads state,
    log.filter (·.concerns entry.singleton) = .installed registry entry body :: reads ∧
    History entry.singleton entry.name body reads state ∧
    c.singletons[entry.singleton]? = some ⟨entry.name, body, state⟩

/-- An entry that is installed has a singleton that was not there before, and the history of
this singleton begins with it. -/
theorem FollowsEntries.remembers {c c' : Container} {log : List Event} {registry : String}
    {entry : Entry} {body : BodyId} (h : FollowsEntries c log c')
    (hinstalled : .installed registry entry body ∈ log) :
    c.singletons[entry.singleton]? = none ∧ c'.Remembers log registry entry body := by
  obtain ⟨name, method, id⟩ := entry
  have htrace := h.entries id
  cases hbefore : c.singletons[id]? with
  | some singleton =>
      rw [hbefore] at htrace
      exact absurd rfl (EntryStep.not_installed htrace hinstalled)
  | none =>
      rw [hbefore] at htrace
      refine ⟨rfl, ?_⟩
      have hmem : .installed registry ⟨name, method, id⟩ body ∈ log.filter (·.concerns id) :=
        List.mem_filter.2 ⟨hinstalled, Event.concerns_self rfl⟩
      obtain ⟨-, hnil⟩ | ⟨_, _, _, _, reads, state, hlog, hhistory, hafter⟩ :=
        EntryStep.of_none htrace
      · rw [hnil] at hmem
        cases hmem
      · rw [hlog] at hmem
        rcases List.mem_cons.1 hmem with heq | hread
        · cases heq
          exact ⟨reads, state, hlog, hhistory, hafter⟩
        · obtain ⟨_, heq⟩ := hhistory.eq_read hread
          cases heq

/-! ## Reading the provider -/

namespace Handle

/-- Read by this handle, the singleton gives its value. No body is run, and nothing is changed but
the binding of a call site. -/
structure Hits (handle : Handle) (c : Container) (id : SingletonId) (body : BodyId)
    (value : Value) : Prop where
  answer : ∀ depth, ∃ sites, handle.read (depth + 1) c = some (.ok value, { c with sites })
  log : ∀ depth, handle.log (depth + 1) c = handle.use c ++ [.read id body (.ofValue value)]

/-- Read by this handle, the singleton runs its body, and has a result whenever this run has one:
the value, which it keeps from then on, or the error in the provider's name. While the body runs,
nothing happens to the singleton, and what the body installs has a history of its own. -/
structure RunsBody (handle : Handle) (c : Container) (id : SingletonId) (name : String)
    (body : BodyId) : Prop where
  answer : ∃ sites, ∀ depth, handle.read (depth + 1) c =
    (Container.runBody (Container.readSingleton depth) body []
      (({ c with sites } : Container).setState id .running)).map fun (outcome, now) =>
        (outcome.mapError (Error.ofProvider name), now.setState id (.after outcome))
  log : ∀ depth answer after, handle.read (depth + 1) c = some (answer, after) →
    ∃ outcome nested, answer = outcome.mapError (Error.ofProvider name) ∧
      handle.log (depth + 1) c =
        handle.use c ++ (nested ++ [.read id body (.ofRun name outcome)]) ∧
      after.singletons[id]? = some ⟨name, body, .after outcome⟩ ∧
      (∀ event ∈ nested, event.concerns id = false) ∧
      ∀ registry entry body', .installed registry entry body' ∈ nested →
        after.Remembers nested registry entry body'

variable {handle : Handle} {c : Container} {id : SingletonId} {name : String} {body : BodyId}

theorem hits_of_full {value : Value} (htarget : handle.target? c = some id)
    (hs : c.singletons[id]? = some ⟨name, body, .full value⟩) : handle.Hits c id body value := by
  obtain ⟨sites, hreads⟩ := reads_target htarget
  have hs' : ({ c with sites } : Container).singletons[id]? =
      some ⟨name, body, .full value⟩ := hs
  constructor
  · intro depth
    refine ⟨sites, ?_⟩
    rw [(hreads (depth + 1)).1, Container.readSingleton_of_full hs' rfl]
  · intro depth
    rw [(hreads (depth + 1)).2]
    simp only [Container.readLog, hs']

theorem runsBody_of_empty (htarget : handle.target? c = some id)
    (hs : c.singletons[id]? = some ⟨name, body, .empty⟩) : handle.RunsBody c id name body := by
  obtain ⟨sites, hreads⟩ := reads_target htarget
  have hs' : ({ c with sites } : Container).singletons[id]? = some ⟨name, body, .empty⟩ := hs
  constructor
  · refine ⟨sites, ?_⟩
    intro depth
    rw [(hreads (depth + 1)).1, Container.readSingleton_of_empty hs' rfl]
  · intro depth answer after hread
    rw [(hreads (depth + 1)).1, Container.readSingleton_of_empty hs' rfl,
      Option.map_eq_some_iff] at hread
    obtain ⟨⟨outcome, now⟩, hrun, hread⟩ := hread
    cases hread
    rw [(hreads (depth + 1)).2]
    -- from the start of the body to its end
    obtain ⟨_, _, hbetween⟩ := FollowsEntries.rule.runBody
      (fun _ _ _ _ => FollowsEntries.rule.readSingleton) hrun
    have hstarted := hbetween.entries id
    rw [Container.counted, Container.singleton?_setState_self hs'] at hstarted
    obtain ⟨hnow, hnested⟩ := EntryStep.of_running hstarted
    refine ⟨outcome, _, rfl, ?_, Container.singleton?_setState_self hnow, hnested, ?_⟩
    · simp only [Container.readLog, hs', hrun]
    · intro registry entry body' hinstalled
      have hne : entry.singleton ≠ id :=
        Event.singleton_ne_of_unconcerned (hnested _ hinstalled)
      obtain ⟨reads, state, hlog, hhistory, hentry⟩ := (hbetween.remembers hinstalled).2
      refine ⟨reads, state, hlog, hhistory, ?_⟩
      rw [Container.singleton?_setState_of_ne hne.symm]
      exact hentry

end Handle

/-! ## The history in a session -/

namespace Operation

variable {depth : Nat} {c c' mid : Container} {ops earlier later : List Operation}

theorem performAll_append :
    performAll depth (earlier ++ later) c =
      (performAll depth earlier c).bind (performAll depth later) := by
  induction earlier generalizing c with
  | nil => rfl
  | cons op earlier ih =>
      simp only [List.cons_append, performAll, Option.bind_assoc]
      congr 1
      funext now
      exact ih

/-- A value that a singleton has is not lost. -/
theorem value?_of_performAll {id : SingletonId} {value : Value}
    (h : performAll depth ops c = some c')
    (hvalue : c.singletons[id]?.bind Singleton.value? = some value) :
    c'.singletons[id]?.bind Singleton.value? = some value := by
  have htrace := (FollowsEntries.rule.performAll h).entries id
  obtain ⟨singleton, hs, hstate⟩ := Option.bind_eq_some_iff.1 hvalue
  obtain ⟨name, body, state⟩ := singleton
  cases state with
  | empty | running => cases hstate
  | full value' =>
      rw [hs] at htrace
      obtain ⟨hafter, -⟩ := EntryStep.of_full htrace
      rw [hafter]
      exact hstate

/-- A singleton that is new was installed. -/
theorem exists_installed {id : SingletonId} {singleton : Singleton}
    (h : performAll depth ops c = some c') (hfresh : c.singletons[id]? = none)
    (hs : c'.singletons[id]? = some singleton) :
    ∃ registry entry body, .installed registry entry body ∈ logAll depth ops c ∧
      entry.singleton = id := by
  have htrace := (FollowsEntries.rule.performAll h).entries id
  rw [hfresh, hs] at htrace
  obtain ⟨hnone, -⟩ | ⟨registry, name, method, body, reads, _, hlog, -, -⟩ :=
    EntryStep.of_none htrace
  · cases hnone
  · have hmem : .installed registry ⟨name, method, id⟩ body ∈
        (logAll depth ops c).filter (·.concerns id) := hlog ▸ List.mem_cons_self
    exact ⟨registry, ⟨name, method, id⟩, body, (List.mem_filter.1 hmem).1, rfl⟩

/-- **A provider keeps its value.** Take any session and an entry that is installed in it. The
entry's singleton was not there before; what happens to it is the installation, then runs of its
body that fail, then at most one run that succeeds, and from then on the value of this run is given
to everyone. It has a value after the session if it had one in between. At any moment, and whatever
the handle that leads to it, a read of the singleton while it is empty runs the body once and
passes on how it ended, an error in the entry's name; once it has its value, a read gives the value
and runs nothing. What a body installs while it runs, be it under the name of its own entry, has a
history of its own, which begins with an empty singleton. No singleton is new unless it was
installed, and the runs of bodies are those of the log. -/
theorem entry_memoized {registry : String} {entry : Entry} {body : BodyId}
    (h : performAll depth ops c = some c')
    (hinstalled : .installed registry entry body ∈ logAll depth ops c) :
    c.singletons[entry.singleton]? = none ∧
    c'.Remembers (logAll depth ops c) registry entry body ∧
    (∀ earlier later mid value, ops = earlier ++ later → performAll depth earlier c = some mid →
      mid.singletons[entry.singleton]?.bind Singleton.value? = some value →
      c'.singletons[entry.singleton]?.bind Singleton.value? = some value) ∧
    (∀ handle now, Handle.target? now handle = some entry.singleton →
      (now.singletons[entry.singleton]? = some ⟨entry.name, body, .empty⟩ →
        handle.RunsBody now entry.singleton entry.name body) ∧
      ∀ value, now.singletons[entry.singleton]? = some ⟨entry.name, body, .full value⟩ →
        handle.Hits now entry.singleton body value) ∧
    (∀ id, c.singletons[id]? = none → (∃ singleton, c'.singletons[id]? = some singleton) →
      ∃ registry entry body, .installed registry entry body ∈ logAll depth ops c ∧
        entry.singleton = id) ∧
    ∀ id, c'.runs id = c.runs id + runsIn id (logAll depth ops c) := by
  have hfollows := FollowsEntries.rule.performAll h
  obtain ⟨hfresh, hremembers⟩ := hfollows.remembers hinstalled
  refine ⟨hfresh, hremembers, ?_, ?_, ?_, hfollows.runs⟩
  · intro earlier later mid value hops hmid hvalue
    rw [hops, performAll_append, hmid] at h
    exact value?_of_performAll h hvalue
  · intro handle now htarget
    constructor
    · intro hempty
      exact handle.runsBody_of_empty htarget hempty
    · intro value hfull
      exact handle.hits_of_full htarget hfull
  · rintro id hnone ⟨singleton, hs⟩
    exact exists_installed h hnone hs

/-- A session in which a body replaces the entry that it computes the value for, with one whose
body fails when it is run first. The old entry is read once more, the new one twice. -/
def replacing : List Operation :=
  [.addBody fun _ _ => .register "main" ["later"] fun _ => .done (.ok (.int 1)),
    .addBody fun runs _ =>
      if runs = 1 then .done (.error (.internal "cold")) else .done (.ok (.int 2)),
    .define "later" ⟨"later", [{ provides := "symbol", name := "retries", body := 1 }]⟩,
    .register "main" [⟨"first", [{ provides := "symbol", name := "replaces", body := 0 }]⟩],
    .read (.named "main" "symbol"),
    .read (.kept 0),
    .read (.named "main" "symbol"),
    .read (.named "main" "symbol")]

theorem entry_memoized_replacing :
    ∃ c', performAll 1 replacing {} = some c' ∧
      c'.singletons[0]? = some ⟨"symbol", 0, .full (.int 1)⟩ ∧
      c'.singletons[1]? = some ⟨"symbol", 1, .full (.int 2)⟩ ∧
      c'.Remembers (logAll 1 replacing {}) "main" ⟨"symbol", "replaces", 0⟩ 0 ∧
      (∀ earlier later mid value, replacing = earlier ++ later →
        performAll 1 earlier {} = some mid →
        mid.singletons[0]?.bind Singleton.value? = some value →
        c'.singletons[0]?.bind Singleton.value? = some value) ∧
      (∀ handle now, Handle.target? now handle = some 0 →
        (now.singletons[0]? = some ⟨"symbol", 0, .empty⟩ →
          handle.RunsBody now 0 "symbol" 0) ∧
        ∀ value, now.singletons[0]? = some ⟨"symbol", 0, .full value⟩ →
          handle.Hits now 0 0 value) ∧
      (∀ id, (∃ singleton, c'.singletons[id]? = some singleton) →
        ∃ registry entry body, .installed registry entry body ∈ logAll 1 replacing {} ∧
          entry.singleton = id) ∧
      ∀ id, c'.runs id = runsIn id (logAll 1 replacing {}) := by
  have hperform : performAll 1 replacing {} = some _ := rfl
  have hlog : logAll 1 replacing {} = .installed "main" ⟨"symbol", "replaces", 0⟩ 0 :: _ := rfl
  have hinstalled : .installed "main" ⟨"symbol", "replaces", 0⟩ 0 ∈ logAll 1 replacing {} :=
    hlog ▸ List.mem_cons_self
  obtain ⟨-, hremembers, hkept, hreads, hnew, hruns⟩ := entry_memoized hperform hinstalled
  refine ⟨_, hperform, rfl, rfl, hremembers, hkept, hreads, fun id => hnew id rfl, ?_⟩
  intro id
  exact (hruns id).trans (Nat.zero_add _)

end Operation

end LateBinding
