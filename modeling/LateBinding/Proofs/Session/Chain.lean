import LateBinding.Proofs.Session.Memoization
import Mathlib.Data.List.Chain
import Mathlib.Data.List.Nodup

set_option autoImplicit false

/-! # Providers that ask for one another

A body may do nothing but ask a registry for the next name and pass on what it gets. In a chain of
such providers (`Container.Chained`) a read of the first one opens all of them before the last body
is run, in the container `Container.started`, and closes them one after the other with what that
run came to. `Container.get_of_chained` says so as an equation, by induction along the chain: the
error of the last provider is in its name already when it comes to those before it, so it is passed
on as it is. `Container.get_chain` is what follows for the answer, for the providers afterwards and
for the runs that are made.
-/

namespace LateBinding

/-- An error that is in the name of a provider is not renamed. -/
@[simp] theorem Error.ofProvider_ofProvider (name outer : String) (e : Error) :
    (e.ofProvider name).ofProvider outer = e.ofProvider name := by
  obtain ⟨inner, text, h⟩ := Error.ofProvider_eq name e
  rw [h, ofProvider]

/-- The error of a run is named once. -/
@[simp] theorem Except.mapError_ofProvider_twice {α : Type} (name outer : String)
    (outcome : Except Error α) :
    (outcome.mapError (Error.ofProvider name)).mapError (Error.ofProvider outer) =
      outcome.mapError (Error.ofProvider name) := by
  cases outcome with
  | ok value => rfl
  | error e => exact congrArg Except.error (Error.ofProvider_ofProvider name outer e)

/-- Whether a singleton has its value does not depend on the name of an error. -/
@[simp] theorem SingletonState.after_mapError (f : Error → Error)
    (outcome : Except Error Value) : after (outcome.mapError f) = after outcome := by
  cases outcome <;> rfl

/-! ## Chains -/

/-- A provider in a chain: its name in the registry, its singleton and its body. -/
structure Link where
  name : String
  singleton : SingletonId
  body : BodyId

namespace Container

variable {c ended : Container} {registry next : String} {link first : Link} {rest links : List Link}
  {depth : Nat} {state : SingletonState} {outcome : Except Error Value}

/-- The registry knows the provider by its name, and it has no value yet. -/
structure Waiting (c : Container) (registry : String) (link : Link) : Prop where
  entry : ∃ method, c.lookup registry link.name = some ⟨link.name, method, link.singleton⟩
  empty : c.singletons[link.singleton]? = some ⟨link.name, link.body, .empty⟩

/-- The body of the provider asks the registry for this name and passes on what it gets. -/
def Asks (c : Container) (registry : String) (link : Link) (next : String) : Prop :=
  ∃ runs, c.bodies[link.body]? = some ⟨fun _ _ => .get registry next .done, runs⟩

/-- These are providers of the registry with different names and without values, each of which but
the last asks for the one behind it. -/
structure Chained (c : Container) (registry : String) (links : List Link) : Prop where
  distinct : (links.map Link.name).Nodup
  waiting : ∀ link ∈ links, c.Waiting registry link
  asks : links.IsChain fun link next => c.Asks registry link next.name

/-- The container in which the body of a provider is asking: the value is being computed, and the
run is counted. -/
def opened (c : Container) (link : Link) : Container :=
  { c.setState link.singleton .running with
    bodies := c.bodies.modify link.body fun body => { body with runs := body.runs + 1 } }

/-- The container in which the body of the last provider of a chain is run: those before it are
asking, and its own value is being computed. -/
def started (c : Container) : Link → List Link → Container
  | last, [] => c.setState last.singleton .running
  | link, next :: rest => (c.opened link).started next rest

/-- The run of the last body of a chain. -/
def lastRun (depth : Nat) (c : Container) (first : Link) (rest : List Link) :
    Option (Except Error Value × Container) :=
  runBody (readSingleton depth) (rest.getLastD first).body [] (c.started first rest)

/-- What happens in the run of the last body of a chain. -/
def lastLog (depth : Nat) (c : Container) (first : Link) (rest : List Link) : List Event :=
  runLog (readSingleton depth) (readLog depth) (rest.getLastD first).body []
    (c.started first rest)

/-- The container with all providers of a chain in this state, the last one first. -/
def closed (c : Container) (links : List Link) (state : SingletonState) : Container :=
  links.foldr (fun link c => c.setState link.singleton state) c

/-! ## Reading along a chain -/

theorem Waiting.resolve (h : c.Waiting registry link) :
    c.resolve registry link.name registrySlot = .ok link.singleton := by
  obtain ⟨method, hentry⟩ := h.entry
  rw [Container.resolve, hentry]

/-- To read the provider is to read its singleton. -/
theorem Waiting.get_eq_readSingleton (h : c.Waiting registry link) (depth : Nat) :
    Container.get depth registry link.name c = readSingleton depth link.singleton c ∧
      (Handle.named registry link.name).log depth c = c.readLog depth link.singleton := by
  simp only [Container.get, Handle.log, h.resolve, and_self]

/-- A read of a provider that has no value runs its body. -/
theorem Waiting.get (h : c.Waiting registry link) (depth : Nat) :
    get (depth + 1) registry link.name c =
      (runBody (readSingleton depth) link.body [] (c.setState link.singleton .running)).map
        fun (outcome, now) => (outcome.mapError (.ofProvider link.name),
          now.setState link.singleton (.after outcome)) := by
  rw [(h.get_eq_readSingleton (depth + 1)).1]
  exact readSingleton_of_empty h.empty rfl depth

theorem Waiting.log (h : c.Waiting registry link)
    (hrun : runBody (readSingleton depth) link.body [] (c.setState link.singleton .running) =
      some (outcome, ended)) :
    (Handle.named registry link.name).log (depth + 1) c =
      runLog (readSingleton depth) (readLog depth) link.body []
          (c.setState link.singleton .running) ++
        [.read link.singleton link.body (.ofRun link.name outcome)] := by
  rw [(h.get_eq_readSingleton (depth + 1)).2]
  simp only [readLog, h.empty, hrun]

/-- The run of a body is counted in the container in which it asks. -/
theorem opened_eq_counted {body : Body} (h : c.bodies[link.body]? = some body) :
    c.opened link = (c.setState link.singleton .running).counted link.body body := by
  have hbodies : c.bodies.modify link.body (fun body => { body with runs := body.runs + 1 }) =
      c.bodies.setIfInBounds link.body { body with runs := body.runs + 1 } := by
    obtain ⟨hlt, -⟩ := Array.getElem?_eq_some_iff.1 h
    refine Array.ext_getElem? ?_
    intro i
    rw [Array.getElem?_modify, Array.getElem?_setIfInBounds]
    by_cases hi : link.body = i
    · subst hi
      rw [if_pos rfl, if_pos rfl, if_pos hlt, h, Option.map_some]
    · rw [if_neg hi, if_neg hi]
  rw [opened, hbodies]
  rfl

/-- A body that asks for a name runs like a read of that name. -/
theorem Asks.run (h : c.Asks registry link next) :
    ∃ body, c.bodies[link.body]? = some body ∧ ∀ depth,
      runBody (readSingleton depth) link.body [] c =
        get depth registry next (c.counted link.body body) ∧
      runLog (readSingleton depth) (readLog depth) link.body [] c =
        (Handle.named registry next).log depth (c.counted link.body body) := by
  obtain ⟨runs, hbody⟩ := h
  refine ⟨_, hbody, ?_⟩
  intro depth
  rw [runBody, runLog, hbody]
  simp only [Routine.run, Routine.log, Container.get, Handle.log, counted]
  cases Container.resolve _ registry next registrySlot with
  | error e => exact ⟨rfl, rfl⟩
  | ok id =>
      dsimp only
      cases readSingleton depth id _ with
      | none | some _ => exact ⟨rfl, List.append_nil _⟩

/-- In a chain, the body of a provider runs like a read of the next one. -/
theorem Asks.run_opened (h : c.Asks registry link next) (depth : Nat) :
    runBody (readSingleton depth) link.body [] (c.setState link.singleton .running) =
        get depth registry next (c.opened link) ∧
      runLog (readSingleton depth) (readLog depth) link.body []
          (c.setState link.singleton .running) =
        (Handle.named registry next).log depth (c.opened link) := by
  have h' : (c.setState link.singleton .running).Asks registry link next := h
  obtain ⟨body, hbody, hrun⟩ := h'.run
  rw [opened_eq_counted (c := c) hbody]
  exact hrun depth

/-- Setting how far other singletons have come leaves a provider waiting. -/
theorem Waiting.opened {other : Link} (h : c.Waiting registry link)
    (hother : c.Waiting registry other) (hname : other.name ≠ link.name) :
    (c.opened other).Waiting registry link := by
  refine ⟨h.entry, ?_⟩
  have hne : other.singleton ≠ link.singleton := by
    intro heq
    have hsame := h.empty
    rw [← heq, hother.empty] at hsame
    exact hname (congrArg Singleton.name (Option.some.inj hsame))
  exact (singleton?_setState_of_ne hne).trans h.empty

theorem Asks.opened (h : c.Asks registry link next) (other : Link) :
    (c.opened other).Asks registry link next := by
  obtain ⟨runs, hbody⟩ := h
  rw [Asks, Container.opened]
  dsimp only
  rw [Array.getElem?_modify, hbody]
  split
  · exact ⟨runs + 1, rfl⟩
  · exact ⟨runs, rfl⟩

/-- While the first body of a chain is asking, the rest is a chain still. -/
theorem Chained.tail (h : c.Chained registry (first :: rest)) :
    (c.opened first).Chained registry rest := by
  obtain ⟨hfirst, hrest⟩ := List.nodup_cons.1 h.distinct
  refine ⟨hrest, ?_, ?_⟩
  · intro link hlink
    have hname : first.name ≠ link.name := by
      intro heq
      exact hfirst (heq ▸ List.mem_map_of_mem hlink)
    exact (h.waiting link (.tail _ hlink)).opened (h.waiting first (.head _)) hname
  · exact h.asks.tail.imp fun link next hasks => hasks.opened first

theorem Chained.head_asks {second : Link} (h : c.Chained registry (first :: second :: rest)) :
    c.Asks registry first second.name := (List.isChain_cons_cons.1 h.asks).1

theorem lastRun_cons (depth : Nat) (c : Container) (first second : Link) (rest : List Link) :
    c.lastRun depth first (second :: rest) = (c.opened first).lastRun depth second rest := by
  rw [lastRun, lastRun, List.getLastD_cons, started]

theorem lastLog_cons (depth : Nat) (c : Container) (first second : Link) (rest : List Link) :
    c.lastLog depth first (second :: rest) = (c.opened first).lastLog depth second rest := by
  rw [lastLog, lastLog, List.getLastD_cons, started]

/-- A read of the first provider of a chain runs the last body, names its error and passes the
outcome on to all providers before. -/
theorem get_of_chained (h : c.Chained registry (first :: rest)) (depth : Nat) :
    get (depth + (rest.length + 1)) registry first.name c =
      (c.lastRun depth first rest).map fun (outcome, ended) =>
        (outcome.mapError (.ofProvider (rest.getLastD first).name),
          ended.closed (first :: rest) (.after outcome)) := by
  induction rest generalizing c first with
  | nil => exact (h.waiting first (.head _)).get depth
  | cons second rest ih =>
      have hfirst := (h.waiting first (.head _)).get (depth + (rest.length + 1))
      rw [(h.head_asks.run_opened _).1, ih h.tail, Option.map_map] at hfirst
      rw [List.getLastD_cons, lastRun_cons, List.length_cons, ← Nat.add_assoc depth, hfirst]
      congr 1
      funext ⟨outcome, ended⟩
      simp only [Function.comp, Except.mapError_ofProvider_twice, SingletonState.after_mapError]
      rfl

/-! ## The providers of a chain -/

/-- A singleton that is in a state stays in it when others are put there. -/
theorem singleton?_setState_of_state {id other : SingletonId} {name : String} {body : BodyId}
    (h : c.singletons[id]? = some ⟨name, body, state⟩) :
    (c.setState other state).singletons[id]? = some ⟨name, body, state⟩ := by
  by_cases hid : other = id
  · subst hid
    exact singleton?_setState_self h
  · exact (singleton?_setState_of_ne hid).trans h

theorem singleton?_started_of_running {id : SingletonId} {name : String} {body : BodyId}
    (h : c.singletons[id]? = some ⟨name, body, .running⟩) :
    (c.started first rest).singletons[id]? = some ⟨name, body, .running⟩ := by
  induction rest generalizing c first with
  | nil => exact singleton?_setState_of_state h
  | cons second rest ih =>
      have hopened : (c.opened first).singletons[id]? = some ⟨name, body, .running⟩ :=
        singleton?_setState_of_state h
      exact ih hopened

/-- When the last body of a chain is started, the values of all its providers are being
computed. -/
theorem Chained.running (h : c.Chained registry (first :: rest)) (hlink : link ∈ first :: rest) :
    (c.started first rest).singletons[link.singleton]? =
      some ⟨link.name, link.body, .running⟩ := by
  induction rest generalizing c first with
  | nil =>
      obtain rfl := List.mem_singleton.1 hlink
      exact singleton?_setState_self (h.waiting link (.head _)).empty
  | cons second rest ih =>
      rcases List.mem_cons.1 hlink with rfl | hrest
      · have hopened : (c.opened link).singletons[link.singleton]? =
            some ⟨link.name, link.body, .running⟩ :=
          singleton?_setState_self (h.waiting link (.head _)).empty
        exact singleton?_started_of_running (c := c.opened link) hopened
      · exact ih h.tail hrest

theorem lookup_started (c : Container) (registry name : String) (first : Link)
    (rest : List Link) : (c.started first rest).lookup registry name = c.lookup registry name := by
  induction rest generalizing c first with
  | nil => rfl
  | cons second rest ih => exact ih (c.opened first) second

theorem Asks.started (h : c.Asks registry link next) (first : Link) (rest : List Link) :
    (c.started first rest).Asks registry link next := by
  induction rest generalizing c first with
  | nil => exact h
  | cons second rest ih => exact ih (h.opened first) second

theorem lookup_closed (ended : Container) (links : List Link) (state : SingletonState)
    (registry name : String) :
    (ended.closed links state).lookup registry name = ended.lookup registry name := by
  induction links with
  | nil => rfl
  | cons link links ih => exact ih

/-- Whichever providers are closed, the name and the body of a singleton stay. -/
theorem exists_singleton?_closed {id : SingletonId} {name : String} {body : BodyId}
    {before : SingletonState} (h : ended.singletons[id]? = some ⟨name, body, before⟩)
    (links : List Link) (state : SingletonState) :
    ∃ now, (ended.closed links state).singletons[id]? = some ⟨name, body, now⟩ := by
  induction links with
  | nil => exact ⟨before, h⟩
  | cons link links ih =>
      obtain ⟨now, hnow⟩ := ih
      by_cases hid : link.singleton = id
      · subst hid
        exact ⟨state, singleton?_setState_self hnow⟩
      · exact ⟨now, (singleton?_setState_of_ne hid).trans hnow⟩

/-- Closing a chain puts its providers in the state that is meant for them. -/
theorem singleton?_closed (h : ∀ link ∈ links, ∃ before,
      ended.singletons[link.singleton]? = some ⟨link.name, link.body, before⟩)
    (hlink : link ∈ links) :
    (ended.closed links state).singletons[link.singleton]? =
      some ⟨link.name, link.body, state⟩ := by
  induction links with
  | nil => cases hlink
  | cons first links ih =>
      obtain ⟨⟨before, hbefore⟩, hlinks⟩ := List.forall_mem_cons.1 h
      rcases List.mem_cons.1 hlink with rfl | hrest
      · obtain ⟨now, hnow⟩ := exists_singleton?_closed hbefore links state
        exact singleton?_setState_self hnow
      · exact singleton?_setState_of_state (ih hlinks hrest)

/-- The singletons of a chain are different ones. -/
theorem Chained.singletons_nodup (h : c.Chained registry links) :
    (links.map Link.singleton).Nodup := by
  refine List.pairwise_map.2 ((List.pairwise_map.1 h.distinct).imp_of_mem ?_)
  intro link other hlink hother hname hsingleton
  have hempty := (h.waiting link hlink).empty
  rw [hsingleton, (h.waiting other hother).empty] at hempty
  exact hname (congrArg Singleton.name (Option.some.inj hempty)).symm

/-- A provider of a chain is the last one, or asks for one that comes behind it. -/
theorem Chained.last_or_asks (h : c.Chained registry (first :: rest))
    (hlink : link ∈ first :: rest) :
    link = rest.getLastD first ∨ ∃ next ∈ rest, c.Asks registry link next.name := by
  have hasks := h.asks
  clear h
  induction rest generalizing first with
  | nil => exact .inl (List.mem_singleton.1 hlink)
  | cons second rest ih =>
      obtain ⟨hfirst, hrest⟩ := List.isChain_cons_cons.1 hasks
      rw [List.getLastD_cons]
      rcases List.mem_cons.1 hlink with rfl | hlink
      · exact .inr ⟨second, .head _, hfirst⟩
      · rcases ih hlink hrest with hlast | ⟨next, hnext, hlinkAsks⟩
        · exact .inl hlast
        · exact .inr ⟨next, .tail _ hnext, hlinkAsks⟩

/-- A body that asks for a provider whose value is being computed never ends. -/
theorem Asks.runBody_of_running {entry : Entry} {name : String} {body : BodyId}
    (h : c.Asks registry link next) (hentry : c.lookup registry next = some entry)
    (hs : c.singletons[entry.singleton]? = some ⟨name, body, .running⟩) (depth : Nat) :
    Container.runBody (readSingleton depth) link.body [] c = none := by
  obtain ⟨asking, -, hrun⟩ := h.run
  have hentry' : (c.counted link.body asking).lookup registry next = some entry := hentry
  have hs' : (c.counted link.body asking).singletons[entry.singleton]? =
      some ⟨name, body, .running⟩ := hs
  rw [(hrun depth).1]
  simp only [Container.get, Container.resolve, hentry']
  cases depth with
  | zero => rfl
  | succ depth => simp only [readSingleton, hs']

/-- Providers that ask for different names have different bodies. -/
theorem Asks.unique {other : Link} {next' : String} (h : c.Asks registry link next)
    (h' : c.Asks registry other next') (hbody : link.body = other.body) : next = next' := by
  obtain ⟨runs, h⟩ := h
  obtain ⟨runs', h'⟩ := h'
  rw [hbody, h'] at h
  have hroutine := congrArg Body.routine (Option.some.inj h)
  have hasking : Routine.get registry next' .done = Routine.get registry next .done :=
    congrFun (congrFun hroutine 0) []
  cases hasking
  rfl

/-- The bodies of a chain are different ones, if the last one ends: it cannot wait for a provider
that waits for it. -/
theorem Chained.bodies_nodup (h : c.Chained registry (first :: rest))
    (hrun : c.lastRun depth first rest = some (outcome, ended)) :
    ((first :: rest).map Link.body).Nodup := by
  induction rest generalizing c first with
  | nil => exact List.pairwise_singleton _ _
  | cons second rest ih =>
      have hrest := ih h.tail (lastRun_cons depth c first second rest ▸ hrun)
      refine List.nodup_cons.2 ⟨?_, hrest⟩
      intro hmem
      obtain ⟨link, hlink, hbody⟩ := List.mem_map.1 hmem
      have hasks : c.Asks registry link second.name := by
        obtain ⟨runs, hfirst⟩ := h.head_asks
        exact ⟨runs, hbody ▸ hfirst⟩
      rcases h.tail.last_or_asks hlink with hlast | ⟨next, hnext, hnextAsks⟩
      · -- the last body would wait for the second provider
        obtain ⟨method, hentry⟩ := (h.waiting second (.tail _ (.head _))).entry
        have hwaits := (hasks.started first (second :: rest)).runBody_of_running
          ((lookup_started c registry second.name first (second :: rest)).trans hentry)
          (h.running (.tail _ (.head _))) depth
        rw [lastRun, List.getLastD_cons, ← hlast, hwaits] at hrun
        cases hrun
      · have hname : second.name = next.name := (hasks.opened first).unique hnextAsks rfl
        obtain ⟨hsecond, -⟩ := List.nodup_cons.1 h.tail.distinct
        exact hsecond (hname ▸ List.mem_map_of_mem hnext)

end Container

/-! ## The reads of a chain -/

/-- The event is a read of the provider that has run its body and given this answer. -/
def Link.Answers (answer : Except Error Value) (link : Link) (event : Event) : Prop :=
  ∃ run, event = .read link.singleton link.body ⟨some run, answer⟩

namespace Container

variable {c ended : Container} {registry : String} {link first : Link} {rest links : List Link}
  {depth : Nat} {outcome answer : Except Error Value} {reads : List Event}

/-- What happens when the first provider of a chain is read: the last body is run, and then the
read of each provider ends, that of the last one first. All give the same answer. -/
theorem log_of_chained (h : c.Chained registry (first :: rest))
    (hrun : c.lastRun depth first rest = some (outcome, ended)) :
    ∃ reads, (Handle.named registry first.name).log (depth + (rest.length + 1)) c =
        c.lastLog depth first rest ++ reads.reverse ∧
      List.Forall₂ (Link.Answers (outcome.mapError (.ofProvider (rest.getLastD first).name)))
        (first :: rest) reads := by
  induction rest generalizing c first with
  | nil =>
      refine ⟨[_], ?_, .cons ⟨outcome, rfl⟩ .nil⟩
      rw [List.reverse_singleton]
      exact (h.waiting first (.head _)).log hrun
  | cons second rest ih =>
      rw [lastRun_cons] at hrun
      obtain ⟨reads, hlog, hreads⟩ := ih h.tail hrun
      have hget := get_of_chained h.tail depth
      rw [hrun, Option.map_some, ← (h.head_asks.run_opened _).1] at hget
      have hfirst := (h.waiting first (.head _)).log hget
      rw [(h.head_asks.run_opened _).2, hlog, List.append_assoc, ← List.reverse_cons] at hfirst
      rw [List.getLastD_cons, lastLog_cons]
      refine ⟨_, hfirst, .cons ?_ hreads⟩
      refine ⟨outcome.mapError (.ofProvider (rest.getLastD second).name), ?_⟩
      rw [Read.ofRun, Except.mapError_ofProvider_twice]

/-- The reads concern no other provider. -/
theorem filter_reads_of_ne (hreads : List.Forall₂ (Link.Answers answer) links reads)
    {id : SingletonId} (hne : ∀ link ∈ links, link.singleton ≠ id) :
    reads.filter (·.concerns id) = [] := by
  induction hreads with
  | nil => rfl
  | cons hfirst _ ih =>
      obtain ⟨hlink, hrest⟩ := List.forall_mem_cons.1 hne
      obtain ⟨run, rfl⟩ := hfirst
      rw [List.filter_cons_of_neg, ih hrest]
      exact Bool.eq_false_iff.1 (Event.concerns_of_ne rfl hlink)

/-- Each provider is concerned by one of the reads. -/
theorem filter_reads (hreads : List.Forall₂ (Link.Answers answer) links reads)
    (hdistinct : (links.map Link.singleton).Nodup) (hlink : link ∈ links) :
    ∃ event, link.Answers answer event ∧
      reads.filter (·.concerns link.singleton) = [event] := by
  induction hreads with
  | nil => cases hlink
  | @cons first event links reads hfirst hrest ih =>
      obtain ⟨hnew, hdistinct⟩ := List.nodup_cons.1 hdistinct
      have hother : ∀ other ∈ links, other.singleton ≠ first.singleton := by
        intro other hother heq
        exact hnew (heq ▸ List.mem_map_of_mem hother)
      rcases List.mem_cons.1 hlink with rfl | hlink
      · refine ⟨event, hfirst, ?_⟩
        obtain ⟨run, rfl⟩ := hfirst
        rw [List.filter_cons_of_pos (Event.concerns_self rfl), filter_reads_of_ne hrest hother]
      · obtain ⟨found, hanswers, hfilter⟩ := ih hdistinct hlink
        refine ⟨found, hanswers, ?_⟩
        obtain ⟨run, rfl⟩ := hfirst
        have hne : first.singleton ≠ link.singleton := (hother link hlink).symm
        rw [List.filter_cons_of_neg, hfilter]
        exact Bool.eq_false_iff.1 (Event.concerns_of_ne rfl hne)

/-- The reads ran the bodies of their providers. -/
theorem runsIn_reads (hreads : List.Forall₂ (Link.Answers answer) links reads) (body : BodyId) :
    runsIn body reads = (links.map Link.body).count body := by
  induction hreads with
  | nil => rfl
  | @cons first event links reads hfirst _ ih =>
      obtain ⟨run, rfl⟩ := hfirst
      rw [runsIn] at ih ⊢
      rw [List.countP_cons, ih, List.map_cons, List.count_cons]
      simp [Event.ranBody?]

/-! ## What a body leaves as it is -/

/-- The bodies are those that were there, however often they have been run since. -/
def KeepsRoutines (c c' : Container) : Prop :=
  ∀ (id : BodyId) (body : Body), c.bodies[id]? = some body →
    ∃ runs, c'.bodies[id]? = some { body with runs }

namespace KeepsRoutines

variable {c' c'' : Container}

theorem of_eq (h : c'.bodies = c.bodies) : c.KeepsRoutines c' := by
  intro id body hbody
  exact ⟨body.runs, by rw [h, hbody]⟩

theorem trans (h : c.KeepsRoutines c') (h' : c'.KeepsRoutines c'') : c.KeepsRoutines c'' := by
  intro id body hbody
  obtain ⟨_, hbetween⟩ := h id body hbody
  obtain ⟨runs, hafter⟩ := h' id _ hbetween
  exact ⟨runs, hafter⟩

/-- A run that is counted keeps the routine that is run. -/
theorem counted {id : BodyId} {body : Body} (h : c.bodies[id]? = some body) :
    c.KeepsRoutines (c.counted id body) := by
  intro other found hfound
  obtain ⟨hlt, -⟩ := Array.getElem?_eq_some_iff.1 h
  rw [Container.counted]
  dsimp only
  rw [Array.getElem?_setIfInBounds]
  by_cases hother : id = other
  · subst hother
    rw [h] at hfound
    cases hfound
    exact ⟨body.runs + 1, by rw [if_pos rfl, if_pos hlt]⟩
  · exact ⟨found.runs, by rw [if_neg hother, hfound]⟩

/-- No read changes what the bodies compute. -/
theorem rule : ReadRule fun c _ c' => c.KeepsRoutines c' where
  refl _ := of_eq rfl
  trans := trans
  heap _ _ := of_eq rfl
  install _ _ _ := of_eq rfl
  hit _ _ := of_eq rfl
  miss := by
    intro c c₁ id singleton body log outcome _ _ hbody h
    have hstarted : c.KeepsRoutines (c.setState id .running) := of_eq rfl
    exact (hstarted.trans (counted hbody)).trans (h.trans (of_eq rfl))

end KeepsRoutines

/-! ## Reading a chain -/

variable {after : Container}

/-- While the last body of a chain is run, nothing happens to the providers of the chain. -/
theorem Chained.during (h : c.Chained registry (first :: rest))
    (hrun : c.lastRun depth first rest = some (outcome, ended)) (hlink : link ∈ first :: rest) :
    ended.singletons[link.singleton]? = some ⟨link.name, link.body, .running⟩ ∧
      ∀ event ∈ c.lastLog depth first rest, event.concerns link.singleton = false := by
  obtain ⟨_, _, hbetween⟩ := FollowsEntries.rule.runBody
    (fun _ _ _ _ => FollowsEntries.rule.readSingleton) hrun
  have htrace : Trace (EntryStep link.singleton) (c.lastLog depth first rest)
      (some ⟨link.name, link.body, .running⟩) ended.singletons[link.singleton]? := by
    rw [← h.running hlink]
    exact hbetween.entries link.singleton
  exact EntryStep.of_running htrace

/-- The chain is one again when its names lead to the same providers and these have no values. -/
theorem Chained.again (h : c.Chained registry links) (hkeeps : c.KeepsRoutines after)
    (hlookup : ∀ link ∈ links, after.lookup registry link.name = c.lookup registry link.name)
    (hempty : ∀ link ∈ links,
      after.singletons[link.singleton]? = some ⟨link.name, link.body, .empty⟩) :
    after.Chained registry links := by
  refine ⟨h.distinct, ?_, ?_⟩
  · intro link hlink
    obtain ⟨method, hentry⟩ := (h.waiting link hlink).entry
    exact ⟨⟨method, (hlookup link hlink).trans hentry⟩, hempty link hlink⟩
  · refine h.asks.imp ?_
    rintro link next ⟨runs, hbody⟩
    obtain ⟨runs', hbody'⟩ := hkeeps _ _ hbody
    exact ⟨runs', hbody'⟩

/-- A read of the first provider of a chain has given this answer and left the container `after`.
-/
structure ReadsChain (c : Container) (registry : String) (first : Link) (rest : List Link)
    (depth : Nat) (answer : Except Error Value) (after : Container) : Prop where
  get : get (depth + (rest.length + 1)) registry first.name c = some (answer, after)
  /-- All providers have the value, or none has one. -/
  states : ∀ link ∈ first :: rest,
    after.singletons[link.singleton]? = some ⟨link.name, link.body, .after answer⟩
  /-- Of each provider there was one read, which ran its body and gave the same answer. -/
  once : ∀ link ∈ first :: rest, ∃ run,
    ((Handle.named registry first.name).log (depth + (rest.length + 1)) c).filter
        (·.concerns link.singleton) =
      [.read link.singleton link.body ⟨some run, answer⟩]
  /-- Its body was run once for it, apart from what the last body asks of other providers. -/
  runs : ∀ link ∈ first :: rest, after.runs link.body =
    c.runs link.body + 1 + runsIn link.body (c.lastLog depth first rest)
  routines : c.KeepsRoutines after

/-- When the last body of a chain ends, a read of the first provider does. -/
theorem readsChain_of_lastRun (h : c.Chained registry (first :: rest))
    (hrun : c.lastRun depth first rest = some (outcome, ended)) :
    c.ReadsChain registry first rest depth
      (outcome.mapError (.ofProvider (rest.getLastD first).name))
      (ended.closed (first :: rest) (.after outcome)) := by
  have hget := get_of_chained h depth
  rw [hrun, Option.map_some] at hget
  obtain ⟨reads, hlog, hreads⟩ := log_of_chained h hrun
  obtain ⟨hread, hreadLog⟩ :=
    (h.waiting first (.head _)).get_eq_readSingleton (depth + (rest.length + 1))
  rw [hget] at hread
  refine ⟨hget, ?_, ?_, ?_, KeepsRoutines.rule.readSingleton hread.symm⟩
  · intro link hlink
    rw [SingletonState.after_mapError]
    refine singleton?_closed ?_ hlink
    intro other hother
    exact ⟨.running, (h.during hrun hother).1⟩
  · intro link hlink
    obtain ⟨_, ⟨run, rfl⟩, hfilter⟩ := filter_reads hreads h.singletons_nodup hlink
    refine ⟨run, ?_⟩
    have hnested : (c.lastLog depth first rest).filter (·.concerns link.singleton) = [] := by
      refine List.filter_eq_nil_iff.2 ?_
      intro event hevent
      exact Bool.eq_false_iff.1 ((h.during hrun hlink).2 event hevent)
    rw [hlog, List.filter_append, hnested, List.nil_append, List.filter_reverse, hfilter,
      List.reverse_singleton]
  · intro link hlink
    have hcount : runsIn link.body reads.reverse = 1 := by
      rw [runsIn, List.countP_reverse, ← runsIn, runsIn_reads hreads]
      exact List.count_eq_one_of_mem (h.bodies_nodup hrun) (List.mem_map_of_mem hlink)
    have hfollows := (FollowsEntries.rule.readSingleton hread.symm).runs link.body
    rw [← hreadLog, hlog, runsIn_append, hcount] at hfollows
    omega

namespace ReadsChain

variable {value : Value} {e : Error}

/-- A provider that has its value gives it without a run. -/
theorem get_of_value (hread : c.ReadsChain registry first rest depth (.ok value) after)
    (h : c.Chained registry (first :: rest)) (hlink : link ∈ first :: rest)
    (hlookup : after.lookup registry link.name = c.lookup registry link.name) (depth' : Nat) :
    Container.get (depth' + 1) registry link.name after = some (.ok value, after) := by
  obtain ⟨method, hentry⟩ := (h.waiting link hlink).entry
  rw [hentry] at hlookup
  simp only [Container.get, Container.resolve, hlookup]
  exact readSingleton_of_full (hread.states link hlink) rfl depth'

/-- A provider that has its value keeps it in a session, and is asked without a run. -/
theorem keeps_value (hread : c.ReadsChain registry first rest depth (.ok value) after)
    (hlink : link ∈ first :: rest) {depth' : Nat} {ops : List Operation} {now : Container}
    (hperform : Operation.performAll depth' ops after = some now) :
    now.singletons[link.singleton]? = some ⟨link.name, link.body, .full value⟩ ∧
      ∃ answers, (Operation.logAll depth' ops after).filter (·.concerns link.singleton) =
        List.replicate answers (.read link.singleton link.body (.ofValue value)) := by
  have htrace := (FollowsEntries.rule.performAll hperform).entries link.singleton
  rw [hread.states link hlink] at htrace
  exact EntryStep.of_full htrace

/-- Providers that have failed are a chain again. -/
theorem chained (hread : c.ReadsChain registry first rest depth (.error e) after)
    (h : c.Chained registry (first :: rest))
    (hlookup : ∀ link ∈ first :: rest,
      after.lookup registry link.name = c.lookup registry link.name) :
    after.Chained registry (first :: rest) :=
  h.again hread.routines hlookup hread.states

end ReadsChain

/-- A last body that asks for a name which the registry does not know fails at once. -/
theorem Asks.lastRun_of_missing {missing : String}
    (hasks : c.Asks registry (rest.getLastD first) missing)
    (hmissing : c.lookup registry missing = none) (depth : Nat) :
    ∃ body, c.lastRun depth first rest = some (.error (.linkage missing registrySlot),
        (c.started first rest).counted (rest.getLastD first).body body) ∧
      c.lastLog depth first rest = [] := by
  obtain ⟨body, -, hrun⟩ := (hasks.started first rest).run
  have hlookup : ((c.started first rest).counted (rest.getLastD first).body body).lookup registry
      missing = none := (lookup_started c registry missing first rest).trans hmissing
  refine ⟨body, ?_, ?_⟩
  · rw [lastRun, (hrun depth).1]
    simp only [Container.get, Container.resolve, hlookup]
  · rw [lastLog, (hrun depth).2]
    simp only [Handle.log, Container.resolve, hlookup]

/-- **The innermost provider decides, and its error is named once.** Take a chain of any length, of
providers without values that each ask the registry for the next one, and read the first one.
Where the body of the last one ends with a value, the answer is this value; it is the value of all
providers from then on, whatever happens in a session, and no body is run for them again, however
they are read. Where it ends with an error, the answer is this error if it is in the name of a
provider already, and else its text in the name of the last provider; no provider has a value, and
if the registry still leads to them, a later read runs the whole chain again. Where the last body
asks for a name that the registry does not know, the linkage error is in the name of this last
provider. In each case every body was run once, and all providers have given the same answer. -/
theorem get_chain (h : c.Chained registry (first :: rest)) (depth : Nat) :
    (∀ value ended, c.lastRun depth first rest = some (.ok value, ended) →
      ∃ after, c.ReadsChain registry first rest depth (.ok value) after ∧
        (∀ link ∈ first :: rest,
          ended.lookup registry link.name = c.lookup registry link.name →
          ∀ depth', get (depth' + 1) registry link.name after = some (.ok value, after)) ∧
        ∀ depth' ops now, Operation.performAll depth' ops after = some now →
          ∀ link ∈ first :: rest,
            now.singletons[link.singleton]? = some ⟨link.name, link.body, .full value⟩ ∧
            ∃ answers, (Operation.logAll depth' ops after).filter (·.concerns link.singleton) =
              List.replicate answers (.read link.singleton link.body (.ofValue value))) ∧
    (∀ e ended, c.lastRun depth first rest = some (.error e, ended) →
      ∃ named after, c.ReadsChain registry first rest depth (.error named) after ∧
        ((∃ inner text, e = .provider inner text) → named = e) ∧
        ((∀ inner text, e ≠ .provider inner text) →
          named = .provider (rest.getLastD first).name e.message) ∧
        ((∀ link ∈ first :: rest, ended.lookup registry link.name = c.lookup registry link.name) →
          after.Chained registry (first :: rest) ∧
          ∀ depth' outcome ended', after.lastRun depth' first rest = some (outcome, ended') →
            ∃ answer after', after.ReadsChain registry first rest depth' answer after')) ∧
    ∀ missing, c.Asks registry (rest.getLastD first) missing →
      c.lookup registry missing = none →
      ∃ after, c.ReadsChain registry first rest depth
          (.error (.provider (rest.getLastD first).name
            (Error.linkage missing registrySlot).message)) after ∧
        (∀ link ∈ first :: rest, after.runs link.body = c.runs link.body + 1) ∧
        after.Chained registry (first :: rest) := by
  refine ⟨?_, ?_, ?_⟩
  · intro value ended hrun
    have hread := readsChain_of_lastRun h hrun
    refine ⟨_, hread, ?_, ?_⟩
    · intro link hlink hlookup
      exact hread.get_of_value h hlink ((lookup_closed ..).trans hlookup)
    · intro depth' ops now hperform link hlink
      exact hread.keeps_value hlink hperform
  · intro e ended hrun
    have hread := readsChain_of_lastRun h hrun
    refine ⟨_, _, hread, ?_, ?_, ?_⟩
    · rintro ⟨inner, text, rfl⟩
      rfl
    · intro hother
      cases e with
      | provider inner text => exact absurd rfl (hother inner text)
      | _ => rfl
    · intro hlookup
      have hagain := hread.chained h fun link hlink =>
        (lookup_closed ..).trans (hlookup link hlink)
      refine ⟨hagain, ?_⟩
      intro depth' outcome ended' hrun'
      exact ⟨_, _, readsChain_of_lastRun hagain hrun'⟩
  · intro missing hasks hmissing
    obtain ⟨body, hrun, hlog⟩ := hasks.lastRun_of_missing hmissing depth
    have hread := readsChain_of_lastRun h hrun
    refine ⟨_, hread, ?_, ?_⟩
    · intro link hlink
      have hruns := hread.runs link hlink
      rwa [hlog] at hruns
    · refine hread.chained h fun link _ => ?_
      rw [lookup_closed]
      exact lookup_started c registry link.name first rest

/-- Three providers, the last of which fails when it is run first. -/
def relay : List Link := [⟨"first", 0, 0⟩, ⟨"second", 1, 1⟩, ⟨"third", 2, 2⟩]

/-- A container with the providers above and one that asks for a name nobody has. -/
def linked : Container where
  bodies := #[
    { routine := fun _ _ => .get "main" "second" .done },
    { routine := fun _ _ => .get "main" "third" .done },
    { routine := fun runs _ =>
        if runs = 1 then .done (.error (.internal "cold")) else .done (.ok (.int 7)) },
    { routine := fun _ _ => .get "main" "nobody" .done }]
  singletons := #[{ name := "first", body := 0 }, { name := "second", body := 1 },
    { name := "third", body := 2 }, { name := "lost", body := 3 }]
  registries := fun _ => ⟨[⟨"first", "provide", 0⟩, ⟨"lost", "provide", 3⟩,
    ⟨"second", "provide", 1⟩, ⟨"third", "provide", 2⟩]⟩

theorem chained_relay : linked.Chained "main" relay := by
  refine ⟨by decide, ?_, ?_⟩
  · intro link hlink
    simp only [relay, List.mem_cons, List.not_mem_nil, or_false] at hlink
    rcases hlink with rfl | rfl | rfl
    · exact ⟨⟨"provide", rfl⟩, rfl⟩
    · exact ⟨⟨"provide", rfl⟩, rfl⟩
    · exact ⟨⟨"provide", rfl⟩, rfl⟩
  · exact .cons_cons ⟨0, rfl⟩ (.cons_cons ⟨0, rfl⟩ (.singleton _))

theorem get_chain_relay :
    ∃ after later lost,
      get 3 "main" "first" linked =
        some (.error (.provider "third" (Error.internal "cold").message), after) ∧
      (∀ link ∈ relay, after.runs link.body = 1 ∧
        after.singletons[link.singleton]? = some ⟨link.name, link.body, .empty⟩) ∧
      get 3 "main" "first" after = some (.ok (.int 7), later) ∧
      (∀ link ∈ relay, later.runs link.body = 2 ∧
        later.singletons[link.singleton]? = some ⟨link.name, link.body, .full (.int 7)⟩) ∧
      get 1 "main" "lost" linked =
        some (.error (.provider "lost" (Error.linkage "nobody" registrySlot).message), lost) := by
  have hlost : linked.Chained "main" [⟨"lost", 3, 3⟩] := by
    refine ⟨by decide, ?_, .singleton _⟩
    intro link hlink
    obtain rfl := List.mem_singleton.1 hlink
    exact ⟨⟨"provide", rfl⟩, rfl⟩
  have hcold : linked.lastRun 0 ⟨"first", 0, 0⟩ [⟨"second", 1, 1⟩, ⟨"third", 2, 2⟩] =
      some (.error (.internal "cold"), _) := rfl
  obtain ⟨-, hfails, -⟩ := get_chain chained_relay 0
  obtain ⟨named, after, hread, -, hnamed, hagain⟩ := hfails _ _ hcold
  obtain rfl : named = .provider "third" (Error.internal "cold").message :=
    hnamed fun _ _ h => by cases h
  obtain ⟨hchained, -⟩ := hagain (by intro link hlink; rfl)
  have hget : get 3 "main" "first" linked = some (_, _) := rfl
  obtain ⟨-, rfl⟩ := Prod.mk.inj (Option.some.inj (hread.get.symm.trans hget))
  obtain ⟨hvalue, -, -⟩ := get_chain hchained 0
  obtain ⟨later, hreadAgain, -, -⟩ := hvalue (.int 7) _ rfl
  obtain ⟨-, -, hmissing⟩ := get_chain hlost 0
  obtain ⟨lost, hreadLost, -, -⟩ := hmissing "nobody" ⟨0, rfl⟩ rfl
  refine ⟨_, later, lost, hread.get, ?_, hreadAgain.get, ?_, hreadLost.get⟩
  · intro link hlink
    have hruns := hread.runs link hlink
    refine ⟨?_, hread.states link hlink⟩
    simp only [relay, List.mem_cons, List.not_mem_nil, or_false] at hlink
    rcases hlink with rfl | rfl | rfl <;> exact hruns
  · intro link hlink
    have hruns := hreadAgain.runs link hlink
    refine ⟨?_, hreadAgain.states link hlink⟩
    simp only [relay, List.mem_cons, List.not_mem_nil, or_false] at hlink
    rcases hlink with rfl | rfl | rfl <;> exact hruns

end Container

end LateBinding
