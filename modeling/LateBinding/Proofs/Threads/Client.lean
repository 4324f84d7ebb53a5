import LateBinding.Proofs.Container.Installing
import LateBinding.Proofs.Journal
import LateBinding.Proofs.Session.Binding
import LateBinding.Proofs.Threads.Interleaving

set_option autoImplicit false

/-! # Clients that share registries

Clients register configuration objects, clear registries, look names up and link call sites, all at
the same time. To register is not one step: the configuration objects are validated first, and if
they are accepted, their methods are installed one at a time, while other clients go on in between.
Every other request is one step.

`Client.move` is what a client does at its turn; alone, a client does what the request as a whole
does (`Client.run_alone`). What a step means for the container depends on the action only
(`Action.Does`). The log of the actions tells what a name leads to (`Shown`) and where a call site
does (`LeadsTo`), the container agrees with it (`Agrees`), and so each action answers what it has to
(`Action.Justified`).
-/

namespace LateBinding

/-! ## Clients -/

/-- What a client asks for. -/
inductive Request where
  | register (registry : String) (configurations : List Configuration)
  | clear (registry : String)
  | lookup (registry name : String)
  | link (registry : String) (site : SiteId)

/-- A method that an accepted call installs, and where it comes from. -/
structure Insertion where
  client : Nat
  /-- Which of the requests of the client the call is. -/
  request : Nat
  /-- Which of the methods of the call it is. -/
  index : Nat
  registry : String
  method : ProviderMethod

/-- The entry that an insertion makes, with its singleton. -/
def Insertion.entry (x : Insertion) (id : SingletonId) : Entry :=
  ⟨x.method.provides, x.method.name, id⟩

/-- What a client does at its turn, with the answer that it gets. -/
inductive Action where
  | validated (registry : String) (outcome : Except ConfigurationError Unit)
  | inserted (insertion : Insertion) (id : SingletonId)
  | cleared (registry : String)
  | found (registry name : String) (answer : Option Entry)
  | linked (registry : String) (site : SiteId) (answer : Except Error SingletonId)

namespace Request

/-- The insertions that a request leads to. -/
def insertions (client request : Nat) : Request → List Insertion
  | register registry configurations =>
    match configurations.forM Configuration.check with
    | .error _ => []
    | .ok () => (configurations.flatMap Configuration.methods).mapIdx fun index method =>
      { client, request, index, registry, method }
  | clear _ | lookup _ _ | link _ _ => []

/-- The first step of a request. It is the only one unless there is something to insert. -/
def start (c : Container) : Request → Action × Container
  | register registry configurations =>
    (.validated registry (configurations.forM Configuration.check), c)
  | clear registry => (.cleared registry, c.clear registry)
  | lookup registry name => (.found registry name (c.lookup registry name), c)
  | link registry site =>
    let (answer, c) := c.link registry site
    (.linked registry site answer, c)

/-- The container after a request that is made without anything in between. -/
def perform (c : Container) : Request → Container
  | register registry configurations => (c.register registry configurations).2
  | clear registry => c.clear registry
  | lookup _ _ => c
  | link registry site => (c.link registry site).2

end Request

/-- A client with what it still has to do. -/
structure Client where
  /-- The insertions that the request under way still leads to. -/
  pending : List Insertion := []
  /-- Number of the requests that have been started. -/
  started : Nat := 0
  /-- The requests that have not been started. -/
  program : List Request

/-- The next step of a client. -/
def Client.move (turn : Nat) (client : Client) (c : Container) :
    Option (Action × Client × Container) :=
  match client.pending, client.program with
  | x :: pending, _ => some (.inserted x c.singletons.size, { client with pending },
    c.install x.registry x.method)
  | [], request :: program =>
    let (action, c) := request.start c
    some (action, ⟨request.insertions turn client.started, client.started + 1, program⟩, c)
  | [], [] => none

/-- Clients that have not done anything yet. -/
def Client.system (c : Container) (programs : List (List Request)) : System Container Client :=
  ⟨c, programs.map fun program => { program }⟩

/-! ## A client alone -/

theorem Request.insertions_of_acceptable {registry : String}
    {configurations : List Configuration} (h : Acceptable configurations) (turn first : Nat) :
    (register registry configurations).insertions turn first =
      (configurations.flatMap Configuration.methods).mapIdx fun index method =>
        ⟨turn, first, index, registry, method⟩ := by
  rw [insertions, acceptable_iff.2 h]

theorem Request.insertions_of_not_acceptable {registry : String}
    {configurations : List Configuration} (h : ¬ Acceptable configurations) (turn first : Nat) :
    (register registry configurations).insertions turn first = [] := by
  cases hcheck : configurations.forM Configuration.check with
  | error cause => rw [insertions, hcheck]
  | ok _ => exact absurd (acceptable_iff.1 hcheck) h

theorem foldl_mapIdx {α β γ : Type} {f : Nat → α → β} {step : γ → β → γ} {step' : γ → α → γ}
    (h : ∀ index c a, step c (f index a) = step' c a) (items : List α) (c : γ) :
    (items.mapIdx f).foldl step c = items.foldl step' c := by
  induction items generalizing f c with
  | nil => rfl
  | cons a items ih =>
      rw [List.mapIdx_cons, List.foldl_cons, List.foldl_cons, h]
      exact ih (fun index => h (index + 1)) _

/-- Installing, insertion by insertion, what a request leads to is to make the request. -/
theorem Request.foldl_insertions (request : Request) (turn first : Nat) (c : Container) :
    (request.insertions turn first).foldl (fun c x => c.install x.registry x.method)
      (request.start c).2 = request.perform c := by
  cases request with
  | clear _ | lookup _ _ | link _ _ => rfl
  | register registry configurations =>
      by_cases haccepted : Acceptable configurations
      · rw [insertions_of_acceptable haccepted, perform,
          Container.register_of_acceptable haccepted]
        refine foldl_mapIdx ?_ (configurations.flatMap Configuration.methods) c
        intro index c method
        rfl
      · obtain ⟨cause, hregister⟩ := Container.register_of_not_acceptable haccepted c registry
        rw [insertions_of_not_acceptable haccepted, perform, hregister]
        rfl

/-- A client that goes on alone makes the insertions that are pending. -/
theorem Client.run_pending {turn started : Nat} {program : List Request}
    {pending : List Insertion} {s : System Container Client}
    (h : s.threads[turn]? = some ⟨pending, started, program⟩) :
    (s.run Client.move (List.replicate pending.length turn)).2 =
      ⟨pending.foldl (fun c x => c.install x.registry x.method) s.shared,
        s.threads.set turn ⟨[], started, program⟩⟩ := by
  induction pending generalizing s with
  | nil =>
      obtain ⟨hlt, hget⟩ := List.getElem?_eq_some_iff.1 h
      rw [← hget, List.set_getElem_self]
      rfl
  | cons x pending ih =>
      obtain ⟨hlt, -⟩ := List.getElem?_eq_some_iff.1 h
      have hstep : s.step Client.move turn = some (.inserted x s.shared.singletons.size,
          ⟨s.shared.install x.registry x.method,
            s.threads.set turn ⟨pending, started, program⟩⟩) :=
        System.step_eq_some.2 ⟨_, _, h, rfl, rfl⟩
      rw [List.length_cons, List.replicate_succ, System.run_cons_of_some hstep,
        ih (List.getElem?_set_self hlt), List.set_set]
      rfl

/-- A client that goes on alone makes its next request as a whole. -/
theorem Client.run_alone {turn started : Nat} {request : Request} {program : List Request}
    {s : System Container Client}
    (h : s.threads[turn]? = some ⟨[], started, request :: program⟩) :
    (s.run Client.move
        (turn :: List.replicate (request.insertions turn started).length turn)).2 =
      ⟨request.perform s.shared, s.threads.set turn ⟨[], started + 1, program⟩⟩ := by
  obtain ⟨hlt, -⟩ := List.getElem?_eq_some_iff.1 h
  have hstep : s.step Client.move turn = some ((request.start s.shared).1,
      ⟨(request.start s.shared).2, s.threads.set turn
        ⟨request.insertions turn started, started + 1, program⟩⟩) :=
    System.step_eq_some.2 ⟨_, _, h, rfl, rfl⟩
  rw [System.run_cons_of_some hstep, Client.run_pending (List.getElem?_set_self hlt),
    request.foldl_insertions, List.set_set]

/-! ## What an action does to the container -/

/-- An action, between the containers before and after it. -/
inductive Action.Does (c : Container) : Action → Container → Prop
  | validated (registry : String) (outcome : Except ConfigurationError Unit) :
      Does c (.validated registry outcome) c
  | inserted (x : Insertion) :
      Does c (.inserted x c.singletons.size) (c.install x.registry x.method)
  | cleared (registry : String) : Does c (.cleared registry) (c.clear registry)
  | found (registry name : String) : Does c (.found registry name (c.lookup registry name)) c
  | linked (registry : String) (site : SiteId) :
      Does c (.linked registry site (c.link registry site).1) (c.link registry site).2

theorem Request.start_does (request : Request) (c : Container) :
    (request.start c).1.Does c (request.start c).2 := by
  cases request with
  | register registry configurations => exact .validated registry _
  | clear registry => exact .cleared registry
  | lookup registry name => exact .found registry name
  | link registry site => exact .linked registry site

/-- A client inserts what is pending, or starts its next request. -/
theorem Client.move_eq_some {turn : Nat} {client client' : Client} {c c' : Container}
    {action : Action} (h : client.move turn c = some (action, client', c')) :
    (∃ x, client.pending = x :: client'.pending ∧ client'.started = client.started ∧
      client'.program = client.program ∧ action = .inserted x c.singletons.size ∧
      c' = c.install x.registry x.method) ∨
    (∃ request, client.pending = [] ∧ client.program = request :: client'.program ∧
      client'.pending = request.insertions turn client.started ∧
      client'.started = client.started + 1 ∧ request.start c = (action, c')) := by
  obtain ⟨pending, started, program⟩ := client
  cases pending with
  | cons x pending =>
      cases h
      exact .inl ⟨x, rfl, rfl, rfl, rfl, rfl⟩
  | nil =>
      cases program with
      | nil => cases h
      | cons request program =>
          cases h
          exact .inr ⟨request, rfl, rfl, rfl, rfl, rfl⟩

theorem Client.does_of_move {turn : Nat} {client client' : Client} {c c' : Container}
    {action : Action} (h : client.move turn c = some (action, client', c')) :
    action.Does c c' := by
  obtain ⟨x, -, -, -, rfl, rfl⟩ | ⟨request, -, -, -, -, hstart⟩ := Client.move_eq_some h
  · exact .inserted x
  · have hdoes := request.start_does c
    rwa [hstart] at hdoes

/-! ## What a log says of names -/

/-- An action after which an insertion does not count any more: another insertion under its name,
or a clear. -/
def Action.Supersedes (x : Insertion) : Action → Prop
  | inserted y _ => y.registry = x.registry ∧ y.method.provides = x.method.provides
  | cleared registry => registry = x.registry
  | validated _ _ | found _ _ _ | linked _ _ _ => False

/-- The insertion has been made and has not been superseded since. -/
def Stands (log : List Action) (x : Insertion) (id : SingletonId) : Prop :=
  ∃ earlier later, log = earlier ++ .inserted x id :: later ∧ ∀ a ∈ later, ¬ a.Supersedes x

/-- The entry comes from the most recent insertion of the name since the last clear. -/
def Shown (log : List Action) (registry name : String) (entry : Entry) : Prop :=
  ∃ x id, x.registry = registry ∧ x.method.provides = name ∧ entry = x.entry id ∧ Stands log x id

/-- The call site, which is `site` at the start, leads to a singleton: it is bound to it from the
start, or has been linked to it. -/
def LeadsTo (log : List Action) (id : SiteId) (site : CallSite) (found : SingletonId) : Prop :=
  site.target = some found ∨ ∃ registry, .linked registry id (.ok found) ∈ log

variable {log : List Action} {action : Action} {registry name : String} {entry : Entry}
  {x : Insertion} {id : SingletonId} {c c₀ c' : Container}

theorem Stands.mem (h : Stands log x id) : .inserted x id ∈ log := by
  obtain ⟨earlier, later, rfl, -⟩ := h
  exact List.mem_append_right earlier (List.mem_cons_self ..)

/-- An insertion stands for as long as it is not superseded. -/
theorem stands_append {earlier later more : List Action}
    (hlog : log = earlier ++ .inserted x id :: later)
    (h : ∀ a ∈ later ++ more, ¬ a.Supersedes x) : Stands (log ++ more) x id :=
  ⟨earlier, later ++ more, by rw [hlog, List.append_assoc, List.cons_append], h⟩

theorem stands_concat : Stands (log ++ [action]) x id ↔
    action = .inserted x id ∨ Stands log x id ∧ ¬ action.Supersedes x := by
  constructor
  · rintro ⟨earlier, later, hlog, hlater⟩
    rcases concat_eq_append_cons.1 hlog with ⟨-, hlast, -⟩ | ⟨between, rfl, hbetween⟩
    · exact .inl hlast
    · refine .inr ⟨⟨earlier, between, hbetween, ?_⟩, ?_⟩
      · exact fun a ha => hlater a (List.mem_append_left _ ha)
      · exact hlater action (List.mem_append_right _ (List.mem_singleton_self action))
  · rintro (rfl | ⟨⟨earlier, later, rfl, hlater⟩, haction⟩)
    · exact ⟨log, [], rfl, nofun⟩
    · refine ⟨earlier, later ++ [action], by rw [List.append_assoc, List.cons_append], ?_⟩
      intro a ha
      rcases List.mem_append.1 ha with ha | ha
      · exact hlater a ha
      · exact List.mem_singleton.1 ha ▸ haction

theorem not_shown_nil : ¬ Shown [] registry name entry := by
  rintro ⟨x, id, -, -, -, earlier, later, hlog, -⟩
  cases earlier <;> cases hlog

/-- An action that supersedes nothing leaves all names what they show. -/
theorem shown_concat_of_quiet (h : ∀ x, ¬ action.Supersedes x) :
    Shown (log ++ [action]) registry name entry ↔ Shown log registry name entry := by
  refine exists_congr fun x => exists_congr fun id => ?_
  have hinserted : action ≠ .inserted x id := fun heq => h x (heq ▸ ⟨rfl, rfl⟩)
  rw [stands_concat, or_iff_right hinserted, and_iff_left (h x)]

/-- An insertion is what is shown under its name from then on, and no other name is affected. -/
theorem shown_concat_inserted :
    Shown (log ++ [.inserted x id]) registry name entry ↔
      if x.registry = registry ∧ x.method.provides = name then entry = x.entry id
      else Shown log registry name entry := by
  constructor
  · rintro ⟨y, id', rfl, rfl, rfl, hy⟩
    rcases stands_concat.1 hy with heq | ⟨hstands, hkept⟩
    · cases heq
      rw [if_pos ⟨rfl, rfl⟩]
    · have hname : ¬ (x.registry = y.registry ∧ x.method.provides = y.method.provides) := hkept
      rw [if_neg hname]
      exact ⟨y, id', rfl, rfl, rfl, hstands⟩
  · intro h
    split at h
    · next hname =>
        exact ⟨x, id, hname.1, hname.2, h, stands_concat.2 (.inl rfl)⟩
    · next hname =>
        obtain ⟨y, id', rfl, rfl, rfl, hstands⟩ := h
        exact ⟨y, id', rfl, rfl, rfl, stands_concat.2 (.inr ⟨hstands, hname⟩)⟩

/-- A clear leaves a registry with nothing, and others as they are. -/
theorem shown_concat_cleared {cleared : String} :
    Shown (log ++ [.cleared cleared]) registry name entry ↔
      cleared ≠ registry ∧ Shown log registry name entry := by
  constructor
  · rintro ⟨y, id, rfl, rfl, rfl, hy⟩
    rcases stands_concat.1 hy with heq | ⟨hstands, hkept⟩
    · cases heq
    · exact ⟨hkept, y, id, rfl, rfl, rfl, hstands⟩
  · rintro ⟨hne, y, id, rfl, rfl, rfl, hstands⟩
    exact ⟨y, id, rfl, rfl, rfl, stands_concat.2 (.inr ⟨hstands, hne⟩)⟩

/-! ## The container agrees with the log -/

/-- The container shows what the log says, where it started as `c₀`. -/
structure Agrees (c₀ : Container) (log : List Action) (c : Container) : Prop where
  ascending : ∀ registry, (c.registries registry).Ascending
  lookup : ∀ registry name entry,
    c.lookup registry name = some entry ↔ Shown log registry name entry
  /-- Each insertion has a singleton of its own, over the body of its method. -/
  singletons : ∀ x id, .inserted x id ∈ log → c.singletons[id]? = some x.method.fresh
  /-- A call site is bound to what has been answered to those who linked it. -/
  sites : ∀ id site, c₀.sites[id]? = some site →
    ∃ target, c.sites[id]? = some { site with target } ∧
      ∀ found, target = some found ↔ LeadsTo log id site found

namespace Agrees

theorem start (h : ∀ registry, c.registries registry = {}) : Agrees c [] c := by
  refine ⟨?_, ?_, fun _ _ hmem => (List.not_mem_nil hmem).elim, ?_⟩
  · intro registry
    rw [h]
    exact Registry.ascending_empty
  · intro registry name entry
    refine iff_of_false ?_ not_shown_nil
    rw [Container.lookup, h, Registry.find?_empty]
    exact (Option.some_ne_none entry).symm
  · intro id site hsite
    refine ⟨site.target, hsite, fun found => (or_iff_left ?_).symm⟩
    rintro ⟨_, hmem⟩
    cases hmem

/-- What is said of a call site stays, unless it is linked. -/
theorem sites_concat (h : Agrees c₀ log c) {id : SiteId} {site : CallSite}
    (hsite : c₀.sites[id]? = some site)
    (hlinked : ∀ registry answer, action ≠ .linked registry id answer)
    (hkept : c'.sites[id]? = c.sites[id]?) :
    ∃ target, c'.sites[id]? = some { site with target } ∧
      ∀ found, target = some found ↔ LeadsTo (log ++ [action]) id site found := by
  obtain ⟨target, hnow, hfound⟩ := h.sites id site hsite
  refine ⟨target, hkept.trans hnow, fun found => (hfound found).trans ?_⟩
  refine or_congr_right (exists_congr fun registry => ?_)
  rw [List.mem_append, List.mem_singleton, or_iff_left (hlinked registry _).symm]

/-- What is said of singletons stays, unless there is an insertion. -/
theorem singletons_concat (h : Agrees c₀ log c) (action : Action)
    (hinserted : ∀ x id, action ≠ .inserted x id) (hkept : c'.singletons = c.singletons)
    (x : Insertion) (id : SingletonId) (hmem : .inserted x id ∈ log ++ [action]) :
    c'.singletons[id]? = some x.method.fresh := by
  rw [List.mem_append, List.mem_singleton, or_iff_left (hinserted x id).symm] at hmem
  rw [hkept]
  exact h.singletons x id hmem

theorem validated (h : Agrees c₀ log c) (outcome : Except ConfigurationError Unit) :
    Agrees c₀ (log ++ [.validated registry outcome]) c :=
  ⟨h.ascending, fun registry name entry => (h.lookup registry name entry).trans
      (shown_concat_of_quiet fun _ => id).symm,
    h.singletons_concat (.validated registry outcome) (fun _ _ => nofun) rfl,
    fun _ _ hsite => h.sites_concat hsite (fun _ _ => nofun) rfl⟩

theorem found (h : Agrees c₀ log c) (answer : Option Entry) :
    Agrees c₀ (log ++ [.found registry name answer]) c :=
  ⟨h.ascending, fun registry name entry => (h.lookup registry name entry).trans
      (shown_concat_of_quiet fun _ => id).symm,
    h.singletons_concat (.found registry name answer) (fun _ _ => nofun) rfl,
    fun _ _ hsite => h.sites_concat hsite (fun _ _ => nofun) rfl⟩

theorem inserted (h : Agrees c₀ log c) (x : Insertion) :
    Agrees c₀ (log ++ [.inserted x c.singletons.size]) (c.install x.registry x.method) := by
  refine ⟨?_, ?_, ?_, fun _ _ hsite => h.sites_concat hsite (fun _ _ => nofun) rfl⟩
  · intro registry
    by_cases hregistry : registry = x.registry
    · subst hregistry
      rw [Container.registry_install]
      exact (h.ascending _).insert _
    · rw [Container.registry_install_of_ne hregistry]
      exact h.ascending registry
  · intro registry name entry
    rw [shown_concat_inserted]
    by_cases hregistry : x.registry = registry
    · subst hregistry
      rw [Container.lookup_install]
      by_cases hname : x.method.provides = name
      · rw [if_pos hname, if_pos ⟨rfl, hname⟩, Option.some.injEq, eq_comm]
        rfl
      · rw [if_neg hname, if_neg fun h => hname h.2]
        exact h.lookup x.registry name entry
    · rw [Container.lookup, Container.registry_install_of_ne (Ne.symm hregistry),
        if_neg fun h => hregistry h.1]
      exact h.lookup registry name entry
  · intro y id hmem
    rcases List.mem_append.1 hmem with hold | hnew
    · exact Container.singleton?_install_of_some (h.singletons y id hold) x.registry x.method
    · cases List.mem_singleton.1 hnew
      exact Container.singleton?_install_self x.registry c x.method

theorem cleared (h : Agrees c₀ log c) (cleared : String) :
    Agrees c₀ (log ++ [.cleared cleared]) (c.clear cleared) := by
  refine ⟨?_, ?_, h.singletons_concat (.cleared cleared) (fun _ _ => nofun) rfl,
    fun _ _ hsite => h.sites_concat hsite (fun _ _ => nofun) rfl⟩
  · intro registry
    by_cases hregistry : registry = cleared
    · rw [hregistry, Container.registry_clear]
      exact Registry.ascending_empty
    · rw [Container.registry_clear_of_ne hregistry]
      exact h.ascending registry
  · intro registry name entry
    rw [shown_concat_cleared]
    by_cases hregistry : registry = cleared
    · refine iff_of_false ?_ fun h => h.1 hregistry.symm
      rw [Container.lookup, hregistry, Container.registry_clear, Registry.find?_empty]
      exact (Option.some_ne_none entry).symm
    · rw [Container.lookup, Container.registry_clear_of_ne hregistry,
        and_iff_right (Ne.symm hregistry)]
      exact h.lookup registry name entry

theorem linked (h : Agrees c₀ log c) (registry : String) (other : SiteId) :
    Agrees c₀ (log ++ [.linked registry other (c.link registry other).1])
      (c.link registry other).2 := by
  obtain ⟨sites, hframe⟩ := c.link_eq_sites registry other
  have hregistries : (c.link registry other).2.registries = c.registries := by rw [hframe]
  have hsingletons : (c.link registry other).2.singletons = c.singletons := by rw [hframe]
  refine ⟨?_, ?_, h.singletons_concat _ (fun _ _ => nofun) hsingletons, ?_⟩
  · rw [hregistries]
    exact h.ascending
  · intro registry name entry
    rw [Container.lookup, hregistries, shown_concat_of_quiet fun _ => id]
    exact h.lookup registry name entry
  · intro id site hsite
    by_cases hother : other = id
    · subst hother
      obtain ⟨target, hnow, hfound⟩ := h.sites other site hsite
      refine ⟨_, Container.site?_link hnow registry, fun found => ?_⟩
      -- a site that is bound gives its target, so no later answer differs from an earlier one
      have hanswer : target = some found → (c.link registry other).1 = .ok found := by
        rintro rfl
        rw [Container.answer_link, Container.site_of_getElem? hnow]
      rw [Except.toOption_eq_some]
      constructor
      · intro hnew
        refine .inr ⟨registry, List.mem_append_right _ (List.mem_singleton.2 ?_)⟩
        rw [hnew]
      · rintro (hbound | ⟨registry', hmem⟩)
        · exact hanswer ((hfound found).2 (.inl hbound))
        rcases List.mem_append.1 hmem with hold | hnew
        · exact hanswer ((hfound found).2 (.inr ⟨registry', hold⟩))
        · exact (Action.linked.inj (List.mem_singleton.1 hnew)).2.2.symm
    · refine h.sites_concat hsite ?_ (Container.site?_link_of_ne hother)
      rintro _ _ heq
      cases heq
      exact hother rfl

/-- Whatever a client does, the container goes on to agree with the log. -/
theorem does (h : Agrees c₀ log c) (haction : action.Does c c') :
    Agrees c₀ (log ++ [action]) c' := by
  cases haction with
  | validated registry outcome => exact h.validated outcome
  | inserted x => exact h.inserted x
  | cleared registry => exact h.cleared registry
  | found registry name => exact h.found _
  | linked registry id => exact h.linked registry id

end Agrees

/-- An action that answers what it has to answer after the actions before it. -/
def Action.Justified (c₀ : Container) (earlier : List Action) : Action → Prop
  | validated _ _ | cleared _ => True
  | inserted _ id => ∀ x, inserted x id ∉ earlier
  | found registry name answer => ∀ entry, answer = some entry ↔ Shown earlier registry name entry
  | linked registry id answer => ∀ site, c₀.sites[id]? = some site →
    (∀ found, LeadsTo earlier id site found → answer = .ok found) ∧
    ((∀ found, ¬ LeadsTo earlier id site found) →
      (∀ entry, Shown earlier registry site.symbol entry → answer = .ok entry.singleton) ∧
      ((∀ entry, ¬ Shown earlier registry site.symbol entry) →
        answer = .error (.linkage site.symbol site.slot)))

/-- Where the container agrees with the log, the next action is justified. -/
theorem Agrees.justified (h : Agrees c₀ log c) (haction : action.Does c c') :
    action.Justified c₀ log := by
  cases haction with
  | validated _ _ | cleared _ => trivial
  | inserted x =>
      intro y hmem
      have hsingleton := h.singletons y _ hmem
      rw [Array.getElem?_eq_none (Nat.le_refl _)] at hsingleton
      cases hsingleton
  | found registry name => exact h.lookup registry name
  | linked registry id =>
      intro site hsite
      obtain ⟨target, hnow, hfound⟩ := h.sites id site hsite
      have hanswer := c.answer_link registry id
      rw [Container.site_of_getElem? hnow] at hanswer
      constructor
      · intro found hleads
        rw [hanswer, (hfound found).2 hleads]
      · intro hnone
        have hunbound : target = none :=
          Option.eq_none_iff_forall_ne_some.2 fun found heq => hnone found ((hfound found).1 heq)
        rw [hanswer, hunbound]
        constructor
        · intro entry hshown
          simp only [Container.resolve, (h.lookup registry site.symbol entry).2 hshown]
        · intro hshown
          have hlookup : c.lookup registry site.symbol = none :=
            Option.eq_none_iff_forall_ne_some.2 fun entry heq =>
              hshown entry ((h.lookup registry site.symbol entry).1 heq)
          simp only [Container.resolve, hlookup]

end LateBinding
