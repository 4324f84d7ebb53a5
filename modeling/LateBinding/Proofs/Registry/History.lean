import LateBinding.Proofs.Container.Installing
import LateBinding.Proofs.Journal
import LateBinding.Proofs.Session.Rules
import Mathlib.Algebra.GroupWithZero.Nat
import Mathlib.Data.List.Induction

set_option autoImplicit false

/-! # A registry refines a map

What a registry holds is told by the calls that were made on it. `installed` is the list of the
methods that they leave: a `register` that is accepted adds its methods at the end, one that is
refused adds none, and `clear` starts anew. Under each name the registry shows the last method of
this list that provides the name, to all observers alike (`Container.Shows`).

Between the calls, whatever leaves the registry alone may happen to the container (`Undisturbed`),
so that singletons may have got their values. `Container.Called` is a history of such a kind, and
`Container.Called.refines_map` is what the registry shows after it and what a further call does.
-/

namespace LateBinding

/-! ## Calls -/

/-- A call that changes what a registry holds. -/
inductive RegistryCall where
  | register (configurations : List Configuration)
  | clear

namespace RegistryCall

/-- The container after a call on a registry. -/
def perform (registry : String) (c : Container) : RegistryCall → Container
  | register configurations => (c.register registry configurations).2
  | clear => c.clear registry

/-- What a call makes of the methods that are installed. -/
def extend (methods : List ProviderMethod) : RegistryCall → List ProviderMethod
  | register configurations =>
    if Acceptable configurations then methods ++ configurations.flatMap Configuration.methods
    else methods
  | clear => []

/-- The methods that calls leave installed, in the order of the calls, of the configuration objects
of a call, and of the methods of an object. -/
def installed (calls : List RegistryCall) : List ProviderMethod := calls.foldl extend []

theorem installed_append_singleton (calls : List RegistryCall) (call : RegistryCall) :
    installed (calls ++ [call]) = call.extend (installed calls) :=
  List.foldl_concat ..

theorem extend_of_acceptable {configurations : List Configuration}
    (h : Acceptable configurations) (methods : List ProviderMethod) :
    (register configurations).extend methods =
      methods ++ configurations.flatMap Configuration.methods :=
  if_pos h

theorem extend_of_not_acceptable {configurations : List Configuration}
    (h : ¬ Acceptable configurations) (methods : List ProviderMethod) :
    (register configurations).extend methods = methods :=
  if_neg h

/-- An accepted call after the last `clear` has installed the method. -/
def Leaves (calls : List RegistryCall) (method : ProviderMethod) : Prop :=
  ∃ earlier configurations later,
    calls = earlier ++ register configurations :: later ∧ clear ∉ later ∧
    Acceptable configurations ∧
    ∃ configuration ∈ configurations, method ∈ configuration.methods

/-- An accepted call after the last `clear` provides the name. -/
def Provided (calls : List RegistryCall) (name : String) : Prop :=
  ∃ method, Leaves calls method ∧ method.provides = name

variable {calls : List RegistryCall} {method : ProviderMethod}

theorem not_leaves_clear : ¬ Leaves (calls ++ [clear]) method := by
  rintro ⟨earlier, configurations, later, hcalls, hclear, -⟩
  rcases concat_eq_append_cons.1 hcalls with ⟨-, hlast, -⟩ | ⟨between, rfl, -⟩
  · cases hlast
  · exact hclear (List.mem_append_right between (List.mem_singleton_self clear))

/-- A `register` leaves what the calls before it leave, and its own methods if it is accepted. -/
theorem leaves_register {configurations : List Configuration} :
    Leaves (calls ++ [register configurations]) method ↔ Leaves calls method ∨
      Acceptable configurations ∧
        ∃ configuration ∈ configurations, method ∈ configuration.methods := by
  constructor
  · rintro ⟨earlier, others, later, hcalls, hclear, haccepted⟩
    rcases concat_eq_append_cons.1 hcalls with ⟨-, hlast, -⟩ | ⟨between, rfl, hbetween⟩
    · cases hlast
      exact .inr haccepted
    · exact .inl ⟨earlier, others, between, hbetween,
        fun h => hclear (List.mem_append_left _ h), haccepted⟩
  · rintro (⟨earlier, others, later, rfl, hclear, haccepted⟩ | haccepted)
    · refine ⟨earlier, others, later ++ [register configurations], ?_, ?_, haccepted⟩
      · rw [List.append_assoc, List.cons_append]
      · rw [List.mem_append, List.mem_singleton]
        exact fun h => h.elim hclear nofun
    · exact ⟨calls, configurations, [], rfl, List.not_mem_nil, haccepted⟩

/-- The methods that calls leave installed are those of the accepted ones after the last
`clear`. -/
theorem mem_installed : method ∈ installed calls ↔ Leaves calls method := by
  induction calls using List.reverseRecOn with
  | nil =>
      refine iff_of_false List.not_mem_nil ?_
      rintro ⟨earlier, configurations, later, hcalls, -⟩
      cases earlier <;> cases hcalls
  | append_singleton calls call ih =>
      rw [installed_append_singleton]
      cases call with
      | clear => exact iff_of_false List.not_mem_nil not_leaves_clear
      | register configurations =>
          rw [leaves_register]
          by_cases haccepted : Acceptable configurations
          · rw [extend_of_acceptable haccepted, List.mem_append, ih, List.mem_flatMap,
              and_iff_right haccepted]
          · rw [extend_of_not_acceptable haccepted, ih]
            exact (or_iff_left fun h => haccepted h.1).symm

theorem provided_iff {name : String} :
    Provided calls name ↔ ∃ method ∈ installed calls, method.provides = name := by
  simp only [Provided, mem_installed]

end RegistryCall

namespace Container

variable {c c' c₁ : Container} {registry name : String} {method : ProviderMethod}
  {methods : List ProviderMethod}

/-! ## Leaving a registry alone -/

/-- From one container to another, a registry is left alone: it keeps its entries, and singletons
keep their names and their bodies, though not how far they have come. -/
structure Undisturbed (registry : String) (c c' : Container) : Prop where
  registry_eq : c'.registries registry = c.registries registry
  singletons : ∀ (id : SingletonId) (singleton : Singleton),
    c.singletons[id]? = some singleton → ∃ state, c'.singletons[id]? = some { singleton with state }

namespace Undisturbed

/-- Where the registry and the singletons are as they were, the registry is left alone. -/
theorem of_eq (hregistry : c'.registries registry = c.registries registry)
    (hsingletons : c'.singletons = c.singletons) : Undisturbed registry c c' :=
  ⟨hregistry, fun _ singleton h => ⟨singleton.state, hsingletons ▸ h⟩⟩

theorem trans (h : Undisturbed registry c c₁) (h' : Undisturbed registry c₁ c') :
    Undisturbed registry c c' := by
  refine ⟨h'.registry_eq.trans h.registry_eq, ?_⟩
  intro id singleton hsingleton
  obtain ⟨state, hbetween⟩ := h.singletons id singleton hsingleton
  exact h'.singletons id { singleton with state } hbetween

/-- How far singletons have come is of no concern to a registry. -/
theorem setState (registry : String) (c : Container) (id : SingletonId) (state : SingletonState) :
    Undisturbed registry c (c.setState id state) := by
  refine ⟨rfl, ?_⟩
  intro other singleton hsingleton
  by_cases h : id = other
  · subst h
    exact ⟨state, singleton?_setState_self hsingleton⟩
  · exact ⟨singleton.state, (singleton?_setState_of_ne h).trans hsingleton⟩

theorem install {other : String} (h : registry ≠ other) (c : Container) (method : ProviderMethod) :
    Undisturbed registry c (c.install other method) :=
  ⟨registry_install_of_ne h c method, fun _ singleton hsingleton =>
    ⟨singleton.state, singleton?_install_of_some hsingleton other method⟩⟩

/-- Reading a singleton leaves a registry alone, unless a body installs something there. -/
theorem rule (registry : String) : ReadRule fun c log c' =>
    (∀ entry body, .installed registry entry body ∉ log) → Undisturbed registry c c' where
  refl _ _ := of_eq rfl rfl
  trans h h' hlog :=
    (h fun entry body hmem => hlog entry body (List.mem_append_left _ hmem)).trans
      (h' fun entry body hmem => hlog entry body (List.mem_append_right _ hmem))
  heap _ _ _ := of_eq rfl rfl
  install other c method hlog := by
    refine install ?_ c method
    rintro rfl
    exact hlog _ _ (List.mem_singleton.2 rfl)
  hit _ _ _ := of_eq rfl rfl
  miss {c c₁ id singleton body log} outcome _ _ _ h hlog := by
    -- the singleton is marked, the run is counted, the body is run, the outcome is kept
    have hcounted : Undisturbed registry (c.setState id .running)
        ((c.setState id .running).counted singleton.body body) := of_eq rfl rfl
    have hbetween := h fun entry body hmem => hlog entry body (List.mem_append_left _ hmem)
    exact (((setState registry c id .running).trans hcounted).trans hbetween).trans
      (setState registry c₁ id (.after outcome))

/-- A read of a provider by its name leaves a registry alone, unless a body installs something
there. -/
theorem of_get {depth : Nat} {other name : String} {answer : Except Error Value}
    (h : get depth other name c = some (answer, c'))
    (hlog : ∀ entry body, .installed registry entry body ∉ (Handle.named other name).log depth c) :
    Undisturbed registry c c' := by
  unfold get at h
  unfold Handle.log at hlog
  cases hid : c.resolve other name registrySlot with
  | error e =>
      simp only [hid] at h
      cases h
      exact of_eq rfl rfl
  | ok id =>
      simp only [hid] at h hlog
      exact (rule registry).readSingleton h hlog

end Undisturbed

/-! ## What a registry shows -/

/-- A registry shows `method` under `name`: every observer finds the entry, and reading it means to
read a singleton of this name over the body of the method. -/
structure Presents (c : Container) (registry name : String) (method : ProviderMethod) : Prop where
  contains : (c.registries registry).contains name = true
  mem_names : name ∈ (c.registries registry).names
  entry : ∃ id state, c.lookup registry name = some ⟨name, method.name, id⟩ ∧
    c.singletons[id]? = some ⟨name, method.body, state⟩ ∧
    ∀ depth, get depth registry name c = readSingleton depth id c
  /-- Whatever goes wrong in a body, `get` does not say that the name is missing. -/
  not_linkage : ∀ depth e c', get depth registry name c = some (.error e, c') →
    e.isLinkage = false

/-- A registry shows nothing under `name`, to no observer. -/
structure Lacks (c : Container) (registry name : String) : Prop where
  contains : (c.registries registry).contains name = false
  not_mem_names : name ∉ (c.registries registry).names
  lookup : c.lookup registry name = none
  get : ∀ depth, get depth registry name c = some (.error (.linkage name registrySlot), c)

/-- A registry shows under each name the last of the methods that provide it. -/
structure Shows (c : Container) (registry : String) (methods : List ProviderMethod) : Prop where
  ascending : (c.registries registry).Ascending
  lookup : ∀ name, match latest? ProviderMethod.provides name methods with
    | some method => ∃ id state, c.lookup registry name = some ⟨name, method.name, id⟩ ∧
      c.singletons[id]? = some ⟨name, method.body, state⟩
    | none => c.lookup registry name = none

namespace Shows

theorem of_empty (h : c.registries registry = {}) : c.Shows registry [] := by
  constructor
  · rw [h]
    exact Registry.ascending_empty
  · intro name
    show c.lookup registry name = none
    rw [Container.lookup, h]
    rfl

theorem undisturbed (h : c.Shows registry methods) (hc : Undisturbed registry c c') :
    c'.Shows registry methods := by
  constructor
  · rw [hc.registry_eq]
    exact h.ascending
  · intro name
    have hlookup := h.lookup name
    rw [Container.lookup, hc.registry_eq]
    cases hlatest : latest? ProviderMethod.provides name methods with
    | none =>
        rw [hlatest] at hlookup
        exact hlookup
    | some method =>
        rw [hlatest] at hlookup
        obtain ⟨id, state, hentry, hsingleton⟩ := hlookup
        obtain ⟨state', hsingleton'⟩ := hc.singletons id _ hsingleton
        exact ⟨id, state', hentry, hsingleton'⟩

theorem install (h : c.Shows registry methods) (method : ProviderMethod) :
    (c.install registry method).Shows registry (methods ++ [method]) := by
  constructor
  · rw [registry_install]
    exact h.ascending.insert _
  · intro name
    rw [latest?_append_singleton]
    by_cases hname : method.provides = name
    · subst hname
      rw [if_pos rfl]
      refine ⟨c.singletons.size, .empty, ?_, singleton?_install_self registry c method⟩
      rw [lookup_install, if_pos rfl]
    · rw [if_neg hname]
      have hlookup := h.lookup name
      cases hlatest : latest? ProviderMethod.provides name methods with
      | none =>
          rw [hlatest] at hlookup
          exact (lookup_install ..).trans ((if_neg hname).trans hlookup)
      | some shown =>
          rw [hlatest] at hlookup
          obtain ⟨id, state, hentry, hsingleton⟩ := hlookup
          exact ⟨id, state, (lookup_install ..).trans ((if_neg hname).trans hentry),
            singleton?_install_of_some hsingleton registry method⟩

theorem foldl_install (h : c.Shows registry methods) (more : List ProviderMethod) :
    (more.foldl (Container.install registry) c).Shows registry (methods ++ more) := by
  induction more generalizing c methods with
  | nil => rwa [List.append_nil]
  | cons method more ih =>
      rw [List.foldl_cons, List.append_cons]
      exact ih (h.install method)

theorem perform (h : c.Shows registry methods) (call : RegistryCall) :
    (call.perform registry c).Shows registry (call.extend methods) := by
  cases call with
  | clear => exact .of_empty (registry_clear registry c)
  | register configurations =>
      show (c.register registry configurations).2.Shows registry _
      by_cases haccepted : Acceptable configurations
      · rw [RegistryCall.extend_of_acceptable haccepted, register_of_acceptable haccepted]
        exact h.foldl_install _
      · obtain ⟨cause, hregister⟩ := register_of_not_acceptable haccepted c registry
        rw [RegistryCall.extend_of_not_acceptable haccepted, hregister]
        exact h

theorem presents (h : c.Shows registry methods)
    (hlatest : latest? ProviderMethod.provides name methods = some method) :
    c.Presents registry name method := by
  have hlookup := h.lookup name
  rw [hlatest] at hlookup
  obtain ⟨id, state, hentry, hsingleton⟩ := hlookup
  have hcontains : (c.registries registry).contains name = true := by
    rw [Registry.contains, ← Container.lookup, hentry]
    rfl
  have hget : ∀ depth, Container.get depth registry name c = readSingleton depth id c := by
    intro depth
    simp only [Container.get, resolve, hentry]
  refine ⟨hcontains, Registry.mem_names.2 hcontains, ⟨id, state, hentry, hsingleton, hget⟩, ?_⟩
  intro depth e c' herror
  rw [hget] at herror
  obtain ⟨provider, text, rfl⟩ := error_of_readSingleton herror
  rfl

theorem lacks (h : c.Shows registry methods)
    (hlatest : latest? ProviderMethod.provides name methods = none) : c.Lacks registry name := by
  have hlookup := h.lookup name
  rw [hlatest] at hlookup
  have hcontains : (c.registries registry).contains name = false := by
    rw [Registry.contains, ← Container.lookup, hlookup]
    rfl
  refine ⟨hcontains, ?_, hlookup, ?_⟩
  · rw [Registry.mem_names, hcontains]
    exact Bool.false_ne_true
  · intro depth
    simp only [Container.get, resolve, hlookup]

/-- A name is known exactly when one of the methods provides it. -/
theorem contains_iff (h : c.Shows registry methods) :
    (c.registries registry).contains name ↔ ∃ method ∈ methods, method.provides = name := by
  rw [← isSome_latest?]
  cases hlatest : latest? ProviderMethod.provides name methods with
  | some method => exact iff_of_true (h.presents hlatest).contains rfl
  | none =>
      rw [(h.lacks hlatest).contains]
      rfl

end Shows

/-! ## What an accepted call does -/

/-- What registering configuration objects does when they are accepted. -/
structure Accepts (c : Container) (registry : String) (configurations : List Configuration) :
    Prop where
  /-- The answer is the number of methods, those that provide the same name included. -/
  answer : (c.register registry configurations).1 =
    .ok (configurations.map (·.methods.length)).sum
  /-- A name that is provided gets an entry with a singleton that was not there before and is
  empty, over the body of the last method that provides the name. -/
  provided : ∀ earlier method later,
    configurations.flatMap Configuration.methods = earlier ++ method :: later →
    (∀ other ∈ later, other.provides ≠ method.provides) →
    ∃ id, c.singletons.size ≤ id ∧
      (c.register registry configurations).2.lookup registry method.provides =
        some ⟨method.provides, method.name, id⟩ ∧
      (c.register registry configurations).2.singletons[id]? =
        some ⟨method.provides, method.body, .empty⟩
  /-- All other names keep what they had. -/
  kept : ∀ name, (∀ configuration ∈ configurations, ∀ method ∈ configuration.methods,
      method.provides ≠ name) →
    (c.register registry configurations).2.lookup registry name = c.lookup registry name
  other_registries : ∀ other, other ≠ registry →
    (c.register registry configurations).2.registries other = c.registries other
  /-- Every singleton that was there is as it was, so a value that was computed is kept. -/
  singletons : ∀ (id : SingletonId) (singleton : Singleton), c.singletons[id]? = some singleton →
    (c.register registry configurations).2.singletons[id]? = some singleton
  /-- No body has been run, and nothing that a body could do was done. -/
  bodies : (c.register registry configurations).2.bodies = c.bodies
  heap : (c.register registry configurations).2.heap = c.heap
  sites : (c.register registry configurations).2.sites = c.sites
  catalog : (c.register registry configurations).2.catalog = c.catalog

/-- After installations, a name leads to a fresh singleton for the last method that provides it, or
to what it led to before. -/
theorem lookup_foldl_install (registry : String) (methods : List ProviderMethod) (c : Container)
    (name : String) :
    match latest? ProviderMethod.provides name methods with
    | some method => ∃ id, c.singletons.size ≤ id ∧
      (methods.foldl (install registry) c).lookup registry name =
        some ⟨name, method.name, id⟩ ∧
      (methods.foldl (install registry) c).singletons[id]? = some ⟨name, method.body, .empty⟩
    | none => (methods.foldl (install registry) c).lookup registry name =
      c.lookup registry name := by
  induction methods using List.reverseRecOn with
  | nil => rfl
  | append_singleton methods method ih =>
      rw [List.foldl_concat, latest?_append_singleton]
      obtain ⟨entries, hframe⟩ := foldl_install_frame registry methods c
      have hsize : c.singletons.size ≤ (methods.foldl (install registry) c).singletons.size := by
        rw [hframe, Array.size_append]
        exact Nat.le_add_right _ _
      generalize methods.foldl (install registry) c = c₁ at ih hsize ⊢
      by_cases hname : method.provides = name
      · subst hname
        rw [if_pos rfl]
        refine ⟨c₁.singletons.size, hsize, ?_, singleton?_install_self registry c₁ method⟩
        rw [lookup_install, if_pos rfl]
      · rw [if_neg hname]
        cases hlatest : latest? ProviderMethod.provides name methods with
        | none =>
            rw [hlatest] at ih
            exact (lookup_install ..).trans ((if_neg hname).trans ih)
        | some last =>
            rw [hlatest] at ih
            obtain ⟨id, hfresh, hentry, hsingleton⟩ := ih
            exact ⟨id, hfresh, (lookup_install ..).trans ((if_neg hname).trans hentry),
              singleton?_install_of_some hsingleton registry method⟩

/-- Acceptable configuration objects are accepted. -/
theorem accepts_of_acceptable {configurations : List Configuration}
    (h : Acceptable configurations) (c : Container) (registry : String) :
    c.Accepts registry configurations := by
  obtain ⟨entries, hframe⟩ :=
    foldl_install_frame registry (configurations.flatMap Configuration.methods) c
  have hregister := register_of_acceptable h c registry
  constructor
  · rw [hregister, List.length_flatMap]
  · intro earlier method later hmethods hlater
    have hlookup := lookup_foldl_install registry (configurations.flatMap Configuration.methods) c
      method.provides
    rw [latest?_eq_some.2 ⟨rfl, earlier, later, hmethods, hlater⟩] at hlookup
    rw [hregister]
    exact hlookup
  · intro name hother
    have hlookup := lookup_foldl_install registry (configurations.flatMap Configuration.methods) c
      name
    have hlatest : latest? ProviderMethod.provides name
        (configurations.flatMap Configuration.methods) = none := by
      refine latest?_eq_none.2 fun method hmethod => ?_
      obtain ⟨configuration, hconfiguration, hmethod⟩ := List.mem_flatMap.1 hmethod
      exact hother configuration hconfiguration method hmethod
    rw [hlatest] at hlookup
    rw [hregister]
    exact hlookup
  · intro other hother
    rw [hregister, hframe]
    exact if_neg hother
  · intro id singleton hsingleton
    obtain ⟨hlt, -⟩ := Array.getElem?_eq_some_iff.1 hsingleton
    rw [hregister, hframe, Array.getElem?_append_left hlt, hsingleton]
  all_goals rw [hregister, hframe]

/-! ## Histories -/

/-- From a container whose registry `registry` is empty, calls on this registry have led to the
container, with anything in between that leaves the registry alone. -/
inductive Called (registry : String) : List RegistryCall → Container → Prop
  | start {c : Container} (empty : c.registries registry = {}) : Called registry [] c
  | call {calls : List RegistryCall} {c : Container} (h : Called registry calls c)
      (call : RegistryCall) : Called registry (calls ++ [call]) (call.perform registry c)
  | between {calls : List RegistryCall} {c c' : Container} (h : Called registry calls c)
      (undisturbed : Undisturbed registry c c') : Called registry calls c'

/-- Calls one right after the other. -/
theorem Called.foldl {calls : List RegistryCall} (h : Called registry calls c)
    (more : List RegistryCall) :
    Called registry (calls ++ more) (more.foldl (RegistryCall.perform registry) c) := by
  induction more generalizing calls c with
  | nil => rwa [List.append_nil]
  | cons call more ih =>
      rw [List.append_cons]
      exact ih (h.call call)

/-- After every history, a registry shows the methods that the calls have left. -/
theorem Called.shows {calls : List RegistryCall} (h : Called registry calls c) :
    c.Shows registry (RegistryCall.installed calls) := by
  induction h with
  | start empty => exact .of_empty empty
  | call _ call ih =>
      rw [RegistryCall.installed_append_singleton]
      exact ih.perform call
  | between _ undisturbed ih => exact ih.undisturbed undisturbed

/-- **A registry refines a map.** After any history of calls on a registry, a name is present
exactly when an accepted call after the last `clear` provides it. Then every observer finds the
entry of the last method that provides it, and otherwise every observer finds none. The names are
listed in strictly ascending order of their bytes, and the size is the number of different ones. A
further call with configuration objects installs all of them and touches nothing else, or is refused
as a whole and touches nothing at all. -/
theorem Called.refines_map {calls : List RegistryCall} (h : Called registry calls c) :
    (∀ name, (c.registries registry).contains name ↔ RegistryCall.Provided calls name) ∧
    (∀ earlier method later, RegistryCall.installed calls = earlier ++ method :: later →
      (∀ other ∈ later, other.provides ≠ method.provides) →
      c.Presents registry method.provides method) ∧
    (∀ name, ¬ RegistryCall.Provided calls name → c.Lacks registry name) ∧
    (∀ name, name ∈ (c.registries registry).names ↔ RegistryCall.Provided calls name) ∧
    (c.registries registry).names.Pairwise (fun a b => Text.utf8 a < Text.utf8 b) ∧
    (c.registries registry).size =
      ((RegistryCall.installed calls).map ProviderMethod.provides).dedup.length ∧
    ((c.registries registry).isEmpty ↔ ∀ name, ¬ RegistryCall.Provided calls name) ∧
    ∀ configurations,
      (Acceptable configurations → c.Accepts registry configurations) ∧
      (¬ Acceptable configurations → ∃ cause,
        c.register registry configurations = (.error (.configuration cause), c)) := by
  have hshows := h.shows
  have hcontains : ∀ name,
      (c.registries registry).contains name ↔ RegistryCall.Provided calls name :=
    fun name => hshows.contains_iff.trans RegistryCall.provided_iff.symm
  refine ⟨hcontains, ?_, ?_, fun name => ?_, hshows.ascending, ?_, ?_, fun configurations =>
    ⟨fun haccepted => accepts_of_acceptable haccepted c registry,
      fun hrefused => register_of_not_acceptable hrefused c registry⟩⟩
  · intro earlier method later hmethods hlater
    exact hshows.presents (latest?_eq_some.2 ⟨rfl, earlier, later, hmethods, hlater⟩)
  · intro name hnot
    refine hshows.lacks (Option.not_isSome_iff_eq_none.1 fun hsome => hnot ?_)
    exact RegistryCall.provided_iff.2 (isSome_latest?.1 hsome)
  · exact Registry.mem_names.trans (hcontains name)
  · refine hshows.ascending.size_eq fun name => ?_
    rw [hshows.contains_iff, List.mem_map]
  · rw [Registry.isEmpty_iff]
    refine forall_congr' fun name => ?_
    rw [← hcontains, Bool.not_eq_true]

end Container

/-- A container with one provider body. -/
def Container.furnished : Container :=
  { bodies := #[{ routine := fun _ _ => .done (.ok (.int 7)) }] }

/-- Calls that provide names before and after a `clear`. -/
def RegistryCall.opening : List RegistryCall :=
  [.register [⟨"old", [{ provides := "thanks", name := "first", body := 0 }]⟩],
    .clear,
    .register [⟨"new", [{ provides := "greeting", name := "second", body := 0 },
      { provides := "farewell", name := "third", body := 0 }]⟩]]

/-- Calls of which the first is refused, and the second provides a name twice. -/
def RegistryCall.closing : List RegistryCall :=
  [.register [.demanding],
    .register [⟨"newer", [{ provides := "greeting", name := "sixth", body := 0 }]⟩,
      ⟨"newest", [{ provides := "greeting", name := "seventh", body := 0 }]⟩]]

/-- Between the opening and the closing calls, `farewell` is computed. -/
theorem Container.Called.refines_map_rehearsal :
    ∃ c, Called "main" (RegistryCall.opening ++ RegistryCall.closing) c ∧
      c.Presents "main" "greeting" { provides := "greeting", name := "seventh", body := 0 } ∧
      c.Presents "main" "farewell" { provides := "farewell", name := "third", body := 0 } ∧
      c.held? "main" "farewell" = some (.int 7) ∧ c.Lacks "main" "thanks" ∧
      (c.registries "main").size = 2 ∧
      (∃ cause, c.register "main" [.demanding] = (.error (.configuration cause), c)) := by
  have hopening : Called "main" RegistryCall.opening
      (RegistryCall.opening.foldl (RegistryCall.perform "main") furnished) :=
    (Called.start rfl).foldl RegistryCall.opening
  have hget : get 1 "main" "farewell"
      (RegistryCall.opening.foldl (RegistryCall.perform "main") furnished) =
        some (.ok (.int 7), _) := rfl
  have hread := hopening.between (.of_get hget (by rintro _ _ (_ | ⟨_, ⟨⟩⟩)))
  have h := hread.foldl RegistryCall.closing
  obtain ⟨-, hpresents, hlacks, -, -, hsize, -, hregister⟩ := h.refines_map
  refine ⟨_, h, hpresents [_, _, _] _ [] rfl nofun, hpresents [_] _ [_, _] rfl (by decide), rfl,
    hlacks _ ?_, ?_, ?_⟩
  · rw [RegistryCall.provided_iff]
    decide +kernel
  · rw [hsize]
    decide +kernel
  · exact (hregister [.demanding]).2 (by decide)

end LateBinding
