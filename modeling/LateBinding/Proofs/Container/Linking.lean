import LateBinding.Proofs.Container.Reading

set_option autoImplicit false

/-! # Call sites and the values that a registry holds

A registry whose providers all have their values already answers a call at once: with the value
kept under the symbol, or with the linkage error where there is none (`Container.answer`). A call
site `Serves` a symbol and a slot when it carries these two and, if it is bound, is bound to the
entry that the registry holds. `invokeSite_of_serves` proves that such a site gives the
registry's answer, and that nothing changes but bindings, all of which stay as they should be.
-/

namespace LateBinding

/-- The value of a singleton that has been computed. -/
def Singleton.value? (singleton : Singleton) : Option Value :=
  match singleton.state with
  | .full value => some value
  | .empty | .running => none

namespace Container

variable {c : Container} {registry symbol slot : String} {id : SiteId} {value : Value}

/-! ## Values that are held -/

/-- The value that the provider known under `name` in a registry keeps. -/
def held? (c : Container) (registry name : String) : Option Value := do
  let entry ← c.lookup registry name
  let singleton ← c.singletons[entry.singleton]?
  singleton.value?

/-- Every provider in a registry has its value. -/
def AllInitialized (c : Container) (registry : String) : Prop :=
  ∀ entry ∈ (c.registries registry).entries, c.isInitialized entry.singleton

/-- What a registry gives a call for the field `slot`, if its providers have their values. -/
def answer (c : Container) (registry symbol slot : String) : Except Error Value :=
  match c.held? registry symbol with
  | some value => .ok value
  | none => .error (.linkage symbol slot)

/-- A provider that has its value keeps it in its singleton. -/
theorem AllInitialized.full (h : c.AllInitialized registry) {name : String} {entry : Entry}
    (hentry : c.lookup registry name = some entry) :
    ∃ singleton value, c.singletons[entry.singleton]? = some singleton ∧
      singleton.state = .full value ∧ c.held? registry name = some value := by
  have hfull := h entry (List.mem_of_find?_eq_some hentry)
  unfold isInitialized at hfull
  cases hsingleton : c.singletons[entry.singleton]? with
  | none =>
      rw [hsingleton] at hfull
      cases hfull
  | some singleton =>
      rw [hsingleton] at hfull
      cases hstate : singleton.state with
      | empty | running =>
          simp only [Option.map_some, Option.getD_some, Singleton.isInitialized, hstate] at hfull
          cases hfull
      | full value =>
          refine ⟨singleton, value, rfl, hstate, ?_⟩
          rw [held?, hentry]
          show (c.singletons[entry.singleton]?.bind Singleton.value?) = some value
          rw [hsingleton]
          show singleton.value? = some value
          rw [Singleton.value?, hstate]

/-- Reading a provider that has its value gives it and changes nothing. -/
theorem AllInitialized.read (h : c.AllInitialized registry) {name : String} {entry : Entry}
    (hentry : c.lookup registry name = some entry) (depth : Nat) :
    readSingleton (depth + 1) entry.singleton c =
      some (c.answer registry name slot, c) := by
  obtain ⟨singleton, value, hsingleton, hstate, hheld⟩ := h.full hentry
  rw [readSingleton_of_full hsingleton hstate, answer, hheld]

/-! ## Invoking a call site -/

theorem site_of_getElem? {site : CallSite} (h : c.sites[id]? = some site) : c.site id = site := by
  rw [Container.site, Array.getD_eq_getD_getElem?, h, Option.getD_some]

/-- The call site at `id` carries the symbol and the slot, and is bound to nothing but the entry
under the symbol. -/
structure Serves (c : Container) (registry : String) (id : SiteId) (symbol slot : String) :
    Prop where
  symbol_eq : (c.site id).symbol = symbol
  slot_eq : (c.site id).slot = slot
  target : ∀ target, (c.site id).target = some target →
    ∃ entry, c.lookup registry symbol = some entry ∧ entry.singleton = target

/-- What a site serves depends on the sites and on the registries only. -/
theorem Serves.congr {c' : Container} (h : c.Serves registry id symbol slot)
    (hsites : c'.sites = c.sites) (hregistries : c'.registries = c.registries) :
    c'.Serves registry id symbol slot := by
  have hsite : c'.site id = c.site id := by rw [site, site, hsites]
  refine ⟨?_, ?_, ?_⟩ <;> rw [hsite]
  · exact h.symbol_eq
  · exact h.slot_eq
  · rw [lookup, hregistries]
    exact h.target

/-- The container with the call site at `id` bound. -/
def bind (c : Container) (id : SiteId) (target : SingletonId) : Container :=
  { c with sites := c.sites.modify id ({ · with target := some target }) }

/-- A site of the container after a binding: it is the one that was bound, or as before. -/
theorem site_bind (c : Container) (id other : SiteId) (target : SingletonId) :
    (c.bind id target).site other = c.site other ∨
      id = other ∧ (c.bind id target).site other = { c.site other with target := some target } := by
  unfold site bind
  simp only [Array.getD_eq_getD_getElem?, Array.getElem?_modify]
  by_cases heq : id = other
  · subst heq
    rw [if_pos rfl]
    cases c.sites[id]? with
    | none => exact .inl rfl
    | some old => exact .inr ⟨rfl, rfl⟩
  · rw [if_neg heq]
    exact .inl rfl

/-- A call site that is bound stays bound to what it is bound to. -/
theorem link_of_target {target : SingletonId} (h : (c.site id).target = some target)
    (registry : String) : c.link registry id = (.ok target, c) := by
  simp only [link, h]

/-- A call site that is not bound is bound to the entry under its symbol. -/
theorem link_of_lookup {entry : Entry} (h : (c.site id).target = none)
    (hentry : c.lookup registry (c.site id).symbol = some entry) :
    c.link registry id = (.ok entry.singleton, c.bind id entry.singleton) := by
  simp only [link, h, resolve, hentry, bind]

/-- Where there is no entry under its symbol, linking fails and binds nothing. -/
theorem link_of_missing (h : (c.site id).target = none)
    (hentry : c.lookup registry (c.site id).symbol = none) :
    c.link registry id = (.error (.linkage (c.site id).symbol (c.site id).slot), c) := by
  simp only [link, h, resolve, hentry]

/-- Linking gives what the site is bound to, or else what is resolved under its symbol. -/
theorem answer_link (c : Container) (registry : String) (id : SiteId) :
    (c.link registry id).1 =
      match (c.site id).target with
      | some target => .ok target
      | none => c.resolve registry (c.site id).symbol (c.site id).slot := by
  cases htarget : (c.site id).target with
  | some target => rw [link_of_target htarget]
  | none =>
      unfold resolve
      cases hentry : c.lookup registry (c.site id).symbol with
      | some entry => rw [link_of_lookup htarget hentry]
      | none => rw [link_of_missing htarget hentry]

/-- Linking changes nothing but bindings. -/
theorem link_eq_sites (c : Container) (registry : String) (id : SiteId) :
    ∃ sites, (c.link registry id).2 = { c with sites } := by
  cases htarget : (c.site id).target with
  | some target => exact ⟨c.sites, by rw [link_of_target htarget]⟩
  | none =>
      cases hentry : c.lookup registry (c.site id).symbol with
      | some entry => exact ⟨_, by rw [link_of_lookup htarget hentry]; rfl⟩
      | none => exact ⟨c.sites, by rw [link_of_missing htarget hentry]⟩

/-- An invocation of a call site that links reads the singleton. -/
theorem invokeSite_of_ok {c' : Container} {target : SingletonId}
    (h : c.link registry id = (.ok target, c')) (depth : Nat) :
    invokeSite depth registry id c = readSingleton depth target c' := by
  simp only [invokeSite, h]

/-- An invocation of a call site that does not link fails like the link. -/
theorem invokeSite_of_error {c' : Container} {e : Error}
    (h : c.link registry id = (.error e, c')) (depth : Nat) :
    invokeSite depth registry id c = some (.error e, c') := by
  simp only [invokeSite, h]

/-- A call site links, or it is not bound and there is no entry under its symbol. -/
theorem links_or_misses (c : Container) (registry : String) (id : SiteId) :
    (∃ target c', c.link registry id = (.ok target, c')) ∨
      (c.site id).target = none ∧ c.lookup registry (c.site id).symbol = none := by
  cases htarget : (c.site id).target with
  | some target => exact .inl ⟨target, c, link_of_target htarget registry⟩
  | none =>
      cases hentry : c.lookup registry (c.site id).symbol with
      | some entry => exact .inl ⟨_, _, link_of_lookup htarget hentry⟩
      | none => exact .inr ⟨rfl, rfl⟩

/-- A call site that links fails in the name of a provider only. -/
theorem provider_of_invokeSite {c₁ c' : Container} {depth : Nat} {target : SingletonId} {e : Error}
    (hlink : c.link registry id = (.ok target, c₁))
    (h : invokeSite depth registry id c = some (.error e, c')) :
    ∃ name text, e = .provider name text := by
  rw [invokeSite_of_ok hlink] at h
  exact error_of_readSingleton h

/-- A call site fails for want of a provider, or in the name of one. -/
theorem error_of_invokeSite {c' : Container} {depth : Nat} {e : Error}
    (h : invokeSite depth registry id c = some (.error e, c')) :
    e = .linkage (c.site id).symbol (c.site id).slot ∨ ∃ name text, e = .provider name text := by
  rcases c.links_or_misses registry id with ⟨target, c₁, hlink⟩ | ⟨htarget, hentry⟩
  · exact .inr (provider_of_invokeSite hlink h)
  · rw [invokeSite_of_error (link_of_missing htarget hentry)] at h
    cases h
    exact .inl rfl

/-- A call site fails for want of a provider exactly where it is not bound and there is no entry
under its symbol, and then nothing is changed. -/
theorem invokeSite_eq_linkage {c' : Container} {depth : Nat} :
    invokeSite depth registry id c = some (.error (.linkage symbol slot), c') ↔
      (c.site id).target = none ∧ c.lookup registry (c.site id).symbol = none ∧
        symbol = (c.site id).symbol ∧ slot = (c.site id).slot ∧ c' = c := by
  constructor
  · intro h
    rcases c.links_or_misses registry id with ⟨target, c₁, hlink⟩ | ⟨htarget, hentry⟩
    · obtain ⟨_, _, hprovider⟩ := provider_of_invokeSite hlink h
      cases hprovider
    · rw [invokeSite_of_error (link_of_missing htarget hentry)] at h
      cases h
      exact ⟨htarget, hentry, rfl, rfl, rfl⟩
  · rintro ⟨htarget, hentry, rfl, rfl, rfl⟩
    exact invokeSite_of_error (link_of_missing htarget hentry) depth

/-- Binding a site to the entry under its symbol leaves all sites as they should be. -/
theorem Serves.bind {entry : Entry} {target : SingletonId} {other : SiteId}
    {symbol' slot' : String} (h : c.Serves registry id symbol slot)
    (hentry : c.lookup registry symbol = some entry) (htarget : entry.singleton = target)
    (hother : c.Serves registry other symbol' slot') :
    (c.bind id target).Serves registry other symbol' slot' := by
  rcases c.site_bind id other target with hsite | ⟨rfl, hsite⟩
  · refine ⟨?_, ?_, ?_⟩ <;> rw [hsite]
    · exact hother.symbol_eq
    · exact hother.slot_eq
    · exact hother.target
  · refine ⟨?_, ?_, ?_⟩ <;> rw [hsite]
    · exact hother.symbol_eq
    · exact hother.slot_eq
    · intro found hfound
      cases hfound
      refine ⟨entry, ?_, htarget⟩
      have hsymbol : symbol = symbol' := h.symbol_eq.symm.trans hother.symbol_eq
      exact hsymbol ▸ hentry

/-- **A call site that serves a symbol gives what the registry holds under it.** Nothing changes
but the bindings of call sites, and each site serves what it served before. -/
theorem invokeSite_of_serves (hfull : c.AllInitialized registry)
    (h : c.Serves registry id symbol slot) (depth : Nat) :
    ∃ sites, invokeSite (depth + 1) registry id c =
        some (c.answer registry symbol slot, { c with sites }) ∧
      ∀ other symbol' slot', c.Serves registry other symbol' slot' →
        { c with sites }.Serves registry other symbol' slot' := by
  cases hbound : (c.site id).target with
  | some target =>
      obtain ⟨entry, hentry, rfl⟩ := h.target target hbound
      refine ⟨c.sites, ?_, fun _ _ _ hother => hother⟩
      rw [invokeSite_of_ok (link_of_target hbound registry)]
      exact hfull.read hentry depth
  | none =>
      cases hentry : c.lookup registry symbol with
      | some entry =>
          refine ⟨(c.bind id entry.singleton).sites, ?_, fun _ _ _ => h.bind hentry rfl⟩
          rw [invokeSite_of_ok (link_of_lookup hbound (h.symbol_eq ▸ hentry))]
          -- the container with the site bound holds the same values
          exact AllInitialized.read (c := c.bind id entry.singleton) hfull hentry depth
      | none =>
          have hheld : c.held? registry symbol = none := by
            rw [held?, hentry]
            rfl
          refine ⟨c.sites, ?_, fun _ _ _ hother => hother⟩
          rw [invokeSite_of_error (link_of_missing hbound (h.symbol_eq ▸ hentry)), h.symbol_eq,
            h.slot_eq, answer, hheld]

end Container

end LateBinding
