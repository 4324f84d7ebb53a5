import LateBinding.Proofs.Session.Rules

set_option autoImplicit false

/-! # A call site is bound once

In a session a call site is linked and invoked by way of different registries, by operations and
by methods, while names come and go. `Event.found?` is the entry that a use of the site finds, and
`firstFound` the first such entry in a log. The site is bound to this entry and to no other:
`Operation.site_bound_once` says so for the container after the session and for each one in which
the site is used.
-/

namespace LateBinding

/-! ## What a use finds -/

/-- The entry that a use of the call site at `id` finds under its symbol. -/
def Event.found? (id : SiteId) (symbol : String) : Event → Option Entry
  | .used site registry before => if site = id then before.lookup registry symbol else none
  | .installed _ _ _ | .read _ _ _ => none

/-- The first entry that a use of the call site at `id` finds under its symbol. -/
def firstFound (id : SiteId) (symbol : String) (log : List Event) : Option Entry :=
  log.findSome? (·.found? id symbol)

/-- The call site after its use by way of a registry. -/
def CallSite.usedBy (site : CallSite) (registry : String) (before : Container) : CallSite :=
  match site.target, before.lookup registry site.symbol with
  | none, some entry => { site with target := some entry.singleton }
  | none, none | some _, _ => site

/-- What an event makes of the call site at `id`: only its uses concern it. -/
inductive SiteStep (id : SiteId) : Event → CallSite → CallSite → Prop
  | used {registry : String} {before : Container} {site : CallSite}
      (here : before.sites[id]? = some site) :
      SiteStep id (.used id registry before) site (site.usedBy registry before)
  | other {event : Event} (site : CallSite)
      (unused : ∀ registry before, event ≠ .used id registry before) : SiteStep id event site site

namespace Container

variable {c : Container} {registry : String} {id other : SiteId} {site : CallSite}

/-- Linking a call site is a use of it. -/
theorem site?_link_self (registry : String) (h : c.sites[id]? = some site) :
    (c.link registry id).2.sites[id]? = some (site.usedBy registry c) := by
  have hsite := site_of_getElem? h
  unfold CallSite.usedBy
  cases htarget : site.target with
  | some target =>
      rw [link_of_target (hsite ▸ htarget)]
      exact h
  | none =>
      cases hentry : c.lookup registry site.symbol with
      | some entry =>
          rw [link_of_lookup (hsite ▸ htarget) (hsite ▸ hentry)]
          simp only [bind, Array.getElem?_modify, if_true, h, Option.map_some]
      | none =>
          rw [link_of_missing (hsite ▸ htarget) (hsite ▸ hentry)]
          exact h

/-- Linking a call site binds it to what is answered, if anything is. -/
theorem site?_link (h : c.sites[id]? = some site) (registry : String) :
    (c.link registry id).2.sites[id]? =
      some { site with target := (c.link registry id).1.toOption } := by
  rw [site?_link_self registry h, answer_link, site_of_getElem? h]
  obtain ⟨symbol, slot, target⟩ := site
  unfold CallSite.usedBy resolve
  cases target with
  | some target => rfl
  | none => cases c.lookup registry symbol <;> rfl

/-- Linking a call site leaves all others as they are. -/
theorem site?_link_of_ne (h : other ≠ id) :
    (c.link registry other).2.sites[id]? = c.sites[id]? := by
  simp only [link]
  split
  · rfl
  · split
    · rw [Array.getElem?_modify, if_neg h]
    · rfl

end Container

/-! ## Call sites in a session -/

/-- The call site at `id` stays, and is changed by its uses only. -/
def FollowsSite (id : SiteId) (c : Container) (log : List Event) (c' : Container) : Prop :=
  ∀ site, c.sites[id]? = some site →
    ∃ site', c'.sites[id]? = some site' ∧ Trace (SiteStep id) log site site'

namespace FollowsSite

variable {id : SiteId} {c c₁ c' : Container} {log log' : List Event}

theorem trans (h : FollowsSite id c log c₁) (h' : FollowsSite id c₁ log' c') :
    FollowsSite id c (log ++ log') c' := by
  intro site hsite
  obtain ⟨site₁, hsite₁, htrace⟩ := h site hsite
  obtain ⟨site', hsite', htrace'⟩ := h' site₁ hsite₁
  exact ⟨site', hsite', htrace.append htrace'⟩

/-- Where the call sites are kept, nothing that happens concerns them if it is no use. -/
theorem of_event {event : Event} (hsites : c'.sites = c.sites)
    (hevent : ∀ registry before, event ≠ .used id registry before) :
    FollowsSite id c [event] c' := by
  intro site hsite
  exact ⟨site, by rw [hsites, hsite], .single (.other site hevent)⟩

theorem of_sites (hsites : c'.sites = c.sites) : FollowsSite id c [] c' := by
  intro site hsite
  exact ⟨site, by rw [hsites, hsite], .nil site⟩

/-- A use of a call site. -/
theorem link (id : SiteId) (c : Container) (registry : String) (other : SiteId) :
    FollowsSite id c [.used other registry c] (c.link registry other).2 := by
  intro site hsite
  by_cases heq : other = id
  · subst heq
    exact ⟨_, Container.site?_link_self registry hsite, .single (.used hsite)⟩
  · refine ⟨site, ?_, .single (.other site ?_)⟩
    · rw [Container.site?_link_of_ne heq, hsite]
    · intro _ _ hevent
      cases hevent
      exact heq rfl

theorem addSite (id : SiteId) (c : Container) (symbol slot : String) :
    FollowsSite id c [] (c.addSite symbol slot).2 := by
  intro site hsite
  refine ⟨site, ?_, .nil site⟩
  obtain ⟨hlt, hget⟩ := Array.getElem?_eq_some_iff.1 hsite
  rw [← hget]
  exact Array.getElem?_push_lt hlt

/-- A body that is run can do nothing to call sites. -/
theorem miss {other : SingletonId} {singleton : Singleton} {body : Body}
    (outcome : Except Error Value)
    (h : FollowsSite id ((c.setState other .running).counted singleton.body body) log c₁) :
    FollowsSite id c (log ++ [.read other singleton.body (.ofRun singleton.name outcome)])
      (c₁.setState other (.after outcome)) := by
  have hrun : FollowsSite id c log c₁ := h
  exact hrun.trans (of_event rfl nofun)

/-- Everything in a session leaves the call site to its uses. -/
theorem rule (id : SiteId) : SessionRule (FollowsSite id) where
  refl _ := of_sites rfl
  trans := trans
  heap _ _ := of_sites rfl
  install _ _ _ := of_event rfl nofun
  hit _ _ := of_event rfl nofun
  miss outcome _ _ _ hrun := miss outcome hrun
  addBody _ _ := of_sites rfl
  define _ _ _ := of_sites rfl
  clear _ _ := of_sites rfl
  addSite := addSite id
  link := link id

end FollowsSite

/-! ## What the site is bound to -/

section Trace

variable {id : SiteId} {site site' : CallSite} {log : List Event}

/-- A site that is bound stays as it is. -/
theorem CallSite.eq_of_bound (h : Trace (SiteStep id) log site site') {target : SingletonId}
    (htarget : site.target = some target) : site' = site := by
  induction h with
  | nil _ => rfl
  | cons first _ ih =>
      cases first with
      | used _ =>
          rw [CallSite.usedBy, htarget] at ih
          exact ih htarget
      | other _ _ => exact ih htarget

/-- A site that is not bound is bound to the first entry that is found. -/
theorem CallSite.eq_of_unbound (h : Trace (SiteStep id) log site site')
    (htarget : site.target = none) :
    site' = { site with target := (firstFound id site.symbol log).map Entry.singleton } := by
  induction h with
  | nil site =>
      obtain ⟨symbol, slot, target⟩ := site
      cases htarget
      rfl
  | @cons event log site after site' first rest ih =>
      cases first with
      | @used registry before _ here =>
          have hfound : Event.found? id site.symbol (.used id registry before) =
              before.lookup registry site.symbol := if_pos rfl
          rw [firstFound, List.findSome?_cons, hfound]
          cases hentry : before.lookup registry site.symbol with
          | some entry =>
              have hused : site.usedBy registry before =
                  { site with target := some entry.singleton } := by
                simp only [CallSite.usedBy, htarget, hentry]
              rw [hused] at rest
              exact CallSite.eq_of_bound rest rfl
          | none =>
              have hused : site.usedBy registry before = site := by
                simp only [CallSite.usedBy, htarget, hentry]
              rw [hused] at ih
              exact ih htarget
      | other _ unused =>
          have hfound : event.found? id site.symbol = none := by
            cases event with
            | used other registry before =>
                have hne : other ≠ id := fun heq => unused registry before (heq ▸ rfl)
                exact if_neg hne
            | installed _ _ _ | read _ _ _ => rfl
          rw [firstFound, List.findSome?_cons, hfound]
          exact ih htarget

end Trace

namespace Container

/-- The call site at `id` is bound: whatever registry it is asked to use, it gives what the
singleton gives. -/
structure Bound (c : Container) (id : SiteId) (target : SingletonId) : Prop where
  link : ∀ registry, c.link registry id = (.ok target, c)
  invoke : ∀ depth registry, invokeSite depth registry id c = readSingleton depth target c

/-- By way of this registry, the call site at `id` is bound now, and gives what the singleton
gives. -/
structure Binds (c : Container) (registry : String) (id : SiteId) (target : SingletonId) :
    Prop where
  link : c.link registry id = (.ok target, c.bind id target)
  invoke : ∀ depth, invokeSite depth registry id c = readSingleton depth target (c.bind id target)

/-- By way of this registry, the call site at `id` fails for want of a provider, and is not
bound. -/
structure Refuses (c : Container) (registry : String) (id : SiteId) (symbol slot : String) :
    Prop where
  link : c.link registry id = (.error (.linkage symbol slot), c)
  invoke : ∀ depth,
    invokeSite depth registry id c = some (.error (.linkage symbol slot), c)

variable {c : Container} {registry : String} {id : SiteId} {site : CallSite}

theorem bound_of_target {target : SingletonId} (h : c.sites[id]? = some site)
    (htarget : site.target = some target) : c.Bound id target := by
  have hsite : (c.site id).target = some target := by rw [site_of_getElem? h, htarget]
  exact ⟨link_of_target hsite, fun depth registry =>
    invokeSite_of_ok (link_of_target hsite registry) depth⟩

theorem binds_of_lookup {entry : Entry} (h : c.sites[id]? = some site)
    (htarget : site.target = none) (hentry : c.lookup registry site.symbol = some entry) :
    c.Binds registry id entry.singleton := by
  have hsite := site_of_getElem? h
  have hlink := link_of_lookup (hsite ▸ htarget) (hsite ▸ hentry)
  exact ⟨hlink, invokeSite_of_ok hlink⟩

theorem refuses_of_missing (h : c.sites[id]? = some site) (htarget : site.target = none)
    (hentry : c.lookup registry site.symbol = none) :
    c.Refuses registry id site.symbol site.slot := by
  have hsite := site_of_getElem? h
  have hlink := link_of_missing (hsite ▸ htarget) (hsite ▸ hentry)
  rw [hsite] at hlink
  exact ⟨hlink, invokeSite_of_error hlink⟩

end Container

/-- **A call site is bound once.** Take a call site that is not bound, and any session. The site is
bound to the first entry that a link or an invocation of it finds under its symbol, by whatever
registry, and to nothing else. In the container after the session and in each one in which the
site is used, this holds with the part of the session up to there: if an entry was found, the site
gives what the singleton of this entry gives, by way of every registry. If none was found yet, a
use binds the site to the entry that it finds now, or fails with the linkage error of the site's
symbol and slot and changes nothing. -/
theorem Operation.site_bound_once {depth : Nat} {ops : List Operation} {c c' : Container}
    {id : SiteId} {site : CallSite} (hsite : c.sites[id]? = some site)
    (hunbound : site.target = none) (h : performAll depth ops c = some c') :
    c'.sites[id]? = some { site with
      target := (firstFound id site.symbol (logAll depth ops c)).map Entry.singleton } ∧
    (∀ entry, firstFound id site.symbol (logAll depth ops c) = some entry →
      c'.Bound id entry.singleton) ∧
    ∀ earlier registry before later,
      logAll depth ops c = earlier ++ .used id registry before :: later →
      before.sites[id]? = some { site with
        target := (firstFound id site.symbol earlier).map Entry.singleton } ∧
      (∀ entry, firstFound id site.symbol earlier = some entry →
        before.Bound id entry.singleton) ∧
      (firstFound id site.symbol earlier = none →
        (∀ entry, before.lookup registry site.symbol = some entry →
          before.Binds registry id entry.singleton) ∧
        (before.lookup registry site.symbol = none →
          before.Refuses registry id site.symbol site.slot)) := by
  obtain ⟨site', hsite', htrace⟩ := (FollowsSite.rule id).performAll h site hsite
  obtain rfl := CallSite.eq_of_unbound htrace hunbound
  refine ⟨hsite', ?_, ?_⟩
  · intro entry hfound
    exact Container.bound_of_target hsite' (by rw [hfound]; rfl)
  · intro earlier registry before later hlog
    rw [hlog] at htrace
    obtain ⟨now, after, hearlier, huse, -⟩ := htrace.split
    obtain rfl := CallSite.eq_of_unbound hearlier hunbound
    have hnow : before.sites[id]? = some { site with
        target := (firstFound id site.symbol earlier).map Entry.singleton } := by
      cases huse with
      | used here => exact here
      | other _ unused => exact absurd rfl (unused registry before)
    refine ⟨hnow, ?_, ?_⟩
    · intro entry hfound
      exact Container.bound_of_target hnow (by rw [hfound]; rfl)
    · intro hnone
      have htarget : (firstFound id site.symbol earlier).map Entry.singleton = none := by
        rw [hnone]
        rfl
      constructor
      · intro entry hentry
        exact Container.binds_of_lookup hnow htarget hentry
      · intro hentry
        have hrefuses := Container.refuses_of_missing hnow htarget hentry
        exact hrefuses

/-- A container with a call site that waits for a provider. -/
def Container.waiting : Container where
  sites := #[{ symbol := "symbol", slot := "slot" }]

/-- A session in which the call site asks in vain, is bound to a provider that fails, and is asked
again by way of another registry, after the name has got a provider that works and was cleared. -/
def Operation.rebinding : List Operation :=
  [.addBody fun _ _ => .done (.error (.internal "broken")),
    .addBody fun _ _ => .done (.ok (.int 1)),
    .link "main" 0,
    .register "main" [⟨"first", [{ provides := "symbol", name := "fails", body := 0 }]⟩],
    .read (.site "main" 0),
    .register "main" [⟨"second", [{ provides := "symbol", name := "works", body := 1 }]⟩],
    .clear "main",
    .read (.site "other" 0)]

theorem Operation.site_bound_once_rebinding :
    ∃ c', performAll 1 rebinding Container.waiting = some c' ∧
      firstFound 0 "symbol" (logAll 1 rebinding Container.waiting) =
        some ⟨"symbol", "fails", 0⟩ ∧
      c'.sites[0]? = some ⟨"symbol", "slot", some 0⟩ ∧ c'.Bound 0 0 ∧
      ∀ earlier registry before later,
        logAll 1 rebinding Container.waiting = earlier ++ .used 0 registry before :: later →
        before.sites[0]? = some ⟨"symbol", "slot",
          (firstFound 0 "symbol" earlier).map Entry.singleton⟩ ∧
        (∀ entry, firstFound 0 "symbol" earlier = some entry → before.Bound 0 entry.singleton) ∧
        (firstFound 0 "symbol" earlier = none →
          (∀ entry, before.lookup registry "symbol" = some entry →
            before.Binds registry 0 entry.singleton) ∧
          (before.lookup registry "symbol" = none →
            before.Refuses registry 0 "symbol" "slot")) := by
  have hsite : Container.waiting.sites[0]? = some { symbol := "symbol", slot := "slot" } := rfl
  have hperform : performAll 1 rebinding Container.waiting = some _ := rfl
  have hfound : firstFound 0 "symbol" (logAll 1 rebinding Container.waiting) =
      some ⟨"symbol", "fails", 0⟩ := rfl
  obtain ⟨hafter, hbound, huses⟩ := site_bound_once hsite rfl hperform
  exact ⟨_, hperform, hfound, hafter, hbound _ hfound, huses⟩

end LateBinding
