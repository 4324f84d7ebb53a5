import LateBinding.Proofs.Threads.Client

set_option autoImplicit false

/-! # Registrations that overlap

What the programs of the clients lead to is known in advance: the insertions of all methods of all
calls that are accepted, for each client in the order of its program (`Client.plan`). Along every
schedule, what a client has inserted and what it still owes is what it planned (`Follows`). With the
agreement of container and log, this is what clients can rely on while registrations overlap
(`Client.Coherent`), and `Client.run_coherent` proves it of every run.
-/

namespace LateBinding

variable {log : List Action} {action : Action} {x : Insertion} {id : SingletonId}
  {c c₀ c' : Container}

/-! ## Where the clients are -/

/-- The method at `x.index` of an accepted call that the program of a client makes. -/
def Planned (programs : List (List Request)) (x : Insertion) : Prop :=
  ∃ program configurations, programs[x.client]? = some program ∧
    program[x.request]? = some (.register x.registry configurations) ∧
    Acceptable configurations ∧
    (configurations.flatMap Configuration.methods)[x.index]? = some x.method

/-- The client is to make `x` before `y`. -/
def Insertion.Before (x y : Insertion) : Prop :=
  x.request < y.request ∨ x.request = y.request ∧ x.index < y.index

theorem Insertion.Before.irrefl (x : Insertion) : ¬ x.Before x := by
  unfold Before
  omega

theorem Insertion.Before.asymm {x y : Insertion} (h : x.Before y) : ¬ y.Before x := by
  unfold Before at *
  omega

/-- The insertions that requests lead to, where `first` is the number of the first request. -/
def Client.plan (turn : Nat) : (first : Nat) → List Request → List Insertion
  | _, [] => []
  | first, request :: program =>
    request.insertions turn first ++ plan turn (first + 1) program

/-- The insertions that a client still has to make. -/
def Client.owed (turn : Nat) (client : Client) : List Insertion :=
  client.pending ++ plan turn client.started client.program

/-- The insertion that the client at `turn` makes with an action. -/
def Action.insertion? (turn : Nat) : Action → Option Insertion
  | inserted x _ => if x.client = turn then some x else none
  | validated _ _ | cleared _ | found _ _ _ | linked _ _ _ => none

section Plans

variable {turn first : Nat} {program : List Request} {request : Request}

theorem Request.mem_insertions : x ∈ request.insertions turn first ↔
    x.client = turn ∧ x.request = first ∧ ∃ configurations,
      request = .register x.registry configurations ∧ Acceptable configurations ∧
      (configurations.flatMap Configuration.methods)[x.index]? = some x.method := by
  cases request with
  | clear _ | lookup _ _ | link _ _ => exact iff_of_false nofun nofun
  | register registry configurations =>
      by_cases haccepted : Acceptable configurations
      · rw [insertions_of_acceptable haccepted, List.mem_mapIdx]
        constructor
        · rintro ⟨index, hlt, rfl⟩
          exact ⟨rfl, rfl, configurations, rfl, haccepted, List.getElem?_eq_getElem hlt⟩
        · rintro ⟨rfl, rfl, _, heq, -, hmethod⟩
          cases heq
          obtain ⟨hlt, hget⟩ := List.getElem?_eq_some_iff.1 hmethod
          exact ⟨x.index, hlt, by rw [hget]⟩
      · rw [insertions_of_not_acceptable haccepted]
        refine iff_of_false List.not_mem_nil ?_
        rintro ⟨-, -, _, heq, haccepted', -⟩
        cases heq
        exact haccepted haccepted'

/-- The methods of one call are inserted in order. -/
theorem Request.pairwise_insertions (request : Request) (turn first : Nat) :
    (request.insertions turn first).Pairwise Insertion.Before := by
  cases request with
  | clear _ | lookup _ _ | link _ _ => exact .nil
  | register registry configurations =>
      by_cases haccepted : Acceptable configurations
      · rw [insertions_of_acceptable haccepted, List.pairwise_iff_getElem]
        intro i j hi hj hlt
        rw [List.getElem_mapIdx, List.getElem_mapIdx]
        exact .inr ⟨rfl, hlt⟩
      · rw [insertions_of_not_acceptable haccepted]
        exact .nil

theorem Client.mem_plan : x ∈ plan turn first program ↔
    x.client = turn ∧ ∃ offset configurations, x.request = first + offset ∧
      program[offset]? = some (.register x.registry configurations) ∧
      Acceptable configurations ∧
      (configurations.flatMap Configuration.methods)[x.index]? = some x.method := by
  induction program generalizing first with
  | nil =>
      refine iff_of_false List.not_mem_nil ?_
      rintro ⟨-, offset, _, -, hrequest, -⟩
      cases hrequest
  | cons request program ih =>
      rw [plan, List.mem_append, Request.mem_insertions, ih]
      constructor
      · rintro (⟨hclient, hfirst, configurations, rfl, hmethod⟩ |
          ⟨hclient, offset, configurations, hoffset, hmethod⟩)
        · exact ⟨hclient, 0, configurations, hfirst, rfl, hmethod⟩
        · exact ⟨hclient, offset + 1, configurations, by omega, hmethod⟩
      · rintro ⟨hclient, offset, configurations, hoffset, hrequest, hmethod⟩
        cases offset with
        | zero => exact .inl ⟨hclient, hoffset, configurations, Option.some.inj hrequest, hmethod⟩
        | succ offset =>
            exact .inr ⟨hclient, offset, configurations, by omega, hrequest, hmethod⟩

theorem Client.pairwise_plan (turn first : Nat) (program : List Request) :
    (plan turn first program).Pairwise Insertion.Before := by
  induction program generalizing first with
  | nil => exact .nil
  | cons request program ih =>
      refine List.pairwise_append.2 ⟨request.pairwise_insertions turn first, ih (first + 1), ?_⟩
      intro x hx y hy
      -- `x` is of the first request, and `y` of a later one
      obtain ⟨-, hfirst, -⟩ := Request.mem_insertions.1 hx
      obtain ⟨-, offset, _, hlater, -⟩ := Client.mem_plan.1 hy
      exact .inl (by omega)

end Plans

/-- What a program plans is what is planned for its client. -/
theorem planned_iff {programs : List (List Request)} {program : List Request}
    (h : programs[x.client]? = some program) :
    Planned programs x ↔ x ∈ Client.plan x.client 0 program := by
  rw [Client.mem_plan]
  constructor
  · rintro ⟨_, configurations, hprogram, hrequest⟩
    cases h.symm.trans hprogram
    exact ⟨rfl, x.request, configurations, (Nat.zero_add _).symm, hrequest⟩
  · rintro ⟨-, offset, configurations, hoffset, hrequest⟩
    obtain rfl : x.request = offset := by omega
    exact ⟨program, configurations, h, hrequest⟩

/-- A step of a client makes the first of the insertions that it owes, or none. -/
theorem Client.owed_of_move {turn : Nat} {client client' : Client}
    (hturn : ∀ x ∈ client.owed turn, x.client = turn)
    (h : client.move turn c = some (action, client', c')) :
    (action.insertion? turn).toList ++ client'.owed turn = client.owed turn ∧
      ∀ x id, action = .inserted x id → x ∈ client.owed turn := by
  obtain ⟨x, hpending, hstarted, hprogram, rfl, -⟩ |
    ⟨request, hpending, hprogram, hpending', hstarted, hstart⟩ := Client.move_eq_some h
  · have hmem : x ∈ client.owed turn := by
      rw [owed, hpending]
      exact List.mem_append_left _ (List.mem_cons_self ..)
    constructor
    · rw [Action.insertion?, if_pos (hturn x hmem), owed, owed, hpending, hstarted, hprogram]
      rfl
    · rintro _ _ ⟨⟩
      exact hmem
  · have hquiet : ∀ x id, action ≠ .inserted x id := by
      rintro x id rfl
      cases request <;> cases hstart
    have hnone : action.insertion? turn = none := by
      cases action with
      | inserted x id => exact absurd rfl (hquiet x id)
      | validated _ _ | cleared _ | found _ _ _ | linked _ _ _ => rfl
    constructor
    · rw [hnone, owed, owed, hpending, hprogram, hpending', hstarted]
      rfl
    · intro x id heq
      exact absurd heq (hquiet x id)

/-- What each client has inserted and what it still has to insert is what it planned. -/
structure Follows (programs : List (List Request)) (log : List Action) (clients : List Client) :
    Prop where
  length : clients.length = programs.length
  planned : ∀ x id, .inserted x id ∈ log → Planned programs x
  clients : ∀ turn client program, clients[turn]? = some client →
    programs[turn]? = some program →
    log.filterMap (Action.insertion? turn) ++ client.owed turn = Client.plan turn 0 program

namespace Follows

variable {programs : List (List Request)} {clients : List Client}

theorem start (programs : List (List Request)) (c : Container) :
    Follows programs [] (Client.system c programs).threads := by
  refine ⟨List.length_map _, nofun, ?_⟩
  intro turn client program hclient hprogram
  rw [Client.system, List.getElem?_map, hprogram] at hclient
  cases hclient
  rfl

/-- A client keeps to its program, and does not hinder others. -/
theorem move (h : Follows programs log clients) {turn : Nat} {client client' : Client}
    (hclient : clients[turn]? = some client)
    (hmove : client.move turn c = some (action, client', c')) :
    Follows programs (log ++ [action]) (clients.set turn client') := by
  obtain ⟨hlt, -⟩ := List.getElem?_eq_some_iff.1 hclient
  obtain ⟨program, hprogram⟩ : ∃ program, programs[turn]? = some program :=
    ⟨_, List.getElem?_eq_getElem (h.length ▸ hlt)⟩
  have hplan := h.clients turn client program hclient hprogram
  have hplanned : ∀ x ∈ client.owed turn, x ∈ Client.plan turn 0 program :=
    fun x hx => hplan ▸ List.mem_append_right _ hx
  have hturn : ∀ x ∈ client.owed turn, x.client = turn :=
    fun x hx => (Client.mem_plan.1 (hplanned x hx)).1
  obtain ⟨howed, hinserted⟩ := Client.owed_of_move hturn hmove
  refine ⟨by rw [List.length_set, h.length], ?_, ?_⟩
  · intro x id hmem
    rcases List.mem_append.1 hmem with hold | hnew
    · exact h.planned x id hold
    · have hx := hinserted x id (List.mem_singleton.1 hnew).symm
      obtain rfl := hturn x hx
      exact (planned_iff hprogram).2 (hplanned x hx)
  · intro other client'' program'' hother hprogram''
    rw [List.filterMap_append]
    by_cases heq : turn = other
    · subst heq
      rw [List.getElem?_set_self hlt] at hother
      cases hother
      cases hprogram.symm.trans hprogram''
      have hsingle : [action].filterMap (Action.insertion? turn) =
          (action.insertion? turn).toList := by
        cases haction : action.insertion? turn <;> simp [haction]
      rw [hsingle, List.append_assoc, howed, hplan]
    · rw [List.getElem?_set_ne heq] at hother
      have hnone : action.insertion? other = none := by
        cases action with
        | inserted x id =>
            have hx := hturn x (hinserted x id rfl)
            exact if_neg fun h => heq (hx.symm.trans h)
        | validated _ _ | cleared _ | found _ _ _ | linked _ _ _ => rfl
      rw [List.filterMap_cons, hnone, List.filterMap_nil, List.append_nil]
      exact h.clients other client'' program'' hother hprogram''

theorem exists_inserted {turn : Nat} {log : List Action}
    (h : x ∈ log.filterMap (Action.insertion? turn)) : ∃ id, .inserted x id ∈ log := by
  obtain ⟨action, hmem, hx⟩ := List.mem_filterMap.1 h
  cases action with
  | inserted y id =>
      rw [Action.insertion?, Option.ite_none_right_eq_some, Option.some.injEq] at hx
      obtain ⟨-, rfl⟩ := hx
      exact ⟨id, hmem⟩
  | validated _ _ | cleared _ | found _ _ _ | linked _ _ _ => cases hx

/-- Before a client makes an insertion, it has made all that come before it in its program. -/
theorem before_inserted {earlier later : List Action} {x y : Insertion} {id : SingletonId}
    (h : Follows programs (earlier ++ .inserted x id :: later) clients) (hy : Planned programs y)
    (hclient : y.client = x.client) (hbefore : y.Before x) : ∃ id, .inserted y id ∈ earlier := by
  have ⟨program, _, hprogram, _⟩ := hy
  obtain ⟨hlt, -⟩ := List.getElem?_eq_some_iff.1 hprogram
  obtain ⟨client, hmove⟩ : ∃ client, clients[y.client]? = some client :=
    ⟨_, List.getElem?_eq_getElem (h.length ▸ hlt)⟩
  have hplan := h.clients y.client client program hmove hprogram
  have hx : Action.insertion? y.client (.inserted x id) = some x := if_pos hclient.symm
  rw [List.filterMap_append, List.filterMap_cons, hx, List.append_assoc, List.cons_append] at hplan
  -- what the client has made and what it owes stand in the order of its program, around `x`
  have hmem := (planned_iff hprogram).1 hy
  have hordered := Client.pairwise_plan y.client 0 program
  rw [← hplan] at hmem hordered
  obtain ⟨-, hrest, -⟩ := List.pairwise_append.1 hordered
  rcases List.mem_append.1 hmem with hmem | hmem
  · exact exists_inserted hmem
  · rcases List.mem_cons.1 hmem with rfl | hmem
    · exact absurd hbefore (Insertion.Before.irrefl y)
    · exact absurd hbefore ((List.pairwise_cons.1 hrest).1 y hmem).asymm

/-- When a client has nothing left to do, it has made every insertion that it planned. -/
theorem inserted_of_finished (h : Follows programs log clients)
    (hfinished : ∀ client ∈ clients, client.pending = [] ∧ client.program = [])
    (hx : Planned programs x) : ∃ id, .inserted x id ∈ log := by
  have ⟨program, _, hprogram, _⟩ := hx
  obtain ⟨hlt, -⟩ := List.getElem?_eq_some_iff.1 hprogram
  obtain ⟨client, hclient⟩ : ∃ client, clients[x.client]? = some client :=
    ⟨_, List.getElem?_eq_getElem (h.length ▸ hlt)⟩
  obtain ⟨hpending, hrest⟩ := hfinished client (List.mem_of_getElem? hclient)
  have hplan := h.clients x.client client program hclient hprogram
  rw [Client.owed, hpending, hrest, Client.plan, List.append_nil, List.append_nil] at hplan
  exact exists_inserted (hplan ▸ (planned_iff hprogram).1 hx)

end Follows

/-! ## Runs -/

/-- A client that cannot move has nothing left to do. -/
theorem Client.move_eq_none {turn : Nat} {client : Client} :
    client.move turn c = none ↔ client.pending = [] ∧ client.program = [] := by
  obtain ⟨pending, started, program⟩ := client
  cases pending with
  | cons x pending => exact iff_of_false nofun nofun
  | nil =>
      cases program with
      | cons request program => exact iff_of_false nofun nofun
      | nil => exact iff_of_true rfl ⟨rfl, rfl⟩

/-- When no client can move, all have finished. -/
theorem Client.atRest_iff {s : System Container Client} : s.AtRest Client.move ↔
    ∀ client ∈ s.threads, client.pending = [] ∧ client.program = [] := by
  constructor
  · intro h client hmem
    obtain ⟨turn, hclient⟩ := List.getElem?_of_mem hmem
    exact Client.move_eq_none.1 (h.move_eq_none hclient)
  · intro h turn
    refine System.step_eq_none.2 fun client hclient => ?_
    exact Client.move_eq_none.2 (h client (List.mem_of_getElem? hclient))

/-- Each step of the clients keeps the container in agreement with the log, keeps the clients to
their programs, and is justified itself. -/
theorem Client.preserves (c₀ : Container) (programs : List (List Request)) :
    System.Preserves Client.move fun log s => Agrees c₀ log s.shared ∧
      Follows programs log s.threads ∧ Throughout (Action.Justified c₀) log := by
  rintro log s turn action s' ⟨hagrees, hfollows, hjustified⟩ hstep
  obtain ⟨client, client', hclient, hmove, hthreads⟩ := System.step_eq_some.1 hstep
  have hdoes := Client.does_of_move hmove
  refine ⟨hagrees.does hdoes, ?_, hjustified.concat (hagrees.justified hdoes)⟩
  rw [hthreads]
  exact hfollows.move hclient hmove

/-- No two insertions get the same singleton. -/
theorem inserted_unique (h : Throughout (Action.Justified c₀) log) {x y : Insertion}
    (hx : .inserted x id ∈ log) (hy : .inserted y id ∈ log) : x = y := by
  obtain ⟨earlier, later, rfl⟩ := List.append_of_mem hx
  rcases List.mem_append.1 hy with hy | hy
  · exact absurd hy (h earlier _ later rfl y)
  · rcases List.mem_cons.1 hy with heq | hy
    · cases heq
      rfl
    · obtain ⟨between, rest, rfl⟩ := List.append_of_mem hy
      have hfresh := h (earlier ++ .inserted x id :: between) (.inserted y id) rest
        (by rw [List.append_assoc, List.cons_append])
      exact absurd (List.mem_append_right _ (List.mem_cons_self ..)) (hfresh x)

/-- Whoever has found a method of a call can count on the earlier methods of the call. -/
theorem found_in_order {programs : List (List Request)} {clients : List Client}
    (hfollows : Follows programs log clients) (hjustified : Throughout (Action.Justified c₀) log)
    {earlier between later : List Action} {x y : Insertion} {answer : Option Entry}
    (hlog : log = earlier ++ .found x.registry x.method.provides (some (x.entry id)) ::
      (between ++ .found y.registry y.method.provides answer :: later))
    (hx : .inserted x id ∈ log) (hy : Planned programs y) (hclient : y.client = x.client)
    (hbefore : y.Before x) :
    ∃ id before since, earlier = before ++ .inserted y id :: since ∧
      ((∀ action ∈ since ++ between, ¬ action.Supersedes y) → answer = some (y.entry id)) := by
  -- the insertion of `x` is found, so it stands in the log by then
  obtain ⟨x', _, -, -, hentry, hstands⟩ := (hjustified _ _ _ hlog (x.entry id)).1 rfl
  obtain rfl := (Entry.mk.inj hentry).2.2
  have hmem : .inserted x' id ∈ log := hlog ▸ List.mem_append_left _ hstands.mem
  obtain rfl := inserted_unique hjustified hx hmem
  obtain ⟨before, since, hearlier⟩ := List.append_of_mem hstands.mem
  -- and the insertion of `y` stands before it
  have hfollows' := hfollows
  rw [hlog, hearlier, List.append_assoc, List.cons_append] at hfollows'
  obtain ⟨id', hmem'⟩ := hfollows'.before_inserted hy hclient hbefore
  obtain ⟨first, second, rfl⟩ := List.append_of_mem hmem'
  have hfirst : earlier = first ++ .inserted y id' :: (second ++ .inserted x id :: since) := by
    rw [hearlier, List.append_assoc, List.cons_append]
  refine ⟨id', first, second ++ .inserted x id :: since, hfirst, fun hkept => ?_⟩
  have hstands' : Stands
      (earlier ++ .found x.registry x.method.provides (some (x.entry id)) :: between) y id' := by
    refine stands_append hfirst fun action hmem => ?_
    rcases List.mem_append.1 hmem with hmem | hmem
    · exact hkept action (List.mem_append_left _ hmem)
    · rcases List.mem_cons.1 hmem with rfl | hmem
      · exact fun h => h
      · exact hkept action (List.mem_append_right _ hmem)
  rw [← List.cons_append, ← List.append_assoc] at hlog
  exact (hjustified _ _ _ hlog (y.entry id')).2 ⟨y, id', rfl, rfl, rfl, hstands'⟩

/-- What clients can rely on, of whom the log tells what they have done so far, from the container
`c` on. -/
structure Client.Coherent (c : Container) (programs : List (List Request)) (log : List Action)
    (s : System Container Client) : Prop where
  /-- A lookup gives the entry of the most recent insertion of the name since the last clear, and
  nothing if there is none. -/
  lookups : ∀ earlier registry name answer later,
    log = earlier ++ .found registry name answer :: later →
    ∀ entry, answer = some entry ↔ Shown earlier registry name entry
  /-- What is inserted is a method of a call that is accepted. It has a singleton of its own. -/
  insertions : ∀ x id, .inserted x id ∈ log →
    Planned programs x ∧ s.shared.singletons[id]? = some x.method.fresh
  /-- Who has found a method of a call, and then looks for an earlier method `y` of the same call,
  finds that one too, unless it has been superseded since it was inserted. -/
  in_order : ∀ earlier between later x y id answer,
    log = earlier ++ .found x.registry x.method.provides (some (x.entry id)) ::
      (between ++ .found y.registry y.method.provides answer :: later) →
    .inserted x id ∈ log → Planned programs y → y.client = x.client → y.request = x.request →
    y.index < x.index →
    ∃ id before since, earlier = before ++ .inserted y id :: since ∧
      ((∀ action ∈ since ++ between, ¬ action.Supersedes y) → answer = some (y.entry id))
  /-- All who link a call site get the same singleton, the one to which the site is bound if it is
  bound from the start. -/
  links : ∀ id site, c.sites[id]? = some site →
    ∀ found found', LeadsTo log id site found → LeadsTo log id site found' → found = found'
  /-- Once a call site leads to a singleton, all who link it get this one. Who links it before gets
  what is shown under its symbol, or an error. -/
  answers : ∀ id site, c.sites[id]? = some site →
    ∀ earlier registry answer later, log = earlier ++ .linked registry id answer :: later →
      (∀ found, LeadsTo earlier id site found → answer = .ok found) ∧
      ((∀ found, ¬ LeadsTo earlier id site found) →
        (∀ entry, Shown earlier registry site.symbol entry → answer = .ok entry.singleton) ∧
        ((∀ entry, ¬ Shown earlier registry site.symbol entry) →
          answer = .error (.linkage site.symbol site.slot)))
  /-- The registries hold what has been inserted last. -/
  registries : ∀ registry name entry,
    s.shared.lookup registry name = some entry ↔ Shown log registry name entry
  /-- The size of a registry is the number of the names under which something is shown. -/
  size : ∀ registry, (s.shared.registries registry).names.Nodup ∧
    (s.shared.registries registry).size = (s.shared.registries registry).names.length ∧
    ∀ name, name ∈ (s.shared.registries registry).names ↔
      ∃ entry, Shown log registry name entry
  /-- When no client can move, all have finished, and no insertion has been lost. -/
  complete : s.AtRest Client.move →
    (∀ client ∈ s.threads, client.pending = [] ∧ client.program = []) ∧
    ∀ x, Planned programs x → ∃ id, .inserted x id ∈ log

/-- **Registrations that overlap are coherent name by name.** Any number of clients act in any
order, from a container whose registries are empty. Although a registration can be seen half done, a
name always leads to what was inserted last under it, the methods of a call are seen in their order,
nothing of a call that is refused is ever seen, a call site leads all clients to the same provider,
and when all have finished, nothing is missing. -/
theorem Client.run_coherent (hc : ∀ registry, c.registries registry = {})
    {programs : List (List Request)} {schedule : List Nat} {s : System Container Client}
    (h : (Client.system c programs).run Client.move schedule = (log, s)) :
    Client.Coherent c programs log s := by
  have hinvariant := (Client.preserves c programs).run (s := Client.system c programs)
    ⟨Agrees.start hc, Follows.start programs c, .nil⟩ schedule
  rw [h] at hinvariant
  obtain ⟨hagrees, hfollows, hjustified⟩ := hinvariant
  constructor
  case lookups => exact fun earlier registry name answer later => hjustified earlier _ later
  case insertions =>
    exact fun x id hmem => ⟨hfollows.planned x id hmem, hagrees.singletons x id hmem⟩
  case in_order =>
    intro earlier between later x y id answer hlog hx hy hclient hrequest hindex
    exact found_in_order hfollows hjustified hlog hx hy hclient (.inr ⟨hrequest, hindex⟩)
  case links =>
    intro id site hsite found found' hleads hleads'
    obtain ⟨target, -, hbound⟩ := hagrees.sites id site hsite
    exact Option.some.inj (((hbound found).2 hleads).symm.trans ((hbound found').2 hleads'))
  case answers =>
    intro id site hsite earlier registry answer later hlog
    exact hjustified earlier _ later hlog site hsite
  case registries => exact hagrees.lookup
  case size =>
    intro registry
    refine ⟨(hagrees.ascending registry).nodup, Registry.size_eq_length_names _, fun name => ?_⟩
    rw [Registry.mem_names, Registry.contains, Option.isSome_iff_exists]
    exact exists_congr fun entry => hagrees.lookup registry name entry
  case complete =>
    intro hrest
    have hfinished := Client.atRest_iff.1 hrest
    exact ⟨hfinished, fun x => hfollows.inserted_of_finished hfinished⟩

/-- A container with a call site that is not bound. -/
def Container.unbound : Container := { sites := #[{ symbol := "a", slot := "field" }] }

/-- Two clients that register, one of them also in vain, and two that look on. -/
def Client.rush : List (List Request) :=
  [[.register "main" [⟨"first", [{ provides := "a", name := "one", body := 0 },
      { provides := "b", name := "two", body := 0 }]⟩]],
    [.register "main" [.demanding],
      .register "main" [⟨"second", [{ provides := "a", name := "three", body := 0 }]⟩]],
    [.lookup "main" "b", .lookup "main" "a", .link "main" 0],
    [.link "main" 0]]

/-- A run in which a registration comes between two insertions of another one, and all finish. -/
def Client.rushed : List Action × System Container Client :=
  (system .unbound rush).run Client.move [0, 0, 3, 1, 0, 2, 1, 1, 2, 2]

theorem Client.run_coherent_rush :
    (∀ client ∈ rushed.2.threads, client.pending = [] ∧ client.program = []) ∧
      Shown rushed.1 "main" "a" ⟨"a", "three", 2⟩ ∧
      (∀ x, Planned rush x → ∃ id, .inserted x id ∈ rushed.1) ∧
      Client.Coherent .unbound rush rushed.1 rushed.2 := by
  have hrun : (system .unbound rush).run Client.move [0, 0, 3, 1, 0, 2, 1, 1, 2, 2] =
      (rushed.1, rushed.2) := rfl
  have hfinished : ∀ client ∈ rushed.2.threads, client.pending = [] ∧ client.program = [] := by
    have hthreads : rushed.2.threads = [⟨[], 1, []⟩, ⟨[], 2, []⟩, ⟨[], 3, []⟩, ⟨[], 1, []⟩] := rfl
    rw [hthreads]
    simp
  have hlast : rushed.2.shared.lookup "main" "a" = some ⟨"a", "three", 2⟩ := rfl
  have hcoherent := Client.run_coherent (fun _ => rfl) hrun
  exact ⟨hfinished, (hcoherent.registries _ _ _).1 hlast,
    (hcoherent.complete (Client.atRest_iff.2 hfinished)).2, hcoherent⟩

end LateBinding
