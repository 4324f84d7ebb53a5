import LateBinding.Proofs.Threads.Caller

set_option autoImplicit false

/-! # A race for a value

Callers race for the value of a provider that fails a number of times. `Race.Holds` is what holds of
the race along every schedule: how often the body has been run, that these runs have been made by as
many callers, and how far each caller may have come. `Holds.begun` and `Holds.ended` are the steps
that count, the beginning and the end of a run of the body. `Race.Settles` is what the race comes to
when no caller can move any more, and `Race.run_settles` proves it of every run.
-/

namespace LateBinding

variable {c : Container} {depth turn : Nat}

/-! ## Races -/

/-- An empty singleton, over a body that fails a number of times and then gives a value. -/
structure Race where
  singleton : SingletonId
  name : String
  body : BodyId
  routine : Nat → List Value → Routine
  /-- How often the body has been run before. -/
  runs : Nat
  failures : Nat
  /-- How the runs fail, counted from the first one in the race. -/
  errors : Nat → Error
  value : Value

namespace Race

variable {race : Race} {s s' : System Container Caller} {made : Nat} {state : SingletonState}

/-- How a run of the body ends, with so many runs in the race before it. -/
def outcome (race : Race) (before : Nat) : Except Error Value :=
  if before < race.failures then .error (race.errors before) else .ok race.value

/-- What the caller gets that has made the run. -/
def answer (race : Race) (before : Nat) : Except Error Value :=
  (race.outcome before).mapError (Error.ofProvider race.name)

/-- The provider, its names and its call sites are left alone. -/
structure Leaves (race : Race) (c c' : Container) : Prop where
  singleton : c'.singletons[race.singleton]? = c.singletons[race.singleton]?
  body : c'.bodies[race.body]? = c.bodies[race.body]?
  registries : c'.registries = c.registries
  sites : c'.sites = c.sites

/-- The body does as it is said to, in whatever container it is run. -/
def Describes (race : Race) (depth : Nat) : Prop :=
  ∀ before c, ∃ c',
    (race.routine (race.runs + before + 1) []).run (Container.readSingleton depth) c =
      some (race.outcome before, c') ∧ race.Leaves c c'

/-- How far a caller may have come when the body has been run `made` times in the race. -/
def Allows (race : Race) (c : Container) (made : Nat) (state : SingletonState) : Caller → Prop
  | .seeking handle => handle.target? c = some race.singleton
  | .waiting id => id = race.singleton
  | .computing id name run routine => state = .running ∧ id = race.singleton ∧ name = race.name ∧
    ∃ before, made = before + 1 ∧ run = race.runs + before + 1 ∧ routine = race.routine run []
  | .answered none answer => state = .full race.value ∧ answer = .ok race.value
  | .answered (some run) answer => ∃ before < made,
    run = race.runs + before + 1 ∧ answer = race.answer before

/-- How the runs that have been made fit to how far the singleton has come. -/
def Fits (race : Race) (made : Nat) : SingletonState → Prop
  | .empty => made ≤ race.failures
  | .running => made ≤ race.failures + 1
  | .full value => value = race.value ∧ made = race.failures + 1

/-- The state of a race: the body has been run `made` times, each time by another caller. While a
value is computed, exactly one caller computes it. -/
structure Holds (race : Race) (s : System Container Caller) (made : Nat)
    (state : SingletonState) : Prop where
  singleton : s.shared.singletons[race.singleton]? = some ⟨race.name, race.body, state⟩
  body : s.shared.bodies[race.body]? = some ⟨race.routine, race.runs + made⟩
  runs : (s.threads.filterMap Caller.run?).Perm (List.range' (race.runs + 1) made)
  computing : s.threads.countP Caller.isComputing = if state = .running then 1 else 0
  callers : ∀ caller ∈ s.threads, race.Allows s.shared made state caller
  fits : race.Fits made state

namespace Holds

theorem start {handles : List Handle}
    (hsingleton : c.singletons[race.singleton]? = some ⟨race.name, race.body, .empty⟩)
    (hbody : c.bodies[race.body]? = some ⟨race.routine, race.runs⟩)
    (hhandles : ∀ handle ∈ handles, handle.target? c = some race.singleton) :
    race.Holds (Caller.system c handles) 0 .empty := by
  refine ⟨hsingleton, hbody, ?_, ?_, ?_, Nat.zero_le _⟩
  · have hnone : (handles.map Caller.seeking).filterMap Caller.run? = [] := by
      rw [List.filterMap_map]
      exact List.filterMap_eq_nil_iff.2 fun _ _ => rfl
    rw [Caller.system, hnone]
    exact .refl []
  · rw [if_neg (by decide), Caller.system, List.countP_map]
    exact List.countP_eq_zero.2 fun _ _ => Bool.false_ne_true
  · intro caller hmem
    obtain ⟨handle, hhandle, rfl⟩ := List.mem_map.1 hmem
    exact hhandles handle hhandle

variable {before after : List Caller} {caller caller' : Caller}

/-- One caller has moved on, and no run of the body has been begun or ended. -/
theorem moved (h : race.Holds s made state) (hthreads : s.threads = before ++ caller :: after)
    (hthreads' : s'.threads = before ++ caller' :: after)
    (hsingletons : s'.shared.singletons = s.shared.singletons)
    (hbodies : s'.shared.bodies = s.shared.bodies)
    (hrun : caller'.run? = caller.run?) (hcomputing : caller'.isComputing = caller.isComputing)
    (hkept : ∀ other, race.Allows s.shared made state other →
      race.Allows s'.shared made state other)
    (hcaller : race.Allows s'.shared made state caller') : race.Holds s' made state := by
  obtain ⟨hsingleton, hbody, hruns, hcount, hcallers, hfits⟩ := h
  rw [hthreads, List.filterMap_append, List.filterMap_cons, ← hrun] at hruns
  rw [hthreads, List.countP_append, List.countP_cons, ← hcomputing] at hcount
  rw [hthreads, List.forall_mem_append, List.forall_mem_cons] at hcallers
  refine ⟨hsingletons ▸ hsingleton, hbodies ▸ hbody, ?_, ?_, ?_, hfits⟩
  · rw [hthreads', List.filterMap_append, List.filterMap_cons]
    exact hruns
  · rw [hthreads', List.countP_append, List.countP_cons]
    exact hcount
  · rw [hthreads', List.forall_mem_append, List.forall_mem_cons]
    exact ⟨fun other hmem => hkept other (hcallers.1 other hmem), hcaller,
      fun other hmem => hkept other (hcallers.2.2 other hmem)⟩

/-- A caller that waits for an empty singleton begins a run of the body. -/
theorem begun {id : SingletonId} (h : race.Holds s made .empty)
    (hthreads : s.threads = before ++ .waiting id :: after)
    (hthreads' : s'.threads = before ++ .computing race.singleton race.name (race.runs + made + 1)
      (race.routine (race.runs + made + 1) []) :: after)
    (hshared : s'.shared = (s.shared.setState race.singleton .running).counted race.body
      ⟨race.routine, race.runs + made⟩) : race.Holds s' (made + 1) .running := by
  obtain ⟨hsingleton, hbody, hruns, hcount, hcallers, hfits⟩ := h
  rw [hthreads, List.filterMap_append] at hruns
  rw [hthreads, List.countP_append, List.countP_cons_of_neg Bool.false_ne_true,
    if_neg nofun] at hcount
  rw [hthreads, List.forall_mem_append, List.forall_mem_cons] at hcallers
  -- while the singleton is empty, nobody computes, and all answers come from runs of their own
  have hkept : ∀ other, race.Allows s.shared made .empty other →
      race.Allows s'.shared (made + 1) .running other := by
    intro other hallowed
    cases other with
    | seeking handle =>
        have htarget : handle.target? s'.shared = handle.target? s.shared :=
          handle.target?_congr (by rw [hshared]; rfl) (by rw [hshared]; rfl)
        exact htarget.trans hallowed
    | waiting id => exact hallowed
    | computing id name run routine => cases hallowed.1
    | answered run answer =>
        cases run with
        | none => cases hallowed.1
        | some run =>
            obtain ⟨earlier, hlt, hrun⟩ := hallowed
            exact ⟨earlier, Nat.lt_succ_of_lt hlt, hrun⟩
  refine ⟨?_, ?_, ?_, ?_, ?_, Nat.succ_le_succ hfits⟩
  · rw [hshared]
    exact Container.singleton?_setState_self hsingleton
  · obtain ⟨hlt, -⟩ := Array.getElem?_eq_some_iff.1 hbody
    rw [hshared]
    exact Array.getElem?_setIfInBounds_self_of_lt hlt
  · rw [hthreads', List.filterMap_append, List.range'_1_concat, Nat.add_right_comm]
    exact List.perm_middle.trans ((List.perm_append_singleton _ _).symm.trans
      (hruns.append_right _))
  · rw [hthreads', List.countP_append, List.countP_cons_of_pos rfl, if_pos rfl]
    omega
  · rw [hthreads', List.forall_mem_append, List.forall_mem_cons]
    exact ⟨fun other hmem => hkept other (hcallers.1 other hmem),
      ⟨rfl, rfl, rfl, made, rfl, rfl, rfl⟩, fun other hmem => hkept other (hcallers.2.2 other hmem)⟩

/-- The caller that computes ends its run of the body. -/
theorem ended {id : SingletonId} {name : String} {run : Nat} {routine : Routine} {earlier : Nat}
    (h : race.Holds s (earlier + 1) .running)
    (hthreads : s.threads = before ++ .computing id name run routine :: after)
    (hthreads' : s'.threads = before ++
      .answered (some (race.runs + earlier + 1)) (race.answer earlier) :: after)
    (hrun : run = race.runs + earlier + 1)
    (hleaves : race.Leaves s.shared c)
    (hshared : s'.shared = c.setState race.singleton (.after (race.outcome earlier))) :
    race.Holds s' (earlier + 1) (.after (race.outcome earlier)) := by
  obtain ⟨hsingleton, hbody, hruns, hcount, hcallers, hfits⟩ := h
  rw [hthreads, List.filterMap_append] at hruns
  rw [hthreads, List.countP_append, List.countP_cons_of_pos rfl, if_pos rfl] at hcount
  rw [hthreads, List.forall_mem_append, List.forall_mem_cons] at hcallers
  -- one caller computes, and it is the one that ends, so none of the others does
  have hbefore : before.countP Caller.isComputing = 0 := by omega
  have hafter : after.countP Caller.isComputing = 0 := by omega
  rw [List.countP_eq_zero] at hbefore hafter
  have hkept : ∀ other, ¬ other.isComputing → race.Allows s.shared (earlier + 1) .running other →
      race.Allows s'.shared (earlier + 1) (.after (race.outcome earlier)) other := by
    intro other hidle hallowed
    cases other with
    | seeking handle =>
        have htarget : handle.target? s'.shared = handle.target? s.shared :=
          handle.target?_congr (by rw [hshared]; exact hleaves.registries)
            (by rw [hshared]; exact hleaves.sites)
        exact htarget.trans hallowed
    | waiting id => exact hallowed
    | computing id name run routine => exact absurd rfl hidle
    | answered run answer =>
        cases run with
        | none => cases hallowed.1
        | some run => exact hallowed
  refine ⟨?_, ?_, ?_, ?_, ?_, ?_⟩
  · rw [hshared]
    exact Container.singleton?_setState_self (hleaves.singleton.trans hsingleton)
  · rw [hshared]
    exact hleaves.body.trans hbody
  · rw [hthreads', List.filterMap_append]
    exact hrun ▸ hruns
  · rw [hthreads', List.countP_append, List.countP_cons_of_neg Bool.false_ne_true,
      List.countP_eq_zero.2 hbefore, List.countP_eq_zero.2 hafter]
    cases race.outcome earlier <;> rfl
  · rw [hthreads', List.forall_mem_append, List.forall_mem_cons]
    exact ⟨fun other hmem => hkept other (hbefore other hmem) (hcallers.1 other hmem),
      ⟨earlier, Nat.lt_succ_self earlier, rfl, rfl⟩,
      fun other hmem => hkept other (hafter other hmem) (hcallers.2.2 other hmem)⟩
  · unfold outcome
    split
    · next hlt => exact hlt
    · next hnot => exact ⟨rfl, Nat.le_antisymm hfits (Nat.succ_le_succ (Nat.le_of_not_lt hnot))⟩

/-- Whatever the next step is, the race goes on to hold. -/
theorem step (hdescribes : race.Describes depth) (h : race.Holds s made state) {action : Nat}
    (hstep : s.step (Caller.move depth) turn = some (action, s')) :
    ∃ made state, race.Holds s' made state := by
  obtain ⟨caller, caller', hcaller, hmove, hthreads'⟩ := System.step_eq_some.1 hstep
  obtain ⟨before, after, hthreads, hset⟩ := System.exists_split hcaller
  rw [hset] at hthreads'
  have hallowed := h.callers caller (List.mem_of_getElem? hcaller)
  cases caller with
  | seeking handle =>
      obtain ⟨sites, hlocate, hothers⟩ := Handle.locate_of_target hallowed
      simp only [Caller.move, hlocate, Option.some.injEq, Prod.mk.injEq] at hmove
      obtain ⟨-, rfl, hshared⟩ := hmove
      refine ⟨made, state, h.moved hthreads hthreads' ?_ ?_ rfl rfl ?_ rfl⟩
      · rw [← hshared]
      · rw [← hshared]
      · intro other hother
        rw [← hshared]
        cases other with
        | seeking handle => exact hothers handle hother
        | waiting _ | computing _ _ _ _ => exact hother
        | answered run _ => cases run <;> exact hother
  | waiting id =>
      obtain rfl : id = race.singleton := hallowed
      cases state with
      | running => simp [Caller.move, h.singleton] at hmove
      | empty =>
          simp only [Caller.move, h.singleton, h.body, Option.some.injEq, Prod.mk.injEq] at hmove
          obtain ⟨-, rfl, hshared⟩ := hmove
          exact ⟨made + 1, .running, h.begun hthreads hthreads' hshared.symm⟩
      | full value =>
          simp only [Caller.move, h.singleton, Option.some.injEq, Prod.mk.injEq] at hmove
          obtain ⟨-, rfl, hshared⟩ := hmove
          obtain ⟨rfl, -⟩ := h.fits
          refine ⟨made, .full race.value, h.moved hthreads hthreads' ?_ ?_ rfl rfl ?_ ⟨rfl, rfl⟩⟩
          · rw [← hshared]
          · rw [← hshared]
          · rw [← hshared]
            exact fun _ hother => hother
  | computing id name run routine =>
      obtain ⟨rfl, rfl, rfl, earlier, rfl, rfl, rfl⟩ := hallowed
      obtain ⟨c', hrun, hleaves⟩ := hdescribes earlier s.shared
      simp only [Caller.move, hrun, Option.some.injEq, Prod.mk.injEq] at hmove
      obtain ⟨-, rfl, hshared⟩ := hmove
      exact ⟨_, _, h.ended hthreads hthreads' rfl hleaves hshared.symm⟩
  | answered run answer => cases hmove

/-- When no caller can move, no value is being computed and every caller has its answer. -/
theorem answered (hdescribes : race.Describes depth) (h : race.Holds s made state)
    (hrest : s.AtRest (Caller.move depth)) :
    state ≠ .running ∧ ∀ caller ∈ s.threads, ∃ run answer, caller = .answered run answer := by
  have hstuck : ∀ caller ∈ s.threads, ∃ turn, caller.move depth turn s.shared = none := by
    intro caller hmem
    obtain ⟨turn, hcaller⟩ := List.getElem?_of_mem hmem
    exact ⟨turn, hrest.move_eq_none hcaller⟩
  -- a caller that computes could end its run, so at rest nobody computes
  have hidle : ∀ caller ∈ s.threads, caller.isComputing = false := by
    intro caller hmem
    obtain ⟨turn, hnone⟩ := hstuck caller hmem
    cases caller with
    | seeking _ | waiting _ | answered _ _ => rfl
    | computing id name run routine =>
        obtain ⟨rfl, rfl, rfl, earlier, rfl, rfl, rfl⟩ := h.callers _ hmem
        obtain ⟨c', hrun, -⟩ := hdescribes earlier s.shared
        simp [Caller.move, hrun] at hnone
  have hstate : state ≠ .running := by
    rintro rfl
    have hcount := h.computing
    rw [if_pos rfl, List.countP_eq_zero.2 fun caller hmem => by simp [hidle caller hmem]] at hcount
    cases hcount
  refine ⟨hstate, fun caller hmem => ?_⟩
  obtain ⟨turn, hnone⟩ := hstuck caller hmem
  have hallowed := h.callers caller hmem
  cases caller with
  | seeking handle =>
      obtain ⟨sites, hlocate, -⟩ := Handle.locate_of_target hallowed
      simp [Caller.move, hlocate] at hnone
  | waiting id =>
      obtain rfl : id = race.singleton := hallowed
      cases state with
      | running => exact absurd rfl hstate
      | empty => simp [Caller.move, h.singleton, h.body] at hnone
      | full value => simp [Caller.move, h.singleton] at hnone
  | computing id name run routine => exact absurd (hidle _ hmem) (by simp [Caller.isComputing])
  | answered run answer => exact ⟨run, answer, rfl⟩

end Holds

/-! ## How a race ends -/

theorem answer_of_lt {before : Nat} (h : before < race.failures) :
    race.answer before = .error ((race.errors before).ofProvider race.name) := by
  rw [answer, outcome, if_pos h]
  rfl

theorem answer_of_le {before : Nat} (h : race.failures ≤ before) :
    race.answer before = .ok race.value := by
  rw [answer, outcome, if_neg (Nat.not_lt.2 h)]
  rfl

/-- What a race among `callers` callers has come to. -/
structure Settles (race : Race) (callers : Nat) (s : System Container Caller) : Prop where
  answered : ∀ caller ∈ s.threads, ∃ run answer, caller = .answered run answer
  failed : s.threads.countP Caller.hasFailed = min callers race.failures
  /-- Each run that has failed is reported to one caller, the one that has made it. -/
  reported : ∀ before < min callers race.failures, ∃ turn : Nat,
    s.threads[turn]? = some (.answered (some (race.runs + before + 1))
      (.error ((race.errors before).ofProvider race.name))) ∧
    ∀ (other : Nat) (caller : Caller), s.threads[other]? = some caller →
      caller.run? = some (race.runs + before + 1) → other = turn
  /-- No caller gets an error but the one of the run that it has made itself. -/
  own : ∀ run e, .answered run (.error e) ∈ s.threads → ∃ before < min callers race.failures,
    run = some (race.runs + before + 1) ∧ e = (race.errors before).ofProvider race.name
  given : ∀ caller ∈ s.threads, caller.hasFailed = false →
    ∃ run, caller = .answered run (.ok race.value)
  succeeded : s.threads.countP (! ·.hasFailed) = callers - min callers race.failures
  runs : s.shared.runs race.body = race.runs + min callers (race.failures + 1)
  initialized : s.shared.isInitialized race.singleton ↔ race.failures < callers

namespace Holds

variable (h : race.Holds s made state)
include h

/-- Each run has been made by one caller. -/
theorem length_runs : (s.threads.filterMap Caller.run?).length = made :=
  h.runs.length_eq.trans List.length_range'

/-- A run that has been made has been made by some caller. -/
theorem exists_ran {before : Nat} (hlt : before < made) :
    ∃ (turn : Nat) (caller : Caller), s.threads[turn]? = some caller ∧
      caller.run? = some (race.runs + before + 1) := by
  have hmem : race.runs + before + 1 ∈ List.range' (race.runs + 1) made :=
    List.mem_range'_1.2 (by omega)
  obtain ⟨caller, hcaller, hrun⟩ := List.mem_filterMap.1 (h.runs.mem_iff.2 hmem)
  obtain ⟨turn, hturn⟩ := List.getElem?_of_mem hcaller
  exact ⟨turn, caller, hturn, hrun⟩

/-- No two callers have made the same run. -/
theorem ran_unique {turn other run : Nat} {caller caller' : Caller}
    (hcaller : s.threads[turn]? = some caller) (hcaller' : s.threads[other]? = some caller')
    (hrun : caller.run? = some run) (hrun' : caller'.run? = some run) : other = turn := by
  have hnodup : (s.threads.filterMap Caller.run?).Nodup :=
    h.runs.nodup_iff.2 (List.nodup_range' 1)
  exact System.turn_unique hnodup hcaller' hcaller hrun' hrun

/-- When the callers have their answers, the body has been run as often as it takes. -/
theorem made_eq (hstate : state ≠ .running)
    (hanswered : ∀ caller ∈ s.threads, ∃ run answer, caller = .answered run answer) :
    made = min s.threads.length (race.failures + 1) ∧
      ((∃ value, state = .full value) ↔ race.failures < s.threads.length) := by
  have hlength := h.length_runs
  cases state with
  | running => exact absurd rfl hstate
  | full value =>
      have hle := List.length_filterMap_le Caller.run? s.threads
      have hmade : made = race.failures + 1 := h.fits.2
      exact ⟨by omega, iff_of_true ⟨value, rfl⟩ (by omega)⟩
  | empty =>
      -- without a value, the only answers are those of a caller's own run
      have hall : s.threads.countP (fun caller => caller.run?.isSome) = s.threads.length := by
        refine List.countP_eq_length.2 fun caller hmem => ?_
        obtain ⟨run, answer, rfl⟩ := hanswered caller hmem
        cases run with
        | none => cases (h.callers _ hmem).1
        | some run => rfl
      rw [List.length_filterMap_eq_countP, hall] at hlength
      have hmade : made ≤ race.failures := h.fits
      exact ⟨by omega, iff_of_false nofun (by omega)⟩

/-- The callers that fail are those that have made one of the first runs. -/
theorem countP_hasFailed
    (hanswered : ∀ caller ∈ s.threads, ∃ run answer, caller = .answered run answer) :
    s.threads.countP Caller.hasFailed = min made race.failures := by
  have hcount : ∀ made, (List.range' (race.runs + 1) made).countP
      (· ≤ race.runs + race.failures) = min made race.failures := by
    intro made
    induction made with
    | zero => simp
    | succ made ih =>
        rw [List.range'_1_concat, List.countP_append, ih, List.countP_singleton]
        split <;> simp only [decide_eq_true_eq] at * <;> omega
  -- the runs that callers have made are the first `made` ones, so count runs in place of callers
  rw [← hcount made, ← h.runs.countP_eq, List.countP_filterMap]
  refine List.countP_congr fun caller hmem => ?_
  obtain ⟨run, answer, rfl⟩ := hanswered caller hmem
  have hallowed := h.callers _ hmem
  cases run with
  | none =>
      obtain ⟨-, rfl⟩ := hallowed
      exact iff_of_false nofun nofun
  | some run =>
      obtain ⟨before, hlt, rfl, rfl⟩ := hallowed
      by_cases hfails : before < race.failures
      · rw [answer_of_lt hfails]
        exact iff_of_true rfl (decide_eq_true (by omega))
      · rw [answer_of_le (Nat.le_of_not_lt hfails)]
        exact iff_of_false nofun (by simp [Caller.run?]; omega)

theorem settles (hdescribes : race.Describes depth) (hrest : s.AtRest (Caller.move depth)) :
    race.Settles s.threads.length s := by
  obtain ⟨hstate, hanswered⟩ := h.answered hdescribes hrest
  obtain ⟨hmade, hfull⟩ := h.made_eq hstate hanswered
  have hfailed := h.countP_hasFailed hanswered
  have hmin : min made race.failures = min s.threads.length race.failures := by omega
  rw [hmin] at hfailed
  refine ⟨hanswered, hfailed, ?_, ?_, ?_, ?_, ?_, ?_⟩
  · intro before hbefore
    have hlt : before < made := by omega
    obtain ⟨turn, caller, hturn, hrun⟩ := h.exists_ran hlt
    obtain ⟨run, answer, rfl⟩ := hanswered caller (List.mem_of_getElem? hturn)
    obtain rfl : run = some (race.runs + before + 1) := hrun
    obtain ⟨before', -, hsame, rfl⟩ := h.callers _ (List.mem_of_getElem? hturn)
    obtain rfl : before = before' := by omega
    rw [answer_of_lt (by omega)] at hturn
    exact ⟨turn, hturn, fun other caller hother hagain => h.ran_unique hturn hother rfl hagain⟩
  · intro run e hmem
    have hallowed := h.callers _ hmem
    cases run with
    | none => cases hallowed.2
    | some run =>
        obtain ⟨before, hlt, rfl, hanswer⟩ := hallowed
        by_cases hfails : before < race.failures
        · rw [answer_of_lt hfails] at hanswer
          exact ⟨before, by omega, rfl, Except.error.inj hanswer⟩
        · rw [answer_of_le (Nat.le_of_not_lt hfails)] at hanswer
          cases hanswer
  · intro caller hmem hok
    obtain ⟨run, answer, rfl⟩ := hanswered caller hmem
    have hallowed := h.callers _ hmem
    cases run with
    | none => exact ⟨none, congrArg _ hallowed.2⟩
    | some run =>
        obtain ⟨before, -, -, rfl⟩ := hallowed
        by_cases hfails : before < race.failures
        · rw [answer_of_lt hfails] at hok
          cases hok
        · exact ⟨some run, congrArg _ (answer_of_le (Nat.le_of_not_lt hfails))⟩
  · have hsplit := List.length_eq_countP_add_countP Caller.hasFailed (l := s.threads)
    simp only [Bool.not_eq_true, Bool.decide_eq_false] at hsplit
    omega
  · rw [Container.runs, h.body, hmade]
    rfl
  · rw [← hfull, Container.isInitialized, h.singleton]
    cases state with
    | full value => exact iff_of_true rfl ⟨value, rfl⟩
    | empty | running => exact iff_of_false nofun nofun

end Holds

/-- The race goes on to hold along every schedule. -/
theorem preserves_holds (hdescribes : race.Describes depth) (callers : Nat) :
    System.Preserves (Caller.move depth) fun _ s =>
      s.threads.length = callers ∧ ∃ made state, race.Holds s made state := by
  rintro log s turn action s' ⟨hlength, made, state, hholds⟩ hstep
  obtain ⟨_, _, -, -, hthreads'⟩ := System.step_eq_some.1 hstep
  exact ⟨by rw [hthreads', List.length_set, hlength], hholds.step hdescribes hstep⟩

/-- **Callers that share a provider.** Any number of callers, each by its own way, want the value of
a singleton that is empty, over a body that fails a number of times and gives a value from then on.

On every schedule the callers make three steps each at most, they can always come to rest, and when
they have, each of the first runs has failed and been reported to the one caller that has made it,
as long as there were callers to make it. All other callers have got the value, the body has been
run until it gave the value, and the singleton has its value exactly if there were more callers than
failures. -/
theorem run_settles (hdescribes : race.Describes depth)
    (hsingleton : c.singletons[race.singleton]? = some ⟨race.name, race.body, .empty⟩)
    (hbody : c.bodies[race.body]? = some ⟨race.routine, race.runs⟩) {handles : List Handle}
    (hhandles : ∀ handle ∈ handles, handle.target? c = some race.singleton)
    {schedule log : List Nat}
    (hrun : (Caller.system c handles).run (Caller.move depth) schedule = (log, s)) :
    log.length ≤ 3 * handles.length ∧
    (∃ more, (s.run (Caller.move depth) more).2.AtRest (Caller.move depth)) ∧
    (s.AtRest (Caller.move depth) → race.Settles handles.length s) := by
  have hlog := Caller.length_log depth c handles schedule
  have hholds := (preserves_holds hdescribes handles.length).run (s := Caller.system c handles)
    ⟨List.length_map _, 0, .empty, .start hsingleton hbody hhandles⟩ schedule
  rw [hrun] at hlog hholds
  obtain ⟨hlength, made, state, hholds⟩ := hholds
  refine ⟨hlog, System.exists_atRest (fun _ _ _ _ => Caller.work_lt_of_step) s, fun hrest => ?_⟩
  rw [← hlength]
  exact hholds.settles hdescribes hrest

end Race

/-- A body that fails in its first run. -/
def Routine.faltering (run : Nat) (_ : List Value) : Routine :=
  .done (if run = 1 then .error (.internal "not yet") else .ok (.int 7))

/-- A container with a provider that fails in its first run. -/
def Container.faltering : Container where
  bodies := #[{ routine := Routine.faltering }]
  singletons := #[{ name := "a", body := 0 }]
  registries := fun _ => ⟨[⟨"a", "compute", 0⟩]⟩
  sites := #[{ symbol := "a", slot := "field" }]

def Race.faltering : Race where
  singleton := 0
  name := "a"
  body := 0
  routine := Routine.faltering
  runs := 0
  failures := 1
  errors := fun _ => .internal "not yet"
  value := .int 7

/-- Three callers of which one fails, one computes the value, and one has to wait for it. -/
def Caller.faltered : List Nat × System Container Caller :=
  (system .faltering [.named "main" "a", .site "main" 0, .site "main" 0]).run (move 0)
    [0, 1, 2, 0, 1, 0, 2, 1, 2, 1]

theorem Race.run_settles_faltering :
    Caller.faltered.2.AtRest (Caller.move 0) ∧ Race.faltering.Settles 3 Caller.faltered.2 := by
  have hdescribes : Race.faltering.Describes 0 := by
    intro before c
    refine ⟨c, ?_, rfl, rfl, rfl, rfl⟩
    cases before <;> rfl
  have hhandles : ∀ handle ∈ [Handle.named "main" "a", .site "main" 0, .site "main" 0],
      handle.target? Container.faltering = some Race.faltering.singleton := by
    have hlookup : Container.faltering.lookup "main" "a" = some ⟨"a", "compute", 0⟩ := rfl
    obtain ⟨hnamed, hsite⟩ := Handle.target?_of_lookup hlookup
    simp only [List.forall_mem_cons]
    exact ⟨hnamed, hsite 0 rfl rfl, hsite 0 rfl rfl, nofun⟩
  have hthreads : Caller.faltered.2.threads =
      [.answered (some 1) (.error ((Error.internal "not yet").ofProvider "a")),
        .answered none (.ok (.int 7)), .answered (some 2) (.ok (.int 7))] := rfl
  have hrest : Caller.faltered.2.AtRest (Caller.move 0) := by
    refine fun turn => System.step_eq_none.2 fun caller hcaller => ?_
    have hmem := List.mem_of_getElem? hcaller
    rw [hthreads] at hmem
    simp only [List.mem_cons, List.not_mem_nil, or_false] at hmem
    obtain rfl | rfl | rfl := hmem <;> rfl
  have hrun : (Caller.system .faltering [.named "main" "a", .site "main" 0, .site "main" 0]).run
      (Caller.move 0) [0, 1, 2, 0, 1, 0, 2, 1, 2, 1] = (Caller.faltered.1, Caller.faltered.2) := rfl
  exact ⟨hrest, (Race.run_settles hdescribes rfl rfl hhandles hrun).2.2 hrest⟩

end LateBinding
