import LateBinding.Proofs.Session.Log
import LateBinding.Proofs.Threads.Interleaving
import Mathlib.Algebra.GroupWithZero.Nat

set_option autoImplicit false

/-! # Callers that share a provider

Callers want the value of the same provider at the same time, each by a way of its own: by a name,
by a call site, or by a singleton that was kept. A caller first finds the singleton. It takes the
value if there is one, it waits while another caller computes it, and otherwise it runs the body
itself. When a run has failed, the caller that has made it gets the error, and one of those that
wait runs the body again.

`Caller.move` is what a caller does at its turn; alone, a caller gets what `Handle.read` gives
(`Caller.run_alone`). Together they come to an end: no caller makes more than three steps
(`Caller.length_log`).
-/

namespace LateBinding

/-! ## Callers -/

/-- The singleton to which a handle leads. A call site is linked. -/
def Handle.locate (c : Container) : Handle → Except Error SingletonId × Container
  | named registry name => (c.resolve registry name registrySlot, c)
  | kept id => (.ok id, c)
  | site registry id => c.link registry id

/-- How far a caller has come. -/
inductive Caller where
  /-- It has to find the singleton. -/
  | seeking (handle : Handle)
  /-- It has found the singleton, and has not got its value yet. -/
  | waiting (id : SingletonId)
  /-- It makes a run of the body for the singleton, of which `routine` is to be done. -/
  | computing (id : SingletonId) (name : String) (run : Nat) (routine : Routine)
  /-- It has its answer, from the run of the body that it has made itself, if it has made one. -/
  | answered (run : Option Nat) (answer : Except Error Value)

namespace Caller

/-- The next step of a caller, logged by its turn. There is none when the caller has its answer, and
while it has to wait. -/
def move (depth : Nat) (turn : Nat) (caller : Caller) (c : Container) :
    Option (Nat × Caller × Container) :=
  match caller with
  | seeking handle =>
    match handle.locate c with
    | (.ok id, c) => some (turn, waiting id, c)
    | (.error e, c) => some (turn, answered none (.error e), c)
  | waiting id =>
    match c.singletons[id]? with
    | none => none
    | some singleton =>
      match singleton.state with
      | .full value => some (turn, answered none (.ok value), c)
      | .running => none
      | .empty =>
        match c.bodies[singleton.body]? with
        | none => none
        | some body =>
          let run := body.runs + 1
          some (turn, computing id singleton.name run (body.routine run []),
            (c.setState id .running).counted singleton.body body)
  | computing id name run routine =>
    match routine.run (Container.readSingleton depth) c with
    | none => none
    | some (outcome, c) =>
      some (turn, answered run (outcome.mapError (Error.ofProvider name)),
        c.setState id (.after outcome))
  | answered _ _ => none

/-- Callers that have not done anything yet. -/
def system (c : Container) (handles : List Handle) : System Container Caller :=
  ⟨c, handles.map seeking⟩

/-- The run of the body that a caller makes or has made. -/
def run? : Caller → Option Nat
  | seeking _ | waiting _ => none
  | computing _ _ run _ => some run
  | answered run _ => run

/-- Whether a caller is running the body. -/
def isComputing : Caller → Bool
  | computing _ _ _ _ => true
  | seeking _ | waiting _ | answered _ _ => false

/-- Whether a caller has got an error. -/
def hasFailed : Caller → Bool
  | answered _ (.error _) => true
  | answered _ (.ok _) | seeking _ | waiting _ | computing _ _ _ _ => false

/-- The number of steps that a caller can still make. -/
def remaining : Caller → Nat
  | seeking _ => 3
  | waiting _ => 2
  | computing _ _ _ _ => 1
  | answered _ _ => 0

end Caller

variable {c c' : Container} {id : SingletonId} {depth turn : Nat}

/-! ## Finding the singleton -/

/-- To read by way of a handle is to find the singleton and to read it. -/
theorem Handle.read_eq_locate (handle : Handle) (depth : Nat) (c : Container) :
    handle.read depth c =
      match handle.locate c with
      | (.ok id, c) => Container.readSingleton depth id c
      | (.error e, c) => some (.error e, c) := by
  cases handle with
  | named registry name =>
      simp only [read, locate, Container.get]
      cases c.resolve registry name registrySlot <;> rfl
  | kept id => rfl
  | site registry id => rfl

/-- Where a name is registered, it leads to the singleton of its entry, and so does a call site with
this symbol that is not bound. -/
theorem Handle.target?_of_lookup {registry name : String} {entry : Entry}
    (h : c.lookup registry name = some entry) :
    (named registry name).target? c = some entry.singleton ∧
      ∀ id, (c.site id).symbol = name → (c.site id).target = none →
        (site registry id).target? c = some entry.singleton := by
  constructor
  · simp only [target?, Container.resolve, h]
    rfl
  · rintro id rfl htarget
    simp only [target?, Container.link_of_lookup htarget h]
    rfl

/-- Finding a singleton binds call sites at most, and none of them otherwise than to where handles
lead that lead to the same singleton. -/
theorem Handle.locate_of_target {handle : Handle} (h : handle.target? c = some id) :
    ∃ sites, handle.locate c = (.ok id, { c with sites }) ∧
      ∀ other : Handle, other.target? c = some id → other.target? { c with sites } = some id := by
  cases handle with
  | named registry name =>
      have hresolve : c.resolve registry name registrySlot = .ok id := Except.toOption_eq_some.1 h
      exact ⟨c.sites, by rw [locate, hresolve], fun _ hother => hother⟩
  | kept kept =>
      cases h
      exact ⟨c.sites, rfl, fun _ hother => hother⟩
  | site registry site =>
      have hlink : (c.link registry site).1 = .ok id := Except.toOption_eq_some.1 h
      cases htarget : (c.site site).target with
      | some target =>
          rw [Container.link_of_target htarget] at hlink
          cases hlink
          exact ⟨c.sites, Container.link_of_target htarget registry, fun _ hother => hother⟩
      | none =>
          cases hentry : c.lookup registry (c.site site).symbol with
          | none =>
              rw [Container.link_of_missing htarget hentry] at hlink
              cases hlink
          | some entry =>
              rw [Container.link_of_lookup htarget hentry] at hlink
              cases hlink
              refine ⟨_, Container.link_of_lookup htarget hentry, fun other hother => ?_⟩
              cases other with
              | named _ _ | kept _ => exact hother
              | site registry' site' =>
                  show ((c.bind site entry.singleton).link registry' site').1.toOption = _
                  have hother' : (c.link registry' site').1.toOption = some entry.singleton :=
                    hother
                  rw [Container.answer_link] at hother' ⊢
                  rcases c.site_bind site site' entry.singleton with hsite | ⟨-, hsite⟩
                  · rw [hsite]
                    exact hother'
                  · rw [hsite]
                    rfl

/-- Where a handle leads depends on the registries and on the call sites. -/
theorem Handle.target?_congr (handle : Handle) (hregistries : c'.registries = c.registries)
    (hsites : c'.sites = c.sites) : handle.target? c' = handle.target? c := by
  cases handle with
  | named registry name =>
      simp only [target?, Container.resolve, Container.lookup, hregistries]
  | kept _ => rfl
  | site registry id =>
      simp only [target?, Container.answer_link, Container.resolve, Container.lookup,
        Container.site, hregistries, hsites]

/-! ## A caller alone -/

/-- A caller that has its answer does not move any more. -/
theorem Caller.run_answered {s : System Container Caller} {run : Option Nat}
    {answer : Except Error Value} (h : s.threads[turn]? = some (.answered run answer))
    (count : Nat) : s.run (move depth) (List.replicate count turn) = ([], s) := by
  have hnone : s.step (move depth) turn = none := by
    refine System.step_eq_none.2 fun caller hcaller => ?_
    cases h.symm.trans hcaller
    rfl
  induction count with
  | zero => rfl
  | succ count ih => rw [List.replicate_succ, System.run_cons_of_none hnone, ih]

/-- A caller that has found the singleton and goes on alone reads it. -/
theorem Caller.run_waiting {s : System Container Caller} {answer : Except Error Value}
    (h : s.threads[turn]? = some (.waiting id))
    (hread : Container.readSingleton (depth + 1) id s.shared = some (answer, c')) :
    ∃ run, (s.run (move depth) [turn, turn]).2 =
      ⟨c', s.threads.set turn (.answered run answer)⟩ := by
  obtain ⟨hlt, -⟩ := List.getElem?_eq_some_iff.1 h
  obtain ⟨less, singleton, hless, hs, ⟨value, hstate, rfl, rfl⟩ |
    ⟨hstate, outcome, c₁, hrun, rfl, rfl⟩⟩ := Container.readSingleton_eq_some hread
  · have hstep : s.step (move depth) turn = some (turn,
        ⟨s.shared, s.threads.set turn (.answered none (.ok value))⟩) :=
      System.step_eq_some.2 ⟨_, _, h, by simp only [move, hs, hstate], rfl⟩
    refine ⟨none, ?_⟩
    rw [System.run_cons_of_some hstep]
    exact congrArg Prod.snd (Caller.run_answered (List.getElem?_set_self hlt) 1)
  · -- the two steps of the caller are the two halves of the read: mark and count, then run
    cases hless
    obtain ⟨body, hbody, hrun⟩ := Container.runBody_eq_some hrun
    have hbody' : s.shared.bodies[singleton.body]? = some body := hbody
    let computing := Caller.computing id singleton.name (body.runs + 1)
      (body.routine (body.runs + 1) [])
    have hfirst : s.step (move depth) turn = some (turn,
        ⟨(s.shared.setState id .running).counted singleton.body body,
          s.threads.set turn computing⟩) :=
      System.step_eq_some.2 ⟨_, _, h, by simp only [move, hs, hstate, hbody']; rfl, rfl⟩
    have hsecond : System.step (move depth) turn
        ⟨(s.shared.setState id .running).counted singleton.body body,
          s.threads.set turn computing⟩ = some (turn,
        ⟨c₁.setState id (.after outcome), (s.threads.set turn computing).set turn
          (.answered (some (body.runs + 1))
            (outcome.mapError (Error.ofProvider singleton.name)))⟩) :=
      System.step_eq_some.2
        ⟨computing, _, List.getElem?_set_self hlt, by simp only [computing, move, hrun], rfl⟩
    refine ⟨some (body.runs + 1), ?_⟩
    rw [System.run_cons_of_some hfirst, System.run_cons_of_some hsecond, List.set_set]
    rfl

/-- A caller that goes on alone gets what it gets by reading the handle. -/
theorem Caller.run_alone {s : System Container Caller} {handle : Handle}
    {answer : Except Error Value} (h : s.threads[turn]? = some (.seeking handle))
    (hread : handle.read (depth + 1) s.shared = some (answer, c')) :
    ∃ run, (s.run (move depth) [turn, turn, turn]).2 =
      ⟨c', s.threads.set turn (.answered run answer)⟩ := by
  obtain ⟨hlt, -⟩ := List.getElem?_eq_some_iff.1 h
  rw [Handle.read_eq_locate] at hread
  cases hlocate : handle.locate s.shared with
  | mk found located =>
      rw [hlocate] at hread
      cases found with
      | error e =>
          cases hread
          have hstep : s.step (move depth) turn = some (turn,
              ⟨c', s.threads.set turn (.answered none (.error e))⟩) :=
            System.step_eq_some.2 ⟨_, _, h, by simp only [move, hlocate], rfl⟩
          refine ⟨none, ?_⟩
          rw [System.run_cons_of_some hstep]
          exact congrArg Prod.snd (Caller.run_answered (List.getElem?_set_self hlt) 2)
      | ok id =>
          have hstep : s.step (move depth) turn = some (turn,
              ⟨located, s.threads.set turn (.waiting id)⟩) :=
            System.step_eq_some.2 ⟨_, _, h, by simp only [move, hlocate], rfl⟩
          have hwaiting : (s.threads.set turn (.waiting id))[turn]? = some (.waiting id) :=
            List.getElem?_set_self hlt
          obtain ⟨run, hrun⟩ := Caller.run_waiting (s := ⟨located, _⟩) hwaiting hread
          refine ⟨run, ?_⟩
          rw [System.run_cons_of_some hstep, hrun, List.set_set]

/-! ## Callers come to an end -/

/-- The number of steps that callers can still make. -/
def Caller.work (s : System Container Caller) : Nat := (s.threads.map remaining).sum

theorem Caller.remaining_of_move {caller caller' : Caller} {action : Nat}
    (h : caller.move depth turn c = some (action, caller', c')) :
    caller'.remaining < caller.remaining := by
  cases caller with
  | seeking handle =>
      simp only [move] at h
      split at h <;> cases h <;> simp [remaining]
  | waiting id =>
      simp only [move] at h
      split at h
      · cases h
      · split at h
        · cases h
          simp [remaining]
        · cases h
        · split at h <;> cases h
          simp [remaining]
  | computing id name run routine =>
      simp only [move] at h
      split at h <;> cases h
      simp [remaining]
  | answered run answer => cases h

/-- Each step leaves less to do. -/
theorem Caller.work_lt_of_step {s s' : System Container Caller} {action : Nat}
    (h : s.step (move depth) turn = some (action, s')) : work s' < work s := by
  obtain ⟨caller, caller', hcaller, hmove, hthreads'⟩ := System.step_eq_some.1 h
  obtain ⟨before, after, hthreads, hset⟩ := System.exists_split hcaller
  have hless := Caller.remaining_of_move hmove
  rw [work, work, hthreads', hset, hthreads]
  simp only [List.map_append, List.map_cons, List.sum_append, List.sum_cons]
  omega

/-- Callers make three steps each at most. -/
theorem Caller.length_log (depth : Nat) (c : Container) (handles : List Handle)
    (schedule : List Nat) :
    ((system c handles).run (move depth) schedule).1.length ≤ 3 * handles.length := by
  have hpreserves : System.Preserves (move depth) fun log s =>
      log.length + work s ≤ 3 * handles.length := by
    intro log s turn action s' hlog hstep
    have hless := Caller.work_lt_of_step hstep
    rw [List.length_append, List.length_singleton]
    omega
  have hstart : work (system c handles) = 3 * handles.length := by
    rw [work, system, List.map_map]
    show (handles.map fun _ => 3).sum = _
    rw [List.map_const', List.sum_replicate_nat, Nat.mul_comm]
  have hrun := hpreserves.run (s := system c handles)
    (Nat.le_of_eq (by rw [hstart, List.length_nil, Nat.zero_add])) schedule
  omega

end LateBinding
