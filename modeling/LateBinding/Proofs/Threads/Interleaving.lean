set_option autoImplicit false

/-! # Threads that share something

A `System` is a list of threads and what they share. What a thread does when it is its turn is
given by a function `move`: an action, what is left of the thread, and what becomes of the shared
part; or nothing, when the thread has finished or has to wait. A schedule is a list of turns. `run`
takes the turns one after the other, passes over the threads that cannot move, and logs the actions
of all others.

To prove something of every interleaving means to prove it of every schedule: what each step keeps
holds after every run (`Preserves.run`).
-/

namespace LateBinding

/-- Threads, and what they share. -/
structure System (σ τ : Type) where
  shared : σ
  threads : List τ

namespace System

variable {σ τ α : Type} (move : Nat → τ → σ → Option (α × τ × σ)) {s s' : System σ τ} {turn : Nat}
  {action : α}

/-- The step of the thread at `turn`, if it can move. -/
def step (turn : Nat) (s : System σ τ) : Option (α × System σ τ) :=
  match s.threads[turn]? with
  | none => none
  | some thread => (move turn thread s.shared).map fun (action, thread, shared) =>
    (action, ⟨shared, s.threads.set turn thread⟩)

/-- The actions of the threads that come to move, and the system after them. -/
def run : (schedule : List Nat) → System σ τ → List α × System σ τ
  | [], s => ([], s)
  | turn :: schedule, s =>
    match s.step move turn with
    | none => run schedule s
    | some (action, s) =>
      let (log, s) := run schedule s
      (action :: log, s)

/-- No thread can move any more. -/
def AtRest (s : System σ τ) : Prop := ∀ turn, s.step move turn = none

variable {move}

theorem step_eq_some : s.step move turn = some (action, s') ↔
    ∃ thread thread', s.threads[turn]? = some thread ∧
      move turn thread s.shared = some (action, thread', s'.shared) ∧
      s'.threads = s.threads.set turn thread' := by
  obtain ⟨shared', threads'⟩ := s'
  unfold step
  cases hthread : s.threads[turn]? with
  | none => simp
  | some thread =>
      simp only [Option.map_eq_some_iff, Prod.exists, Prod.mk.injEq, System.mk.injEq]
      constructor
      · rintro ⟨_, thread', _, hmove, rfl, rfl, rfl⟩
        exact ⟨thread, thread', rfl, hmove, rfl⟩
      · rintro ⟨_, thread', hsame, hmove, rfl⟩
        cases hsame
        exact ⟨action, thread', shared', hmove, rfl, rfl, rfl⟩

theorem step_eq_none : s.step move turn = none ↔
    ∀ thread, s.threads[turn]? = some thread → move turn thread s.shared = none := by
  unfold step
  cases hthread : s.threads[turn]? with
  | none => simp
  | some thread => simp

/-- At rest, no thread can move. -/
theorem AtRest.move_eq_none (h : AtRest move s) {thread : τ}
    (hthread : s.threads[turn]? = some thread) : move turn thread s.shared = none :=
  step_eq_none.1 (h turn) thread hthread

theorem run_cons_of_none (h : s.step move turn = none) (schedule : List Nat) :
    s.run move (turn :: schedule) = s.run move schedule := by
  rw [run, h]

theorem run_cons_of_some (h : s.step move turn = some (action, s')) (schedule : List Nat) :
    s.run move (turn :: schedule) =
      (action :: (s'.run move schedule).1, (s'.run move schedule).2) := by
  rw [run, h]

/-- A thread stands between others, which stay when it is replaced. -/
theorem exists_split {threads : List τ} {thread : τ} (h : threads[turn]? = some thread) :
    ∃ before after, threads = before ++ thread :: after ∧
      ∀ thread', threads.set turn thread' = before ++ thread' :: after := by
  obtain ⟨hlt, rfl⟩ := List.getElem?_eq_some_iff.1 h
  refine ⟨threads.take turn, threads.drop (turn + 1), ?_, fun thread' => ?_⟩
  · rw [List.getElem_cons_drop, List.take_append_drop]
  · rw [List.set_eq_take_append_cons_drop, if_pos hlt]

/-- Where `mark` marks no two threads alike, a mark belongs to one place. -/
theorem turn_unique {β : Type} {mark : τ → Option β} {threads : List τ}
    (h : (threads.filterMap mark).Nodup) {other : Nat} {thread thread' : τ} {value : β}
    (hturn : threads[turn]? = some thread) (hother : threads[other]? = some thread')
    (hmark : mark thread = some value) (hmark' : mark thread' = some value) : turn = other := by
  induction threads generalizing turn other with
  | nil => cases hturn
  | cons first rest ih =>
      have hrest : (rest.filterMap mark).Nodup :=
        h.sublist ((List.sublist_cons_self first rest).filterMap mark)
      -- the mark of the first thread is not found again
      have hfirst : ∀ thread ∈ rest, mark first = some value → mark thread ≠ some value := by
        intro thread hmem hvalue hagain
        rw [List.filterMap_cons, hvalue] at h
        exact (List.nodup_cons.1 h).1 (List.mem_filterMap.2 ⟨thread, hmem, hagain⟩)
      cases turn with
      | zero =>
          cases hturn
          cases other with
          | zero => rfl
          | succ other => exact absurd hmark' (hfirst thread' (List.mem_of_getElem? hother) hmark)
      | succ turn =>
          cases other with
          | zero =>
              cases hother
              exact absurd hmark (hfirst thread (List.mem_of_getElem? hturn) hmark')
          | succ other => exact congrArg (· + 1) (ih hrest hturn hother)

/-! ## What all runs have in common -/

/-- Whatever has been logged so far, a step keeps `P`. -/
def Preserves (move : Nat → τ → σ → Option (α × τ × σ)) (P : List α → System σ τ → Prop) : Prop :=
  ∀ ⦃log s turn action s'⦄, P log s → s.step move turn = some (action, s') → P (log ++ [action]) s'

variable {P : List α → System σ τ → Prop} {log : List α}

theorem Preserves.run_from (h : Preserves move P) (schedule : List Nat) (hs : P log s) :
    P (log ++ (s.run move schedule).1) (s.run move schedule).2 := by
  induction schedule generalizing log s with
  | nil => rwa [run, List.append_nil]
  | cons turn schedule ih =>
      cases hstep : s.step move turn with
      | none =>
          rw [run_cons_of_none hstep]
          exact ih hs
      | some result =>
          obtain ⟨action, s'⟩ := result
          rw [run_cons_of_some hstep, List.append_cons]
          exact ih (h hs hstep)

/-- What holds at the start and is kept by each step holds after every run. -/
theorem Preserves.run (h : Preserves move P) (hs : P [] s) (schedule : List Nat) :
    P (s.run move schedule).1 (s.run move schedule).2 :=
  h.run_from schedule hs

/-- Where each step lowers a measure, every system comes to rest on some schedule. -/
theorem exists_atRest {measure : System σ τ → Nat}
    (h : ∀ ⦃s turn action s'⦄, s.step move turn = some (action, s') → measure s' < measure s)
    (s : System σ τ) : ∃ schedule, (s.run move schedule).2.AtRest move := by
  induction hn : measure s using Nat.strongRecOn generalizing s with
  | ind n ih =>
      by_cases hrest : s.AtRest move
      · exact ⟨[], hrest⟩
      · obtain ⟨turn, hturn⟩ := Classical.not_forall.1 hrest
        obtain ⟨⟨action, s'⟩, hstep⟩ := Option.ne_none_iff_exists'.1 hturn
        obtain ⟨schedule, hschedule⟩ := ih (measure s') (hn ▸ h hstep) s' rfl
        refine ⟨turn :: schedule, ?_⟩
        rwa [run_cons_of_some hstep]

end System

end LateBinding
