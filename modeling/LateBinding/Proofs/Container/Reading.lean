import LateBinding.Container.Read

set_option autoImplicit false

/-! # What a read of a singleton comes to

A singleton that has its value answers with it. One that is empty runs its body once: the outcome
of this run decides what state the singleton is in afterwards (`SingletonState.after`), and an
error is answered in the provider's name. No other read has a result, which `readSingleton_eq_some`
states as an inversion.
-/

namespace LateBinding

/-- An error in a provider's name is a failure of some provider. -/
theorem Error.ofProvider_eq (name : String) (e : Error) :
    ∃ inner text, e.ofProvider name = .provider inner text := by
  cases e with
  | provider inner text => exact ⟨inner, text, rfl⟩
  | _ => exact ⟨name, _, rfl⟩

/-- How far a singleton has come when a run of its body has ended like this. -/
def SingletonState.after : Except Error Value → SingletonState
  | .ok value => .full value
  | .error _ => .empty

namespace Container

variable {c c' : Container} {depth : Nat} {id : SingletonId} {singleton : Singleton} {value : Value}
  {answer : Except Error Value}

/-- Setting how far a singleton has come keeps everything else about it. -/
theorem singleton?_setState_self {state : SingletonState}
    (hs : c.singletons[id]? = some singleton) :
    (c.setState id state).singletons[id]? = some { singleton with state } := by
  simp only [setState, Array.getElem?_modify, if_true, hs, Option.map_some]

/-- Setting how far a singleton has come leaves all others as they are. -/
theorem singleton?_setState_of_ne {other : SingletonId} {state : SingletonState}
    (h : id ≠ other) : (c.setState id state).singletons[other]? = c.singletons[other]? := by
  simp only [setState, Array.getElem?_modify, if_neg h]

/-- A singleton that has its value answers with it, and nothing changes. -/
theorem readSingleton_of_full (hs : c.singletons[id]? = some singleton)
    (hstate : singleton.state = .full value) (depth : Nat) :
    readSingleton (depth + 1) id c = some (.ok value, c) := by
  simp only [readSingleton, hs, hstate]

/-- An empty singleton answers with the outcome of one run of its body. -/
theorem readSingleton_of_empty (hs : c.singletons[id]? = some singleton)
    (hstate : singleton.state = .empty) (depth : Nat) :
    readSingleton (depth + 1) id c =
      (runBody (readSingleton depth) singleton.body [] (c.setState id .running)).map
        fun (outcome, c) => (outcome.mapError (Error.ofProvider singleton.name),
          c.setState id (.after outcome)) := by
  simp only [readSingleton, hs, hstate]
  cases runBody (readSingleton depth) singleton.body [] (c.setState id .running) with
  | none => rfl
  | some result =>
      obtain ⟨outcome, c₁⟩ := result
      cases outcome <;> rfl

/-- A read that has a result found the value, or found nothing and ran the body once. -/
theorem readSingleton_eq_some (h : readSingleton depth id c = some (answer, c')) :
    ∃ less singleton, depth = less + 1 ∧ c.singletons[id]? = some singleton ∧
      ((∃ value, singleton.state = .full value ∧ answer = .ok value ∧ c' = c) ∨
        singleton.state = .empty ∧ ∃ outcome c₁,
          runBody (readSingleton less) singleton.body [] (c.setState id .running) =
            some (outcome, c₁) ∧
          answer = outcome.mapError (Error.ofProvider singleton.name) ∧
          c' = c₁.setState id (.after outcome)) := by
  cases depth with
  | zero => cases h
  | succ less =>
      cases hs : c.singletons[id]? with
      | none => simp [readSingleton, hs] at h
      | some singleton =>
          refine ⟨less, singleton, rfl, rfl, ?_⟩
          cases hstate : singleton.state with
          | running => simp [readSingleton, hs, hstate] at h
          | full value =>
              rw [readSingleton_of_full hs hstate] at h
              cases h
              exact .inl ⟨value, rfl, rfl, rfl⟩
          | empty =>
              rw [readSingleton_of_empty hs hstate, Option.map_eq_some_iff] at h
              obtain ⟨⟨outcome, c₁⟩, hrun, h⟩ := h
              cases h
              exact .inr ⟨rfl, outcome, c₁, hrun, rfl, rfl⟩

/-- A read fails in the name of a provider only. -/
theorem error_of_readSingleton {e : Error}
    (h : readSingleton depth id c = some (.error e, c')) :
    ∃ name text, e = .provider name text := by
  obtain ⟨_, singleton, -, -, ⟨_, -, h, -⟩ | ⟨-, outcome, _, -, h, -⟩⟩ := readSingleton_eq_some h
  · cases h
  · cases outcome with
    | ok value => cases h
    | error e =>
        cases h
        exact e.ofProvider_eq singleton.name

end Container

end LateBinding
