set_option autoImplicit false

/-! # Journals

A journal is a list to which items are added at its end: the methods that calls install, or the
actions of threads. Under a name, the last item counts (`latest?`). What an item has to do with the
items before it is said of every position in the journal (`Throughout`), and an addition asks for
the last position only.
-/

namespace LateBinding

/-! ## Positions in a journal -/

section Positions

variable {α : Type} {journal : List α} {last : α}

/-- An item of a journal that has grown is the new one, or stood there before. -/
theorem concat_eq_append_cons {earlier later : List α} {item : α} :
    journal ++ [last] = earlier ++ item :: later ↔
      journal = earlier ∧ last = item ∧ later = [] ∨
        ∃ between, later = between ++ [last] ∧ journal = earlier ++ item :: between := by
  constructor
  · intro h
    rcases List.eq_nil_or_concat later with rfl | ⟨between, other, rfl⟩
    · obtain ⟨hjournal, hlast⟩ := List.append_inj' h rfl
      cases hlast
      exact .inl ⟨hjournal, rfl, rfl⟩
    · rw [List.concat_eq_append, ← List.cons_append, ← List.append_assoc] at h
      obtain ⟨hjournal, hlast⟩ := List.append_inj' h rfl
      cases hlast
      exact .inr ⟨between, List.concat_eq_append, hjournal⟩
  · rintro (⟨rfl, rfl, rfl⟩ | ⟨between, rfl, rfl⟩)
    · rfl
    · rw [List.append_assoc, List.cons_append]

/-- Each item of a journal stands in the relation `P` to the part of the journal before it. -/
def Throughout (P : List α → α → Prop) (journal : List α) : Prop :=
  ∀ earlier item later, journal = earlier ++ item :: later → P earlier item

variable {P : List α → α → Prop}

theorem Throughout.nil : Throughout P [] := by
  intro earlier item later h
  cases earlier <;> cases h

theorem Throughout.concat (h : Throughout P journal) (hlast : P journal last) :
    Throughout P (journal ++ [last]) := by
  intro earlier item later hsplit
  rcases concat_eq_append_cons.1 hsplit with ⟨rfl, rfl, -⟩ | ⟨between, -, hjournal⟩
  · exact hlast
  · exact h earlier item between hjournal

end Positions

/-! ## The last item under a name -/

/-- The last of the items that are known under `name`, where `key` gives the name of an item. -/
def latest? {α : Type} (key : α → String) (name : String) (items : List α) : Option α :=
  items.reverse.find? (key · = name)

section Latest

variable {α : Type} {key : α → String} {name : String} {items : List α}

/-- A new item comes last under its own name, and no other name gets to see it. -/
theorem latest?_append_singleton (item : α) :
    latest? key name (items ++ [item]) =
      if key item = name then some item else latest? key name items := by
  unfold latest?
  rw [List.reverse_append, List.reverse_singleton, List.singleton_append, List.find?_cons]
  by_cases h : key item = name
  · simp only [h, decide_true, if_true]
  · simp only [h, decide_false, if_false]

theorem latest?_eq_none : latest? key name items = none ↔ ∀ item ∈ items, key item ≠ name := by
  simp only [latest?, List.find?_eq_none, List.mem_reverse, decide_eq_true_eq, ne_eq]

/-- The last item under a name is followed by items under other names only. -/
theorem latest?_eq_some {item : α} : latest? key name items = some item ↔
    key item = name ∧ ∃ earlier later, items = earlier ++ item :: later ∧
      ∀ other ∈ later, key other ≠ name := by
  unfold latest?
  rw [List.find?_eq_some_iff_append, decide_eq_true_eq]
  refine and_congr_right fun _ => ⟨?_, ?_⟩
  · rintro ⟨later, earlier, hitems, hlater⟩
    refine ⟨earlier.reverse, later.reverse, ?_, ?_⟩
    · have hreversed := congrArg List.reverse hitems
      simpa using hreversed
    · intro other hother
      simpa using hlater other (List.mem_reverse.1 hother)
  · rintro ⟨earlier, later, rfl, hlater⟩
    refine ⟨later.reverse, earlier.reverse, by simp, ?_⟩
    intro other hother
    simpa using hlater other (List.mem_reverse.1 hother)

theorem isSome_latest? : (latest? key name items).isSome ↔ ∃ item ∈ items, key item = name := by
  rw [latest?, List.find?_isSome]
  simp only [List.mem_reverse, decide_eq_true_eq]

end Latest

end LateBinding
