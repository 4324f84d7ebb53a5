import LateBinding.Module.FormatError

set_option autoImplicit false

/-! # Outcomes

Checks and readers answer with an `Except`, and most of what is said about them is when they
succeed and with what, and when they fail and why. These lemmas say it for the ways in which they
are put together.
-/

namespace Except

variable {ε ε' α β : Type}

theorem pure_eq_ok {value found : α} :
    (pure value : Except ε α) = .ok found ↔ value = found := by
  simp [pure, Except.pure]

theorem bind_eq_ok {x : Except ε α} {f : α → Except ε β} {value : β} :
    (x >>= f) = .ok value ↔ ∃ a, x = .ok a ∧ f a = .ok value := by
  cases x <;> simp [bind, Except.bind]

theorem bind_eq_error {x : Except ε α} {f : α → Except ε β} {e : ε} :
    (x >>= f) = .error e ↔ x = .error e ∨ ∃ a, x = .ok a ∧ f a = .error e := by
  cases x <;> simp [bind, Except.bind]

/-- A check has nothing to answer with but success. -/
theorem exists_unit {p : Unit → Prop} : (∃ u, p u) ↔ p () :=
  ⟨fun ⟨(), h⟩ => h, fun h => ⟨(), h⟩⟩

theorem mapError_eq_ok {f : ε → ε'} {x : Except ε α} {value : α} :
    x.mapError f = .ok value ↔ x = .ok value := by
  cases x with
  | error e => exact iff_of_false nofun nofun
  | ok a =>
      show (.ok a : Except ε' α) = .ok value ↔ _
      rw [Except.ok.injEq, Except.ok.injEq]

theorem mapError_eq_error {f : ε → ε'} {x : Except ε α} {e' : ε'} :
    x.mapError f = .error e' ↔ ∃ e, x = .error e ∧ f e = e' := by
  cases x with
  | ok a =>
      refine iff_of_false nofun ?_
      rintro ⟨e, hok, -⟩
      cases hok
  | error e =>
      show (.error (f e) : Except ε' α) = .error e' ↔ _
      simp

theorem toOption_eq_some {x : Except ε α} {value : α} :
    x.toOption = some value ↔ x = .ok value := by
  cases x with
  | error e => exact iff_of_false nofun nofun
  | ok a =>
      show some a = some value ↔ _
      rw [Option.some.injEq, Except.ok.injEq]

/-- A check of every item of a list succeeds when it succeeds on each. -/
theorem forM_eq_ok {items : List α} {check : α → Except ε Unit} :
    items.forM check = .ok () ↔ ∀ item ∈ items, check item = .ok () := by
  induction items with
  | nil => simp [pure, Except.pure]
  | cons item items ih =>
      rw [List.forM_eq_forM] at ih ⊢
      rw [List.forM_cons, bind_eq_ok, exists_unit, List.forall_mem_cons, ih]

/-- A check of every item of a list fails with the error of the first item that it fails on. -/
theorem forM_eq_error {items : List α} {check : α → Except ε Unit} {e : ε} :
    items.forM check = .error e ↔
      ∃ earlier item later, items = earlier ++ item :: later ∧
        (∀ other ∈ earlier, check other = .ok ()) ∧ check item = .error e := by
  induction items with
  | nil =>
      refine iff_of_false nofun ?_
      rintro ⟨earlier, item, later, hitems, -⟩
      cases earlier <;> cases hitems
  | cons first items ih =>
      rw [List.forM_eq_forM] at ih ⊢
      rw [List.forM_cons]
      cases hfirst : check first with
      | error found =>
          -- the first item is the one, whatever follows it
          show Except.error found = .error e ↔ _
          constructor
          · intro h
            cases h
            exact ⟨[], first, items, rfl, nofun, hfirst⟩
          · rintro ⟨earlier, item, later, hitems, hearlier, hitem⟩
            cases earlier with
            | nil =>
                cases hitems
                exact hfirst.symm.trans hitem
            | cons _ _ =>
                cases hitems
                have hok : check first = .ok () := hearlier first (List.mem_cons_self ..)
                rw [hfirst] at hok
                cases hok
      | ok _ =>
          show forM items check = .error e ↔ _
          rw [ih]
          constructor
          · rintro ⟨earlier, item, later, rfl, hearlier, hitem⟩
            have hall : ∀ other ∈ first :: earlier, check other = .ok () :=
              List.forall_mem_cons.2 ⟨hfirst, hearlier⟩
            exact ⟨first :: earlier, item, later, rfl, hall, hitem⟩
          · rintro ⟨earlier, item, later, hitems, hearlier, hitem⟩
            cases earlier with
            | nil =>
                cases hitems
                rw [hfirst] at hitem
                cases hitem
            | cons _ earlier =>
                cases hitems
                exact ⟨earlier, item, later, rfl, (List.forall_mem_cons.1 hearlier).2, hitem⟩

/-- A list is mapped item by item, here where the outcome for an item is known: `f` succeeds
on the items with the property `p`, with what `g` gives. -/
theorem mapM_eq_ok {f : α → Except ε β} {p : α → Prop} {g : α → β}
    (hf : ∀ a b, f a = .ok b ↔ p a ∧ b = g a) {items : List α} {results : List β} :
    items.mapM f = .ok results ↔ (∀ item ∈ items, p item) ∧ results = items.map g := by
  induction items generalizing results with
  | nil =>
      rw [List.mapM_nil, pure_eq_ok]
      simp [eq_comm]
  | cons item items ih =>
      simp only [List.mapM_cons, bind_eq_ok, pure_eq_ok, hf, ih, List.forall_mem_cons,
        List.map_cons]
      constructor
      · rintro ⟨_, ⟨hitem, rfl⟩, _, ⟨hitems, rfl⟩, rfl⟩
        exact ⟨⟨hitem, hitems⟩, rfl⟩
      · rintro ⟨⟨hitem, hitems⟩, rfl⟩
        exact ⟨_, ⟨hitem, rfl⟩, _, ⟨hitems, rfl⟩, rfl⟩

end Except

namespace LateBinding

theorem orFormat_eq_ok {α : Type} {x : Except PoolFault α} {value : α} :
    orFormat x = .ok value ↔ x = .ok value :=
  Except.mapError_eq_ok

end LateBinding
