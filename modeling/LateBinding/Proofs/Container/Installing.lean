import LateBinding.Proofs.Outcome
import LateBinding.Proofs.Registry.Entries
import LateBinding.Container.Basic

set_option autoImplicit false

/-! # What an installation does

Configuration objects are refused as a whole where one of their methods declares parameters; where
they are `Acceptable`, their methods are installed one after the other. One installation gives one
name of one registry a new entry, with a fresh singleton behind the singletons that there are, and
touches nothing else: neither another name, nor another registry, nor a provider body.
-/

namespace LateBinding

/-! ## Which configuration objects are installed -/

/-- No method of the configuration objects declares parameters. -/
def Acceptable (configurations : List Configuration) : Prop :=
  ∀ configuration ∈ configurations, ∀ method ∈ configuration.methods, method.arity = 0

instance (configurations : List Configuration) : Decidable (Acceptable configurations) :=
  inferInstanceAs (Decidable (∀ configuration ∈ configurations,
    ∀ method ∈ configuration.methods, method.arity = 0))

theorem ProviderMethod.check_eq_ok {configuration : String} {method : ProviderMethod} :
    method.check configuration = .ok () ↔ method.arity = 0 := by
  unfold check
  split
  · next h => exact iff_of_true rfl h
  · next h => exact iff_of_false nofun h

theorem acceptable_iff {configurations : List Configuration} :
    configurations.forM Configuration.check = .ok () ↔ Acceptable configurations := by
  simp only [Except.forM_eq_ok, Configuration.check, ProviderMethod.check_eq_ok, Acceptable]

/-- A configuration object with a method that declares a parameter. -/
def Configuration.demanding : Configuration :=
  ⟨"demanding", [{ provides := "thanks", name := "fourth", body := 0 },
    { provides := "farewell", name := "fifth", body := 0, parameters := ["x"] }]⟩

example : ¬ Acceptable [.demanding] := by decide

/-- The singleton that a method gets when it is installed. -/
def ProviderMethod.fresh (method : ProviderMethod) : Singleton :=
  { name := method.provides, body := method.body }

namespace Container

variable {c : Container} {registry : String} {configurations : List Configuration}

/-- Acceptable configuration objects have all their methods installed. -/
theorem register_of_acceptable (h : Acceptable configurations) (c : Container)
    (registry : String) : c.register registry configurations =
      (.ok (configurations.flatMap Configuration.methods).length,
        (configurations.flatMap Configuration.methods).foldl (install registry) c) := by
  simp only [register, acceptable_iff.2 h]

/-- Where a method declares parameters, nothing is installed. -/
theorem register_of_not_acceptable (h : ¬ Acceptable configurations) (c : Container)
    (registry : String) : ∃ cause,
      c.register registry configurations = (.error (.configuration cause), c) := by
  unfold register
  cases hcheck : configurations.forM Configuration.check with
  | error cause => exact ⟨cause, rfl⟩
  | ok _ => exact absurd (acceptable_iff.1 hcheck) h

/-! ## One installation -/

theorem registry_install (registry : String) (c : Container) (method : ProviderMethod) :
    (c.install registry method).registries registry =
      (c.registries registry).insert ⟨method.provides, method.name, c.singletons.size⟩ :=
  if_pos rfl

theorem registry_install_of_ne {other : String} (h : other ≠ registry) (c : Container)
    (method : ProviderMethod) :
    (c.install registry method).registries other = c.registries other :=
  if_neg h

theorem lookup_install (registry : String) (c : Container) (method : ProviderMethod)
    (name : String) : (c.install registry method).lookup registry name =
      if method.provides = name then some ⟨method.provides, method.name, c.singletons.size⟩
      else c.lookup registry name := by
  rw [lookup, registry_install, Registry.find?_insert, lookup]

theorem singletons_install (registry : String) (c : Container) (method : ProviderMethod) :
    (c.install registry method).singletons = c.singletons.push method.fresh := rfl

/-- The singletons that there were are kept, with the values that they have. -/
theorem singleton?_install_of_some {id : SingletonId} {singleton : Singleton}
    (h : c.singletons[id]? = some singleton) (registry : String) (method : ProviderMethod) :
    (c.install registry method).singletons[id]? = some singleton := by
  obtain ⟨hlt, -⟩ := Array.getElem?_eq_some_iff.1 h
  rw [singletons_install, Array.getElem?_push, if_neg (Nat.ne_of_lt hlt), h]

/-- The new singleton is empty. -/
theorem singleton?_install_self (registry : String) (c : Container) (method : ProviderMethod) :
    (c.install registry method).singletons[c.singletons.size]? = some method.fresh :=
  Array.getElem?_push_size

theorem registry_clear (registry : String) (c : Container) :
    (c.clear registry).registries registry = {} :=
  if_pos rfl

theorem registry_clear_of_ne {other : String} (h : other ≠ registry) (c : Container) :
    (c.clear registry).registries other = c.registries other :=
  if_neg h

/-! ## Installations one after the other -/

/-- Installing methods changes nothing but the registry and the singletons that are there. -/
theorem foldl_install_frame (registry : String) (methods : List ProviderMethod) (c : Container) :
    ∃ entries, methods.foldl (install registry) c = { c with
      registries := fun other => if other = registry then entries else c.registries other
      singletons := c.singletons ++ (methods.map ProviderMethod.fresh).toArray } := by
  induction methods generalizing c with
  | nil =>
      refine ⟨c.registries registry, ?_⟩
      have hregistries : (fun other => if other = registry then c.registries registry
          else c.registries other) = c.registries := by
        funext other
        split
        · next h => rw [h]
        · rfl
      rw [hregistries, List.map_nil, Array.append_empty]
      rfl
  | cons method methods ih =>
      obtain ⟨entries, h⟩ := ih (c.install registry method)
      refine ⟨entries, ?_⟩
      have hsingletons : (c.install registry method).singletons ++
          (methods.map ProviderMethod.fresh).toArray =
          c.singletons ++ ((method :: methods).map ProviderMethod.fresh).toArray := by
        rw [singletons_install, List.map_cons, List.push_append_toArray]
      have hregistries : (fun other => if other = registry then entries
          else (c.install registry method).registries other) =
          fun other => if other = registry then entries else c.registries other := by
        funext other
        split
        · rfl
        · next hother => exact registry_install_of_ne hother c method
      rw [List.foldl_cons, h, hsingletons, hregistries]
      rfl

end Container

end LateBinding
