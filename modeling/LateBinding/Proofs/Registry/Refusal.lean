import LateBinding.Proofs.Registry.History

set_option autoImplicit false

/-! # Registering is all or nothing

Configuration objects are checked before any of their methods is installed. `FirstDemanding` is the
method that they are refused for: the first that declares parameters, in the order of the objects
and then of their methods. `register_eq_error` says that a `register` fails for this method only,
with an error that names it, and leaves the container as it was. Where there is no such method,
objects may as well be registered in two calls as in one (`register_append`).
-/

namespace LateBinding

variable {configurations : List Configuration} {configuration : Configuration}
  {method : ProviderMethod} {cause : ConfigurationError}

/-! ## The method that is refused -/

/-- The method is the first that declares parameters, in the order of the configuration objects and
then of their methods. -/
structure FirstDemanding (configurations : List Configuration) (configuration : Configuration)
    (method : ProviderMethod) : Prop where
  place : ∃ before after, configurations = before ++ configuration :: after ∧ Acceptable before
  within : ∃ earlier later, configuration.methods = earlier ++ method :: later ∧
    ∀ other ∈ earlier, other.arity = 0
  demands : 0 < method.arity

/-- What is said of a method that is refused. -/
def Configuration.refusal (configuration : Configuration) (method : ProviderMethod) :
    ConfigurationError :=
  .takesParameters configuration.name method.name method.arity method.provides

theorem ProviderMethod.check_eq_error {name : String} :
    method.check name = .error cause ↔
      0 < method.arity ∧
        cause = .takesParameters name method.name method.arity method.provides := by
  unfold check
  split
  · next h =>
      refine iff_of_false nofun ?_
      rintro ⟨hpos, -⟩
      omega
  · next h =>
      rw [Except.error.injEq, and_iff_right (Nat.pos_of_ne_zero h)]
      exact eq_comm

theorem Configuration.check_eq_ok :
    configuration.check = .ok () ↔ ∀ method ∈ configuration.methods, method.arity = 0 := by
  simp only [Configuration.check, Except.forM_eq_ok, ProviderMethod.check_eq_ok]

/-- Configuration objects are refused for the first method that declares parameters. -/
theorem forM_check_eq_error :
    configurations.forM Configuration.check = .error cause ↔
      ∃ configuration method, FirstDemanding configurations configuration method ∧
        cause = configuration.refusal method := by
  rw [Except.forM_eq_error]
  constructor
  · rintro ⟨before, configuration, after, hplace, hbefore, hcheck⟩
    obtain ⟨earlier, method, later, hwithin, hearlier, hmethod⟩ := Except.forM_eq_error.1 hcheck
    obtain ⟨hdemands, hcause⟩ := ProviderMethod.check_eq_error.1 hmethod
    have hacceptable : Acceptable before :=
      fun other hother => Configuration.check_eq_ok.1 (hbefore other hother)
    have hzero : ∀ other ∈ earlier, other.arity = 0 :=
      fun other hother => ProviderMethod.check_eq_ok.1 (hearlier other hother)
    exact ⟨configuration, method,
      ⟨⟨before, after, hplace, hacceptable⟩, ⟨earlier, later, hwithin, hzero⟩, hdemands⟩, hcause⟩
  · rintro ⟨configuration, method, h, hcause⟩
    obtain ⟨before, after, hplace, hacceptable⟩ := h.place
    obtain ⟨earlier, later, hwithin, hzero⟩ := h.within
    have hmethod := ProviderMethod.check_eq_error.2 ⟨h.demands, hcause⟩
    refine ⟨before, configuration, after, hplace, ?_, ?_⟩
    · intro other hother
      exact Configuration.check_eq_ok.2 (hacceptable other hother)
    · exact Except.forM_eq_error.2 ⟨earlier, method, later, hwithin,
        fun other hother => ProviderMethod.check_eq_ok.2 (hzero other hother), hmethod⟩

/-- What is said in words of a method that is refused. -/
theorem Configuration.message_refusal (owner : Configuration) (p : ProviderMethod) :
    (Error.configuration (owner.refusal p)).message =
      "Configuration error: " ++ ("The provider method must be a no-args method: " ++
        s!"{owner.name}::{p.name} declares {p.arity} parameter(s) for '{p.provides}'") :=
  rfl

/-- A configuration object that provides a name once more. -/
def Configuration.modest : Configuration :=
  ⟨"modest", [{ provides := "greeting", name := "again", body := 0 }]⟩

namespace Container

variable {c : Container} {registry : String}

theorem register_of_check_error (h : configurations.forM Configuration.check = .error cause) :
    c.register registry configurations = (.error (.configuration cause), c) := by
  simp only [register, h]

/-- A `register` fails for the first method that declares parameters, and then changes nothing. -/
theorem register_eq_error {e : Error} {after : Container} :
    c.register registry configurations = (.error e, after) ↔
      ∃ configuration method, FirstDemanding configurations configuration method ∧
        e = .configuration (configuration.refusal method) ∧ after = c := by
  constructor
  · intro h
    cases hcheck : configurations.forM Configuration.check with
    | ok _ =>
        simp only [register, hcheck] at h
        cases h
    | error cause =>
        rw [register_of_check_error hcheck] at h
        cases h
        obtain ⟨configuration, method, hfirst, rfl⟩ := forM_check_eq_error.1 hcheck
        exact ⟨configuration, method, hfirst, rfl, rfl⟩
  · rintro ⟨configuration, method, hfirst, rfl, rfl⟩
    exact register_of_check_error (forM_check_eq_error.2 ⟨configuration, method, hfirst, rfl⟩)

/-- A `register` fails where some method declares parameters. -/
theorem register_fails_iff :
    (∃ e, (c.register registry configurations).1 = .error e) ↔
      ∃ configuration ∈ configurations, ∃ method ∈ configuration.methods, 0 < method.arity := by
  have hdemanding : ¬ Acceptable configurations ↔
      ∃ configuration ∈ configurations, ∃ method ∈ configuration.methods, 0 < method.arity := by
    simp only [Acceptable, not_forall, exists_prop, Nat.pos_iff_ne_zero, ne_eq]
  rw [← hdemanding]
  constructor
  · rintro ⟨e, he⟩ hacceptable
    rw [register_of_acceptable hacceptable] at he
    cases he
  · intro hnot
    obtain ⟨cause, hregister⟩ := register_of_not_acceptable hnot c registry
    exact ⟨_, congrArg Prod.fst hregister⟩

/-! ## Two calls instead of one -/

/-- Acceptable configuration objects can be registered in two calls as well as in one. -/
theorem register_append {first second : List Configuration} (hfirst : Acceptable first)
    (hsecond : Acceptable second) (c : Container) (registry : String) :
    ∃ n n' between after, c.register registry first = (.ok n, between) ∧
      between.register registry second = (.ok n', after) ∧
      c.register registry (first ++ second) = (.ok (n + n'), after) := by
  have hboth : Acceptable (first ++ second) := List.forall_mem_append.2 ⟨hfirst, hsecond⟩
  refine ⟨_, _, _, _, register_of_acceptable hfirst c registry,
    register_of_acceptable hsecond _ registry, ?_⟩
  rw [register_of_acceptable hboth, List.flatMap_append, List.length_append, List.foldl_append]

/-- **Registering is all or nothing.** Whatever a registry holds, a `register` fails exactly where
one of the methods declares parameters. It then reports the first such method, in the order of the
configuration objects and then of their methods, with the name of its object, its own name, the
number of its parameters and the name that it provides; and it leaves the container as it was, with
every entry, every value that is kept, every call site and every run count. Where no method declares
parameters, all of them are installed, and their number is the answer; registering the objects of
two lists together leaves the same container as registering the one list and then the other, and
answers with the sum of the two numbers. -/
theorem register_all_or_nothing (c : Container) (registry : String) :
    (∀ configurations,
      ((∃ e, (c.register registry configurations).1 = .error e) ↔
        ∃ configuration ∈ configurations, ∃ method ∈ configuration.methods, 0 < method.arity) ∧
      ∀ e after, c.register registry configurations = (.error e, after) ↔
        ∃ configuration method, FirstDemanding configurations configuration method ∧
          e = .configuration (configuration.refusal method) ∧ after = c) ∧
    (∀ (owner : Configuration) (p : ProviderMethod),
      (Error.configuration (owner.refusal p)).message =
        "Configuration error: " ++ ("The provider method must be a no-args method: " ++
          s!"{owner.name}::{p.name} declares {p.arity} parameter(s) for '{p.provides}'")) ∧
    ∀ first second, Acceptable (first ++ second) →
      c.Accepts registry (first ++ second) ∧
      ∃ n n' between after, c.register registry first = (.ok n, between) ∧
        between.register registry second = (.ok n', after) ∧
        c.register registry (first ++ second) = (.ok (n + n'), after) := by
  refine ⟨fun configurations => ⟨register_fails_iff, fun e after => register_eq_error⟩,
    Configuration.message_refusal, ?_⟩
  intro first second hboth
  obtain ⟨hfirst, hsecond⟩ := List.forall_mem_append.1 hboth
  exact ⟨accepts_of_acceptable hboth c registry, register_append hfirst hsecond c registry⟩

/-- A container with a provider that has its value and a call site that is bound to it. -/
def frequented : Container where
  bodies := #[{ routine := fun _ _ => .done (.ok (.int 7)), runs := 1 }]
  singletons := #[{ name := "greeting", body := 0, state := .full (.int 7) }]
  registries := fun _ => ⟨[⟨"greeting", "provide", 0⟩]⟩
  sites := #[{ symbol := "greeting", slot := "slot", target := some 0 }]

theorem register_all_or_nothing_frequented :
    frequented.register "main" [.modest, .demanding, .modest] =
      (.error (.configuration (.takesParameters "demanding" "fifth" 1 "farewell")), frequented) ∧
    Acceptable ([.modest] ++ [.modest]) ∧
    ∃ n n' between after, frequented.register "main" [.modest] = (.ok n, between) ∧
      between.register "main" [.modest] = (.ok n', after) ∧
      frequented.register "main" ([.modest] ++ [.modest]) = (.ok (n + n'), after) := by
  obtain ⟨hrefused, -, haccepted⟩ := register_all_or_nothing frequented "main"
  obtain ⟨-, herror⟩ := hrefused [.modest, .demanding, .modest]
  have hboth : Acceptable ([.modest] ++ [.modest]) := by decide
  have hfirst : FirstDemanding [.modest, .demanding, .modest] .demanding
      { provides := "farewell", name := "fifth", body := 0, parameters := ["x"] } :=
    ⟨⟨[.modest], [.modest], rfl, by decide⟩, ⟨[_], [], rfl, by decide⟩, by decide⟩
  exact ⟨(herror _ _).2 ⟨_, _, hfirst, rfl, rfl⟩, hboth, (haccepted [.modest] [.modest] hboth).2⟩

end Container

end LateBinding
