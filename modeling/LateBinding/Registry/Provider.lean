import LateBinding.Error.Basic
import LateBinding.Text.Printing
import LateBinding.Value

set_option autoImplicit false

/-! # Providers

A configuration object publishes provider methods; each computes the value known under one
name. The computation, a `Routine`, is a tree: at each node it asks its surroundings for one
thing and goes on with the answer, and at a leaf it gives its value or its error. It may
create instances and ask how a value is displayed, ask a registry for the value under some
name, and register further configuration objects.

These are all its operations. A body cannot see or change the slots of an instance, clear a
registry, bind or invoke a call site, or load and run a module. What is proved about reads and
about invocations is about bodies that do none of this.

A provider body is a routine for each run: it depends on how many times the body has been
run, this run included, and on the arguments.
-/

namespace LateBinding

/-- Where a provider body is kept. -/
abbrev BodyId := Nat

/-- What a provider body computes. -/
inductive Routine where
  /-- Give a value or an error. -/
  | done (result : Except Error Value)
  /-- Create an instance of `owner` with `slots` slots. -/
  | create (owner : String) (slots : Nat) (next : Value → Routine)
  /-- Ask how a value is displayed. -/
  | display (value : Value) (next : String → Routine)
  /-- Ask a registry for the value under `name`. -/
  | get (registry name : String) (next : Except Error Value → Routine)
  /-- Register the configuration objects known by `names` in a registry. -/
  | register (registry : String) (names : List String) (next : Except Error Nat → Routine)

/-- A method of a configuration object that computes a provider's value. -/
structure ProviderMethod where
  /-- The name under which the value will be known. -/
  provides : String
  /-- Name of the method. -/
  name : String
  parameters : List String := []
  /-- Whether the body is handed the arguments of a call. -/
  forwards : Bool := false
  body : BodyId
  deriving Inhabited

/-- Number of declared parameters. -/
def ProviderMethod.arity (method : ProviderMethod) : Nat := method.parameters.length

/-- The method as a listing shows it. -/
def ProviderMethod.listing (method : ProviderMethod) : String :=
  Text.partialRecord "ProviderMethod" [("provides", Text.quoted method.provides),
    ("method", Text.quoted method.name), ("parameters", Text.quotedList method.parameters)]

/-- An object that publishes provider methods. -/
structure Configuration where
  name : String
  methods : List ProviderMethod
  deriving Inhabited

/-- Refuse a method that declares parameters. -/
def ProviderMethod.check (configuration : String) (method : ProviderMethod) :
    Except ConfigurationError Unit :=
  if method.arity = 0 then .ok ()
  else .error (.takesParameters configuration method.name method.arity method.provides)

/-- Refuse a configuration object for the first of its methods that declares parameters. -/
def Configuration.check (configuration : Configuration) : Except ConfigurationError Unit :=
  configuration.methods.forM (·.check configuration.name)

/-- A configuration object that announces itself, with what it says of itself. -/
structure Discoverable where
  name : String
  description : String
  configuration : Configuration

end LateBinding
