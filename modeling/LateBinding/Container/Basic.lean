import LateBinding.Registry.Basic
import LateBinding.Registry.Provider

set_option autoImplicit false

/-! # The container

The container holds everything that outlives a single operation: provider bodies with
their run counts, the singletons, the registries, the call sites, the instances, and the
configuration objects that are known by name. Bodies, singletons, call sites and instances
are known by the place at which they were added and are never removed.
-/

namespace LateBinding

/-- A provider body and how often it has been run. -/
structure Body where
  routine : Nat → List Value → Routine
  runs : Nat := 0

/-- How far a singleton has come. -/
inductive SingletonState where
  | empty
  /-- The value is being computed. -/
  | running
  | full (value : Value)
  deriving DecidableEq, Inhabited

/-- Keeps one value for good once its body has computed it. -/
structure Singleton where
  name : String
  body : BodyId
  state : SingletonState := .empty
  deriving Inhabited

/-- Whether the value has been computed. -/
def Singleton.isInitialized (singleton : Singleton) : Bool :=
  match singleton.state with
  | .full _ => true
  | .empty | .running => false

/-- Where a call site is kept. -/
abbrev SiteId := Nat

/-- A place in a program that calls a provider, bound to one for good at its first use. -/
structure CallSite where
  /-- Name of the provider. -/
  symbol : String
  /-- Name of the field that the call stands for. -/
  slot : String
  target : Option SingletonId := none
  deriving DecidableEq, Inhabited

/-- Whether the site is bound to a provider. -/
def CallSite.isLinked (site : CallSite) : Bool := site.target.isSome

/-- The site as a listing shows it. -/
def CallSite.listing (site : CallSite) : String :=
  Text.record "CallSite" [("symbol", Text.quoted site.symbol),
    ("slot", Text.quoted site.slot), ("linked", toString site.isLinked)]

/-- Everything that outlives a single operation. -/
structure Container where
  bodies : Array Body := #[]
  singletons : Array Singleton := #[]
  registries : String → Registry := fun _ => {}
  sites : Array CallSite := #[]
  heap : Heap := #[]
  catalog : String → Option Configuration := fun _ => none

instance : Inhabited Container := ⟨{}⟩

namespace Container

/-! ## Adding and looking up -/

/-- Keep a provider body. -/
def addBody (c : Container) (routine : Nat → List Value → Routine) : BodyId × Container :=
  (c.bodies.size, { c with bodies := c.bodies.push { routine } })

/-- How often a body has been run. -/
def runs (c : Container) (id : BodyId) : Nat := (c.bodies[id]?.map Body.runs).getD 0

/-- Keep a singleton that is empty. -/
def addSingleton (c : Container) (name : String) (body : BodyId) : SingletonId × Container :=
  (c.singletons.size, { c with singletons := c.singletons.push { name, body } })

/-- Whether the singleton at `id` has its value. -/
def isInitialized (c : Container) (id : SingletonId) : Bool :=
  (c.singletons[id]?.map Singleton.isInitialized).getD false

/-- Set how far the singleton at `id` has come. -/
def setState (c : Container) (id : SingletonId) (state : SingletonState) : Container :=
  { c with singletons := c.singletons.modify id fun s => { s with state } }

/-- Keep a call site that is not bound. -/
def addSite (c : Container) (symbol slot : String) : SiteId × Container :=
  (c.sites.size, { c with sites := c.sites.push { symbol, slot } })

/-- The call site at `id`. -/
def site (c : Container) (id : SiteId) : CallSite := c.sites.getD id default

/-- Create an instance with empty slots. -/
def create (c : Container) (owner : String) (slots : Nat) : Value × Container :=
  let (id, heap) := c.heap.allocate owner slots
  (.object id, { c with heap })

/-- Make a configuration object known under a name. -/
def define (c : Container) (name : String) (configuration : Configuration) : Container :=
  { c with catalog := fun other => if other = name then some configuration else c.catalog other }

/-! ## Registries -/

/-- Put a registry under a name. -/
def setRegistry (c : Container) (name : String) (registry : Registry) : Container :=
  { c with registries := fun other => if other = name then registry else c.registries other }

/-- The entry called `name` of a registry. -/
def lookup (c : Container) (registry name : String) : Option Entry :=
  (c.registries registry).find? name

/-- Remove every entry of a registry. -/
def clear (c : Container) (registry : String) : Container := c.setRegistry registry {}

/-- Install a provider method in a registry, with a fresh singleton. -/
def install (registry : String) (c : Container) (method : ProviderMethod) : Container :=
  let (singleton, c) := c.addSingleton method.provides method.body
  c.setRegistry registry
    ((c.registries registry).insert ⟨method.provides, method.name, singleton⟩)

/-- Install every method of the configuration objects in a registry, in order, and answer
with their number. Where one of the methods declares parameters, nothing is installed. -/
def register (c : Container) (registry : String) (configurations : List Configuration) :
    Except Error Nat × Container :=
  match configurations.forM Configuration.check with
  | .error cause => (.error (.configuration cause), c)
  | .ok () =>
    let methods := configurations.flatMap Configuration.methods
    (.ok methods.length, methods.foldl (install registry) c)

/-- The singleton known under `symbol` in a registry, for a call that stands for the field
`slot`. There is no value to fall back on. -/
def resolve (c : Container) (registry symbol slot : String) : Except Error SingletonId :=
  match c.lookup registry symbol with
  | some entry => .ok entry.singleton
  | none => .error (.linkage symbol slot)

end Container

end LateBinding
