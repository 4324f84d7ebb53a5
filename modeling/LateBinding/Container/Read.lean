import LateBinding.Container.Basic

set_option autoImplicit false

/-! # Reading providers

Reading a singleton gives the value that it keeps. While it has none, reading runs its
body: a value is kept for good, and an error leaves the singleton empty, so the next read
runs the body again. The error names the provider that failed, unless it names one already.

The body may read further providers, and so on; `depth` bounds how deeply such reads may be
nested. A read has no result, `none`, when that bound is too small, and also when the
singleton is being computed already: a body that waits for its own value waits for ever.
-/

namespace LateBinding

/-- The outcome of something that may change the container; `none` if it never ends. -/
abbrev Effect (α : Type) := Container → Option (Except Error α × Container)

/-- The error of a provider called `name`. -/
def Error.ofProvider (name : String) : Error → Error
  | .provider inner text => .provider inner text
  | other => .provider name other.message

/-- The slot named in a failure to find a provider that a registry was asked for directly. -/
def registrySlot : String := "<registry>"

/-- Run a routine, with `read` for reading singletons. -/
def Routine.run (read : SingletonId → Effect Value) : Routine → Effect Value
  | .done result, c => some (result, c)
  | .create owner slots next, c =>
    let (value, c) := c.create owner slots
    (next value).run read c
  | .display value next, c => (next (c.heap.display value)).run read c
  | .get registry name next, c =>
    match c.resolve registry name registrySlot with
    | .error e => (next (.error e)).run read c
    | .ok id =>
      match read id c with
      | none => none
      | some (result, c) => (next result).run read c
  | .register registry names next, c =>
    let (result, c) := c.register registry (names.filterMap c.catalog)
    (next result).run read c

namespace Container

/-- Run the body at `id` once more, with `read` for reading singletons. -/
def runBody (read : SingletonId → Effect Value) (id : BodyId) (args : List Value) :
    Effect Value := fun c =>
  match c.bodies[id]? with
  | none => none
  | some body =>
    let runs := body.runs + 1
    (body.routine runs args).run read
      { c with bodies := c.bodies.setIfInBounds id { body with runs } }

/-- The value of the singleton at `id`, with reads nested less than `depth` deep. -/
def readSingleton : (depth : Nat) → SingletonId → Effect Value
  | 0, _, _ => none
  | depth + 1, id, c =>
    match c.singletons[id]? with
    | none => none
    | some singleton =>
      match singleton.state with
      | .full value => some (.ok value, c)
      | .running => none
      | .empty =>
        match runBody (readSingleton depth) singleton.body [] (c.setState id .running) with
        | none => none
        | some (.ok value, c) => some (.ok value, c.setState id (.full value))
        | some (.error e, c) => some (.error (e.ofProvider singleton.name), c.setState id .empty)

/-- The value under `name` in a registry. -/
def get (depth : Nat) (registry name : String) : Effect Value := fun c =>
  match c.resolve registry name registrySlot with
  | .error e => some (.error e, c)
  | .ok id => readSingleton depth id c

/-- Call a provider method directly. A method without parameters ignores the arguments. -/
def callMethod (depth : Nat) (method : ProviderMethod) (args : List Value) : Effect Value :=
  runBody (readSingleton depth) method.body (if method.forwards then args else [])

/-! ## Call sites -/

/-- The singleton that the call site at `id` is bound to; a site that is not bound is bound
now to the one known under its symbol. -/
def link (registry : String) (id : SiteId) (c : Container) :
    Except Error SingletonId × Container :=
  let site := c.site id
  match site.target with
  | some target => (.ok target, c)
  | none =>
    match c.resolve registry site.symbol site.slot with
    | .ok target =>
      (.ok target, { c with sites := c.sites.modify id ({ · with target := some target }) })
    | .error e => (.error e, c)

/-- The value of the provider that the call site at `id` is bound to, binding it first. -/
def invokeSite (depth : Nat) (registry : String) (id : SiteId) : Effect Value := fun c =>
  match c.link registry id with
  | (.ok target, c) => readSingleton depth target c
  | (.error e, c) => some (.error e, c)

end Container

/-! ## Providers outside registries -/

/-- A provider that is known by itself. -/
inductive Provider where
  /-- Computes its value anew on every read. -/
  | factory (name : String) (body : BodyId)
  | singleton (name : String) (id : SingletonId)

namespace Provider

/-- The name of a provider. -/
def name : Provider → String
  | factory name _ | singleton name _ => name

/-- The value of a provider. -/
def read (depth : Nat) : Provider → Effect Value
  | factory _ body => Container.runBody (Container.readSingleton depth) body []
  | singleton _ id => Container.readSingleton depth id

/-- Whether a provider that keeps its value has it. -/
def isInitialized? (c : Container) : Provider → Option Bool
  | factory _ _ => none
  | singleton _ id => some (c.isInitialized id)

/-- The provider as a listing shows it. -/
def listing (c : Container) : Provider → String
  | factory name _ => Text.partialRecord "FactoryProvider" [("name", Text.quoted name)]
  | singleton name id =>
    Text.record "SingletonProvider" [("name", Text.quoted name),
      ("initialized", toString (c.isInitialized id))]

end Provider

/-- How deeply reads may be nested where nothing else is said. -/
def defaultDepth : Nat := 10000

end LateBinding
