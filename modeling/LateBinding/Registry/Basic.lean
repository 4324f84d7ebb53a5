import LateBinding.Text.Printing
import LateBinding.Text.Utf8

set_option autoImplicit false

/-! # Registries

A registry maps names to entries. An entry names the singleton that keeps the value, so a
new entry under an old name leaves the old singleton to those who hold it already. The
entries stand in ascending order of the bytes of their names, one for each name.
-/

namespace LateBinding

/-- Where a singleton is kept. -/
abbrev SingletonId := Nat

/-- A provider that is known under a name. -/
structure Entry where
  name : String
  /-- Name of the method that computes the value. -/
  method : String
  /-- The singleton that keeps the value. -/
  singleton : SingletonId
  deriving DecidableEq, Inhabited

/-- The entry as a listing shows it. -/
def Entry.listing (entry : Entry) (initialized : Bool) : String :=
  Text.record "ProviderEntry" [("name", Text.quoted entry.name),
    ("method", Text.quoted entry.method), ("initialized", toString initialized)]

/-- The entries that are known by name. -/
structure Registry where
  entries : List Entry := []
  deriving DecidableEq, Inhabited

namespace Registry

/-- Put an entry in its place, where it takes the place of an entry of the same name. -/
def place (entry : Entry) : List Entry → List Entry
  | [] => [entry]
  | other :: rest =>
    if other.name = entry.name then entry :: rest
    else if Text.byteLe entry.name other.name then entry :: other :: rest
    else other :: place entry rest

/-- Install an entry. -/
def insert (registry : Registry) (entry : Entry) : Registry := ⟨place entry registry.entries⟩

/-- The entry called `name`. -/
def find? (registry : Registry) (name : String) : Option Entry :=
  registry.entries.find? (·.name = name)

/-- Whether there is an entry called `name`. -/
def contains (registry : Registry) (name : String) : Bool := (registry.find? name).isSome

/-- The names of the entries, in order. -/
def names (registry : Registry) : List String := registry.entries.map Entry.name

/-- Number of entries. -/
def size (registry : Registry) : Nat := registry.entries.length

/-- Whether there is no entry. -/
def isEmpty (registry : Registry) : Bool := registry.entries.isEmpty

/-- The registry as a listing shows it. -/
def listing (registry : Registry) : String :=
  Text.record "InjectionRegistry" [("providers", Text.quotedList registry.names)]

end Registry

end LateBinding
