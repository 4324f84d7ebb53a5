import LateBinding.Module.Validation

set_option autoImplicit false

/-! # Injection points

A field is an injection point when it carries a marker of the kind in question. The value
of the marker is the symbol under which the field's provider is known. `Module.scan` lists
the injection points of a module in the order of the fields and then of their markers; a
field that is marked twice is listed twice.
-/

namespace LateBinding

/-- The kind of marker that declares an injection point. -/
def injectMarker : String := "inject"

/-- A field whose value a provider supplies. -/
structure InjectionPoint where
  /-- Name of the module that declares the field. -/
  owner : String
  fieldIndex : UInt16
  /-- Name of the field. -/
  slot : String
  /-- Name of the provider. -/
  symbol : String
  deriving DecidableEq, Inhabited

/-- The injection point as a listing shows it. -/
def InjectionPoint.text (point : InjectionPoint) : String :=
  s!"{point.owner}.{point.slot} <- '{point.symbol}'"

namespace Module

/-- The injection point that `marker` makes of the field at `index`, if it is of the kind. -/
def pointOf (m : Module) (kind owner : String) (index : UInt16) (field : Field)
    (marker : Marker) : Except PoolFault (Option InjectionPoint) := do
  let (found, symbol) ← m.resolve marker
  if found = kind then
    let slot ← m.pool.string field.name
    return some { owner, fieldIndex := index, slot, symbol }
  else return none

/-- The injection points that a list of markers makes of one field. -/
def pointsOf (m : Module) (kind owner : String) (index : UInt16) (field : Field) :
    List Marker → Except PoolFault (List InjectionPoint)
  | [] => .ok []
  | marker :: rest => do
    let point ← m.pointOf kind owner index field marker
    let points ← m.pointsOf kind owner index field rest
    return point.toList ++ points

/-- The injection points of the field at `index`. -/
def fieldPoints (m : Module) (kind owner : String) (field : Field) (index : Nat) :
    Except FormatError (List InjectionPoint) :=
  if index < UInt16.size then
    orFormat (m.pointsOf kind owner (UInt16.ofNat index) field field.markers)
  else .error (.fieldIndexTooLarge index)

/-- All injection points of the kind. -/
def scan (m : Module) (kind : String) : Except FormatError (List InjectionPoint) := do
  let owner ← orFormat m.title
  let points ← m.fields.toList.zipIdx.mapM fun (field, index) =>
    m.fieldPoints kind owner field index
  return points.flatten

end Module

end LateBinding
