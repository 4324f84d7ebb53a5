set_option autoImplicit false

/-! # Data from sources of settings

What a file or the environment says before anyone knows what it means: flags, texts,
numbers, lists, and tables of named members.

Sources are laid over each other. `Datum.overlay` keeps what only one of two data says; where
both say something, tables are laid over each other member by member, and of anything else
the upper datum stands.

What a settings file says is settled before it is used (`Datum.settledFile?`), since some of
its tables stand for something else.
-/

namespace LateBinding

/-- A datum. -/
inductive Datum where
  | flag (value : Bool)
  | text (value : String)
  /-- A number as it was written. No setting is a number, so its value is of no use. -/
  | number (written : String)
  | list (items : List Datum)
  | table (members : List (String × Datum))
  deriving Inhabited

namespace Datum

/-- Give a member of a table a new value. A new member comes last. -/
def setMember {α : Type} (members : List (String × α)) (key : String) (value : α) :
    List (String × α) :=
  if members.any (·.1 = key) then
    members.map fun (other, old) => if other = key then (other, value) else (other, old)
  else members ++ [(key, value)]

mutual

/-- The datum that results when the second lies over the first. -/
def overlay : Datum → Datum → Datum
  | .table lower, .table upper => .table (overlayMembers lower upper)
  | .table _, upper => upper
  | .flag _, upper => upper
  | .text _, upper => upper
  | .number _, upper => upper
  | .list _, upper => upper

/-- The members that result when the second table lies over the first. -/
def overlayMembers (under : List (String × Datum)) :
    List (String × Datum) → List (String × Datum)
  | [] => under
  | (key, upper) :: rest =>
    let value :=
      match under.lookup key with
      | some lower => overlay lower upper
      | none => upper
    overlayMembers (setMember under key value) rest

end

/-- A datum inside tables, one for each key of a path. -/
def nest (datum : Datum) : List String → Datum
  | [] => datum
  | key :: rest => .table [(key, datum.nest rest)]

/-! ## Reading data -/

/-- The flag that a datum is. -/
def flag? : Datum → Option Bool
  | .flag value => some value
  | _ => none

/-- The text that a datum is. -/
def text? : Datum → Option String
  | .text value => some value
  | _ => none

/-- The members of a record with these keys. A table says which member is which; the items of
a list are the members in the order of the keys. -/
def members? (keys : List String) : Datum → Option (List (String × Datum))
  | .table members => some members
  | .list items => some (keys.zip items)
  | _ => none

/-- What a member of a record says, or `standard` when it is not there. -/
def memberOr {α : Type} (members : List (String × Datum)) (key : String)
    (read : Datum → Option α) (standard : α) : Option α :=
  match members.lookup key with
  | some datum => read datum
  | none => some standard

/-! ## Tables that stand for something else

In a settings file, a table with a member of a certain key stands for that member; its other
members mean nothing. A second key is reserved for numbers that only a running program can
give, and no file may use it. Neither holds for the table of the whole file. -/

/-- The key of the member that a table stands for. -/
def standInKey : String := "___figment_value_value"

/-- The key that no table in a settings file may have. -/
def reservedKey : String := "___figment_value_id"

/-- What a table with these members stands for. -/
def ofMembers? (members : List (String × Datum)) : Option Datum :=
  if members.any (·.1 = reservedKey) then none
  else some ((members.lookup standInKey).getD (.table members))

mutual

/-- What a datum in a settings file stands for. -/
def settled? : Datum → Option Datum
  | .table members => (settledMembers? members).bind ofMembers?
  | .list items => (settledItems? items).map .list
  | .flag value => some (.flag value)
  | .text value => some (.text value)
  | .number written => some (.number written)

/-- What the members of a table stand for. -/
def settledMembers? : List (String × Datum) → Option (List (String × Datum))
  | [] => some []
  | (key, datum) :: rest => do
    let datum ← settled? datum
    let rest ← settledMembers? rest
    return (key, datum) :: rest

/-- What the items of a list stand for. -/
def settledItems? : List Datum → Option (List Datum)
  | [] => some []
  | datum :: rest => do
    let datum ← settled? datum
    let rest ← settledItems? rest
    return datum :: rest

end

/-- What the table of a whole settings file stands for. -/
def settledFile? : Datum → Option Datum
  | .table members => (settledMembers? members).map .table
  | other => settled? other

end Datum

end LateBinding
