import LateBinding.Datum

set_option autoImplicit false

/-! # Tables of a TOML document

A table comes into being in three ways: a header states it, a header or a list below it
implies it, or a dotted key makes it. Each may be stated once, and how it came into being
decides what may still be added: a header may state a table that was only implied, a dotted
key adds to tables that dotted keys made, and nothing adds to a value.

A header in double brackets adds one more table to a list, and what follows goes into the
last table of the list.
-/

namespace LateBinding.Toml

/-- How a table came into being. -/
inductive Origin where
  | stated
  | implied
  | dotted
  deriving DecidableEq

/-- What a name in a document stands for. -/
inductive Item where
  | value (datum : Datum)
  | table (origin : Origin) (members : List (String × Item))
  /-- The tables that headers in double brackets have added. -/
  | tables (list : List (List (String × Item)))

/-- The names in a table, and what they stand for. -/
abbrev Members := List (String × Item)

namespace Members

/-- Change the last of some tables. -/
def changeLast (change : Members → Option Members) (list : List Members) :
    Option (List Members) :=
  list.getLast?.bind fun last => (change last).map (list.dropLast ++ [·])

/-- Give a name another meaning. -/
abbrev set (members : Members) (key : String) (item : Item) : Members :=
  Datum.setMember members key item

/-- Go along the keys of a header and change the table that holds the last of them. -/
def alter (change : String → Members → Option Members) :
    List String → Members → Option Members
  | [], _ => none
  | [key], members => change key members
  | key :: rest, members =>
    match members.lookup key with
    | none => (alter change rest []).map fun inner => members.set key (.table .implied inner)
    | some (.table origin inner) =>
      (alter change rest inner).map fun inner => members.set key (.table origin inner)
    | some (.tables list) =>
      (changeLast (alter change rest) list).map fun list => members.set key (.tables list)
    | some (.value _) => none

/-- State the table of a header. -/
def openTable (path : List String) (root : Members) : Option Members :=
  root.alter (fun key members =>
    match members.lookup key with
    | none => some (members.set key (.table .stated []))
    | some (.table .implied inner) => some (members.set key (.table .stated inner))
    | some _ => none) path

/-- Add a table to the list of a header in double brackets. -/
def openElement (path : List String) (root : Members) : Option Members :=
  root.alter (fun key members =>
    match members.lookup key with
    | none => some (members.set key (.tables [[]]))
    | some (.tables list) => some (members.set key (.tables (list ++ [[]])))
    | some _ => none) path

/-- Change the table that the last header opened, which is the root before the first. -/
def inside (change : Members → Option Members) : List String → Members → Option Members
  | [], root => change root
  | path, root =>
    root.alter (fun key members =>
      match members.lookup key with
      | some (.table origin inner) =>
        (change inner).map fun inner => members.set key (.table origin inner)
      | some (.tables list) =>
        (changeLast change list).map fun list => members.set key (.tables list)
      | _ => none) path

/-- Give a meaning to a dotted key. -/
def insert (datum : Datum) : List String → Members → Option Members
  | [], _ => none
  | [key], members =>
    match members.lookup key with
    | none => some (members.set key (.value datum))
    | some _ => none
  | key :: rest, members =>
    match members.lookup key with
    | none => (insert datum rest []).map fun inner => members.set key (.table .dotted inner)
    | some (.table .dotted inner) =>
      (insert datum rest inner).map fun inner => members.set key (.table .dotted inner)
    | some (.table .implied inner) =>
      if rest.length = 1 then none
      else (insert datum rest inner).map fun inner => members.set key (.table .implied inner)
    | some (.tables list) =>
      if rest.length = 1 then none
      else (changeLast (insert datum rest) list).map fun list => members.set key (.tables list)
    | some (.table .stated _) | some (.value _) => none

end Members

/-! ## What a document says -/

mutual

/-- What a name stands for, as a datum. -/
def Item.datum : Item → Datum
  | .value datum => datum
  | .table _ members => .table (memberData members)
  | .tables list => .list (tableData list)

/-- What the names in a table stand for, as data. -/
def memberData : List (String × Item) → List (String × Datum)
  | [] => []
  | (key, item) :: rest => (key, item.datum) :: memberData rest

/-- Tables as data. -/
def tableData : List (List (String × Item)) → List Datum
  | [] => []
  | members :: rest => .table (memberData members) :: tableData rest

end

end LateBinding.Toml
