import LateBinding.Toml.Quoted
import LateBinding.Toml.Scalar
import LateBinding.Toml.Table

set_option autoImplicit false

/-! # TOML documents

`Toml.read` reads a document, line by line, into one table. A line holds a header, or a key
with its value, or nothing, and may end in a comment. A list may run over several lines
with comments between its items; a table in braces stays on one line.

Only whether a document can be read matters here, not what is wrong with it.
-/

namespace LateBinding.Toml

open Text (isPlain)

/-- The largest number of brackets around a value, and of keys set apart by dots. -/
def nestingLimit : Nat := 79

/-! ## Blanks and comments -/

/-- What follows the blanks. -/
def skipBlanks (cs : List Char) : List Char := cs.dropWhile fun c => c = ' ' || c = '\t'

/-- What follows the blanks and then a comment, up to the end of the line. -/
def skipComment (cs : List Char) : Option (List Char) :=
  match skipBlanks cs with
  | '#' :: rest =>
    if (rest.takeWhile (· ≠ '\n')).all isPlain then some (rest.dropWhile (· ≠ '\n')) else none
  | rest => some rest

/-- What follows the lines that hold nothing but blanks and comments. -/
def skipLines (cs : List Char) : Option (List Char) :=
  match skipComment cs with
  | some ('\n' :: rest) => if rest.length < cs.length then skipLines rest else none
  | skipped => skipped
termination_by cs.length

/-! ## Keys -/

/-- Whether a character may stand in a key without quotes. -/
def isKeyChar (c : Char) : Bool := c.isAlphanum || c = '-' || c = '_'

/-- One key, and what follows it. -/
def readKey (cs : List Char) : Option (String × List Char) :=
  match cs.takeWhile isKeyChar with
  | [] => (readShort cs).map fun (key, rest) => (String.ofList key, rest)
  | key => some (String.ofList key, cs.dropWhile isKeyChar)

/-- At most `limit` keys set apart by dots, with the blanks around them, and what follows. -/
def readKeys : (limit : Nat) → List Char → Option (List String × List Char)
  | 0, _ => none
  | limit + 1, cs =>
    match readKey (skipBlanks cs) with
    | none => none
    | some (key, rest) =>
      match skipBlanks rest with
      | '.' :: rest => (readKeys limit rest).map fun (keys, rest) => (key :: keys, rest)
      | rest => some ([key], rest)

/-! ## Values -/

/-- A way to read one thing, which says what follows it. -/
abbrev Reading (α : Type) := List Char → Option (α × List Char)

/-- The items of a list up to its closing bracket, and what follows. -/
def readItems (item : Reading Datum) (cs : List Char) : Option (List Datum × List Char) :=
  match skipLines cs with
  | none => none
  | some (']' :: rest) => some ([], rest)
  | some start =>
    match item start with
    | none => none
    | some (datum, rest) =>
      match skipLines rest with
      | some (',' :: rest) =>
        if rest.length < cs.length then
          (readItems item rest).map fun (data, rest) => (datum :: data, rest)
        else none
      | some (']' :: rest) => some ([datum], rest)
      | _ => none
termination_by cs.length

/-- A key with its value, put into a table, and what follows. -/
def readMember (value : Reading Datum) (members : Members) (cs : List Char) :
    Option (Members × List Char) :=
  match readKeys nestingLimit cs with
  | some (path, '=' :: rest) =>
    match value (skipBlanks rest) with
    | some (datum, rest) => (members.insert datum path).map (·, rest)
    | none => none
  | _ => none

/-- Keys with their values up to the closing brace, put into a table, and what follows. -/
def readMembers (value : Reading Datum) (members : Members) (cs : List Char) :
    Option (Members × List Char) :=
  match readMember value members cs with
  | none => none
  | some (members, rest) =>
    match skipBlanks rest with
    | ',' :: rest =>
      if rest.length < cs.length then readMembers value members rest else none
    | '}' :: rest => some (members, rest)
    | _ => none
termination_by cs.length

/-- A value inside of which at most `depth` brackets are open at a time, and what follows. -/
def readValue (depth : Nat) (cs : List Char) : Option (Datum × List Char) :=
  match cs, depth with
  | '"' :: _, _ | '\x27' :: _, _ =>
    (readString cs).map fun (text, rest) => (.text (String.ofList text), rest)
  | '[' :: rest, depth + 1 =>
    (readItems (readValue depth) rest).map fun (items, rest) => (.list items, rest)
  | '{' :: rest, depth + 1 =>
    match skipBlanks rest with
    | '}' :: rest => some (.table [], rest)
    | rest =>
      (readMembers (readValue depth) [] rest).map fun (members, rest) =>
        (.table (memberData members), rest)
  | _, _ => readScalar cs

/-! ## Lines -/

/-- A document up to some line: the table so far, and the keys of the last header. -/
structure Draft where
  root : Members := []
  opened : List String := []

/-- A header, or a key with its value, and what follows. -/
def readLine (draft : Draft) (cs : List Char) : Option (Draft × List Char) :=
  match cs with
  | '[' :: '[' :: rest =>
    match readKeys nestingLimit rest with
    | some (path, ']' :: ']' :: rest) =>
      (draft.root.openElement path).map fun root => (⟨root, path⟩, rest)
    | _ => none
  | '[' :: rest =>
    match readKeys nestingLimit rest with
    | some (path, ']' :: rest) =>
      (draft.root.openTable path).map fun root => (⟨root, path⟩, rest)
    | _ => none
  | _ =>
    match readKeys nestingLimit cs with
    | some (path, '=' :: rest) =>
      match readValue nestingLimit (skipBlanks rest) with
      | some (datum, rest) =>
        (draft.root.inside (Members.insert datum path) draft.opened).map fun root =>
          ({ draft with root }, rest)
      | none => none
    | _ => none

/-- The lines of a document from some line on. -/
def readFrom (draft : Draft) (cs : List Char) : Option Draft :=
  match skipLines cs with
  | none => none
  | some [] => some draft
  | some start =>
    match readLine draft start with
    | none => none
    | some (draft, rest) =>
      match skipComment rest with
      | some [] => some draft
      | some ('\n' :: rest) => if rest.length < cs.length then readFrom draft rest else none
      | _ => none
termination_by cs.length

/-- A text in which every line break is a single line feed. -/
def singleLineFeeds : List Char → List Char
  | [] => []
  | '\r' :: '\n' :: rest => '\n' :: singleLineFeeds rest
  | c :: rest => c :: singleLineFeeds rest

/-- A text without the mark of byte order that it may open with. -/
def dropByteOrder : List Char → List Char
  | '\ufeff' :: rest => rest
  | cs => cs

/-- The table that a document says, if it can be read. -/
def read (document : String) : Option Datum :=
  (readFrom {} (singleLineFeeds (dropByteOrder document.toList))).map fun draft =>
    .table (memberData draft.root)

end LateBinding.Toml
