import LateBinding.Datum
import LateBinding.Text.Characters
import LateBinding.Text.Utf8
import LateBinding.Toml.Scalar

set_option autoImplicit false

/-! # Settings in the environment

A variable sets something when its name opens with a given beginning. The rest of the name
is the path to what is set, its keys set apart by two underscores or by a dot. Capitals do
not matter in names.

The value of a variable is a flag, a number, a text in double quotes, a single character in
single quotes, a list in brackets or a table in braces when all of it can be read so. A word
that is none of these is a text without the blanks at its ends. Any other value is a text as
it stands.

A text in double quotes may hold escapes. What comes before the first of them counts its
characters but is measured in bytes: it keeps as many bytes as it has characters. Where
that cuts a character in two, reading breaks off for good.
-/

namespace LateBinding

namespace Variable

open Text (trimBlanks)

/-- Why a value is not read. -/
inductive Fault where
  /-- It is not written in any of the ways that mean something. -/
  | unwritten
  /-- A text was cut inside a character. -/
  | cutCharacter
  deriving DecidableEq

/-- A way to read one thing, which says what follows it. -/
abbrev Reading (α : Type) := List Char → Except Fault (α × List Char)

/-! ## Words -/

/-- What follows the spaces. -/
def skipSpaces (cs : List Char) : List Char := cs.dropWhile " \t\n\r\x0c".toList.contains

/-- Whether a text is a whole number that fits into 64 bits, with or without a sign. -/
def isWhole (cs : List Char) : Bool :=
  let (negative, digits) := Toml.signOf cs
  digits ≠ [] && (Text.numberOf? 10 digits).any fun n =>
    if negative then n ≤ Toml.wholeLimit else n < UInt64.size

/-- Whether a text is nothing, or an exponent of ten. -/
def isPower : List Char → Bool
  | [] => true
  | mark :: rest =>
    let digits := (Toml.signOf rest).2
    Toml.isExponentMark mark && digits ≠ [] && digits.all Char.isDigit

/-- Whether a text is a number with a point. Digits may be missing on one side of it. -/
def isFraction (cs : List Char) : Bool :=
  let body := (Toml.signOf cs).2
  match body.dropWhile Char.isDigit with
  | '.' :: rest =>
    (body.head?.any Char.isDigit || rest.head?.any Char.isDigit) &&
      isPower (rest.dropWhile Char.isDigit)
  | _ => false

/-- What a word means, which is a text when it is nothing else. -/
def ofWord (word : List Char) : Datum :=
  if isFraction word ∨ isWhole word then .number (String.ofList word)
  else .text (String.ofList word)

/-! ## Texts in double quotes -/

/-- What stands before the closing double quote, and what follows that. A quote right after a
backslash does not close. -/
def untilQuote : List Char → Option (List Char × List Char)
  | [] | ['\\'] => none
  | '"' :: rest => some ([], rest)
  | '\\' :: c :: rest => (untilQuote rest).map fun (inner, rest) => ('\\' :: c :: inner, rest)
  | c :: rest => (untilQuote rest).map fun (inner, rest) => (c :: inner, rest)

/-- The text that is written between double quotes as `inner`. -/
def quotedText (inner : List Char) : Except Fault (List Char) :=
  let before := inner.takeWhile (· ≠ '\\')
  let escapes := inner.dropWhile (· ≠ '\\')
  if !before.all Text.isPlain then .error .unwritten
  else if escapes = [] then .ok before
  else
    match Text.firstBytes? before.length before, Text.unescapeAll? escapes with
    | none, _ => .error .cutCharacter
    | some _, none => .error .unwritten
    | some kept, some rest => .ok (kept ++ rest)

/-- A text up to its closing double quote, and what follows. -/
def readQuoted : Reading String := fun cs =>
  match untilQuote cs with
  | none => .error .unwritten
  | some (inner, rest) => (quotedText inner).map fun text => (String.ofList text, rest)

/-! ## Values -/

/-- Things set apart by commas up to a closing bracket, and what follows. A comma may come
last. -/
def readGroup {α : Type} (thing : Reading α) (closing : Char) (cs : List Char) :
    Except Fault (List α × List Char) :=
  if cs.head? = some closing then .ok ([], cs.tail)
  else
    match thing cs with
    | .error fault => .error fault
    | .ok (_, []) => .error .unwritten
    | .ok (a, c :: rest) =>
      if c = ',' then
        if rest.length < cs.length then
          (readGroup thing closing rest).map fun (things, rest) => (a :: things, rest)
        else .error .unwritten
      else if c = closing then .ok ([a], rest)
      else .error .unwritten
termination_by cs.length

/-- A key of a table, and what follows. -/
def readKey : Reading String
  | '"' :: rest => readQuoted rest
  | cs =>
    let isKeyChar (c : Char) : Bool := c.isAlphanum || c = '_' || c = '-'
    if cs.head?.any isKeyChar then
      .ok (String.ofList (cs.takeWhile isKeyChar), cs.dropWhile isKeyChar)
    else .error .unwritten

/-- A key with its value, and what follows. -/
def readMember (value : Reading Datum) : Reading (String × Datum) := fun cs => do
  let (key, rest) ← readKey (skipSpaces cs)
  match skipSpaces rest with
  | '=' :: rest => (value rest).map fun (datum, rest) => ((key, datum), rest)
  | _ => .error .unwritten

/-- A table of keys with their values. Of a key that comes twice the last value stands. -/
def lastMembers (members : List (String × Datum)) : Datum :=
  .table (members.foldl (fun table (key, datum) => Datum.setMember table key datum) [])

/-- A value with the spaces around it, inside of which fewer than `depth` brackets are open at
a time, and what follows. -/
def readValue : (depth : Nat) → Reading Datum
  | 0, _ => .error .unwritten
  | depth + 1, cs =>
    let read : Except Fault (Datum × List Char) :=
      match skipSpaces cs with
      | 't' :: 'r' :: 'u' :: 'e' :: rest => .ok (.flag true, rest)
      | 'f' :: 'a' :: 'l' :: 's' :: 'e' :: rest => .ok (.flag false, rest)
      | '\x7b' :: rest =>
        (readGroup (readMember (readValue depth)) '\x7d' rest).map fun (members, rest) =>
          (lastMembers members, rest)
      | '[' :: rest =>
        (readGroup (readValue depth) ']' rest).map fun (items, rest) => (.list items, rest)
      | '"' :: rest => (readQuoted rest).map fun (text, rest) => (.text text, rest)
      | '\x27' :: c :: '\x27' :: rest => .ok (.text c.toString, rest)
      | '\x27' :: _ => .error .unwritten
      | start =>
        let isPart (c : Char) : Bool := !",[]\x7b\x7d".toList.contains c
        .ok (ofWord (trimBlanks (start.takeWhile isPart)), start.dropWhile isPart)
    read.map fun (datum, rest) => (datum, skipSpaces rest)

/-- What a value says; `none` when reading it breaks off. -/
def datum? (value : String) : Option Datum :=
  match readValue (value.length + 1) value.toList with
  | .ok (datum, []) => some datum
  | .ok (_, _ :: _) | .error .unwritten => some (.text value)
  | .error .cutCharacter => none

end Variable

/-! ## Names and variables -/

/-- Variables and their values. -/
abbrev Environment := List (String × String)

namespace Environment

open Text (trimBlanks)

/-- The keys in the rest of a name. -/
def splitKeys : List Char → List (List Char)
  | [] => [[]]
  | '_' :: '_' :: rest => [] :: splitKeys rest
  | c :: rest =>
    if c = '.' then [] :: splitKeys rest
    else
      match splitKeys rest with
      | [] => [[c]]
      | key :: keys => (c :: key) :: keys

/-- The path that a name says when it opens with `opening`. No key on it is empty. -/
def path? (opening name : String) : Option (List String) :=
  let lower (cs : List Char) : List Char := cs.map Char.toLower
  let cs := lower (trimBlanks name.toList)
  let start := lower opening.toList
  if start.isPrefixOf cs then
    let keys := splitKeys (trimBlanks (cs.drop start.length))
    if keys.any List.isEmpty then none else some (keys.map String.ofList)
  else none

/-- What the variables say whose names open with `opening`, the later over the earlier;
`none` when reading one of them breaks off. -/
def datum? (environment : Environment) (opening : String) : Option Datum :=
  environment.foldlM (fun under (name, value) =>
    match path? opening name with
    | some path => (Variable.datum? value).map fun upper => under.overlay (upper.nest path)
    | none => some under) (.table [])

end Environment

end LateBinding
