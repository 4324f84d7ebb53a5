set_option autoImplicit false

/-! # Text that is shown

How bytes, names and values are written for a reader: bytes as hexadecimal digits in
diagnoses, names in quotes and records of them in listings, and values as JSON in reports.

A quoted name stays on one line: quotes, backslashes and the control characters of ASCII
are escaped in it. A listing in print also escapes the characters beyond ASCII that are not
printable or that extend the one before them, such as U+0085, U+00AD and U+0301. Which these
are depends on the version of Unicode; here they stand for themselves, like all others. No
theorem rests on how a name is quoted.
-/

namespace LateBinding.Text

/-! ## Bytes in hexadecimal -/

/-- The lower-case hexadecimal digit of a value below 16. -/
def hexDigit (value : Nat) : Char := (Nat.digitChar value)

/-- A byte as two hexadecimal digits. -/
def hexByte (byte : UInt8) : String :=
  String.ofList [hexDigit (byte.toNat / 16), hexDigit (byte.toNat % 16)]

/-- Bytes in brackets, such as `[00, ff]`. -/
def hexList (bytes : List UInt8) : String := "[" ++ ", ".intercalate (bytes.map hexByte) ++ "]"

/-! ## Quoted names and records -/

/-- One character of a quoted name. -/
def escapeChar (c : Char) : List Char :=
  if c = '"' then ['\\', '"']
  else if c = '\\' then ['\\', '\\']
  else if c = '\n' then ['\\', 'n']
  else if c = '\r' then ['\\', 'r']
  else if c = '\t' then ['\\', 't']
  else if c = '\x00' then ['\\', '0']
  else if c.toNat < 32 ∨ c.toNat = 127 then
    ['\\', 'u', '\x7b'] ++ Nat.toDigits 16 c.toNat ++ ['\x7d']
  else [c]

/-- A name between double quotes. -/
def quoted (name : String) : String :=
  String.ofList ('"' :: (name.toList.flatMap escapeChar ++ ['"']))

/-- Quoted names in brackets. -/
def quotedList (names : List String) : String :=
  "[" ++ ", ".intercalate (names.map quoted) ++ "]"

/-- A named record in a listing, such as `Entry \x7b name: "n" \x7d`. -/
def record (title : String) (members : List (String × String)) : String :=
  title ++ " \x7b " ++ ", ".intercalate (members.map fun (key, value) => key ++ ": " ++ value) ++
    " \x7d"

/-- A named record that shows some of its members only. -/
def partialRecord (title : String) (members : List (String × String)) : String :=
  title ++ " \x7b " ++ String.join (members.map fun (key, value) => key ++ ": " ++ value ++ ", ") ++
    ".. \x7d"

/-! ## JSON

Each member and each item stands on a line of its own and is indented by two blanks for each
level. In strings, a quote, a backslash and the control characters are escaped and all else
stands for itself. -/

/-- A value that has a JSON text. -/
inductive Json where
  | flag (value : Bool)
  | number (value : Nat)
  | text (value : String)
  | list (items : List Json)
  | record (members : List (String × Json))

namespace Json

/-- One character inside a string. -/
def escapeChar (c : Char) : List Char :=
  if c = '"' then ['\\', '"']
  else if c = '\\' then ['\\', '\\']
  else if c = '\n' then ['\\', 'n']
  else if c = '\r' then ['\\', 'r']
  else if c = '\t' then ['\\', 't']
  else if c = '\x08' then ['\\', 'b']
  else if c = '\x0c' then ['\\', 'f']
  else if c.toNat < 32 then
    ['\\', 'u', '0', '0', hexDigit (c.toNat / 16), hexDigit (c.toNat % 16)]
  else [c]

/-- A string between quotes. -/
def quote (s : String) : String :=
  String.ofList ('"' :: (s.toList.flatMap escapeChar ++ ['"']))

/-- A new line, indented by `level` levels. -/
def newLine (level : Nat) : String := String.ofList ('\n' :: List.replicate (2 * level) ' ')

/-- What stands between two brackets: nothing, or its parts on lines of their own. -/
def bracketed (opening closing : String) (level : Nat) (parts : List String) : String :=
  if parts.isEmpty then opening ++ closing
  else
    opening ++ ",".intercalate (parts.map (newLine (level + 1) ++ ·)) ++ newLine level ++ closing

mutual

/-- The text of a value inside `level` brackets. -/
def render (level : Nat) : Json → String
  | flag value => toString value
  | number value => toString value
  | text value => quote value
  | list items => bracketed "[" "]" level (renderItems (level + 1) items)
  | record members => bracketed "\x7b" "\x7d" level (renderMembers (level + 1) members)

/-- The texts of the items of a list. -/
def renderItems (level : Nat) : List Json → List String
  | [] => []
  | item :: rest => render level item :: renderItems level rest

/-- The texts of the members of a record. -/
def renderMembers (level : Nat) : List (String × Json) → List String
  | [] => []
  | (key, value) :: rest => (quote key ++ ": " ++ render level value) :: renderMembers level rest

end

end Json

end LateBinding.Text
