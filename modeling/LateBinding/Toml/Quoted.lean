import LateBinding.Text.Characters
import LateBinding.Text.Printing

set_option autoImplicit false

/-! # Strings in TOML

A string stands between double quotes, where a backslash opens an escape, or between single
quotes, where every character stands for itself. Three quotes on either side let a string
run over several lines: a line break right after the opening quotes is dropped, one or two
quotes may stand right before the closing ones, and between double quotes a backslash at
the end of a line drops the blanks and line breaks that follow.

Every line break is a single line feed here.

`quote` writes a string in the first of these ways that shows it without an escape: between
double quotes, between single quotes, over several lines between three double quotes, or
between three single quotes. A string that none of them can show is written with escapes,
between double quotes if it is a single line and between three of them otherwise. Where
three quotes open a string of several lines, the first line starts below them. A tab between
double quotes is written as an escape all the same.
-/

namespace LateBinding.Toml

open Text (isPlain unescape? unescape?_length)

/-! ## Reading strings -/

/-- A string up to its closing double quote, and what follows. -/
def readEscaped (cs : List Char) : Option (List Char × List Char) :=
  match cs with
  | [] => none
  | c :: rest =>
    if c = '"' then some ([], rest)
    else if c = '\\' then
      match h : unescape? rest with
      | some (d, rest') =>
        have := unescape?_length h
        (readEscaped rest').map fun (s, after) => (d :: s, after)
      | none => none
    else if isPlain c then (readEscaped rest).map fun (s, after) => (c :: s, after)
    else none
termination_by cs.length
decreasing_by
  · simp
    omega
  · simp

/-- A string up to its closing single quote, and what follows. -/
def readLiteral : List Char → Option (List Char × List Char)
  | [] => none
  | c :: rest =>
    if c = '\x27' then some ([], rest)
    else if isPlain c then (readLiteral rest).map fun (s, after) => (c :: s, after)
    else none

/-- The end of a string between three quotes: the quotes that still belong to it, and what
follows. -/
def closing? (quote : Char) (cs : List Char) : Option (List Char × List Char) :=
  let count := (cs.takeWhile (· = quote)).length
  if 3 ≤ count then
    let own := min (count - 3) 2
    some (List.replicate own quote, cs.drop (3 + own))
  else none

/-- Whether a character separates words or lines. -/
def isSpace (c : Char) : Bool := c = ' ' || c = '\t' || c = '\n'

/-- A string up to its closing three quotes, and what follows. -/
def readLines (quote : Char) (cs : List Char) : Option (List Char × List Char) :=
  match closing? quote cs with
  | some ending => some ending
  | none =>
    match cs with
    | [] => none
    | c :: rest =>
      if c = '\\' ∧ quote = '"' then
        if (rest.dropWhile fun c => c = ' ' || c = '\t').head? = some '\n' then
          readLines quote (rest.dropWhile isSpace)
        else
          match h : unescape? rest with
          | some (d, rest') =>
            have := unescape?_length h
            (readLines quote rest').map fun (s, after) => (d :: s, after)
          | none => none
      else if c = '\n' ∨ isPlain c then
        (readLines quote rest).map fun (s, after) => (c :: s, after)
      else none
termination_by cs.length
decreasing_by
  · have := (List.dropWhile_suffix isSpace (l := rest)).length_le
    simp
    omega
  · simp
    omega
  · simp

/-- A text without the line break that it may open with. -/
def dropLineBreak : List Char → List Char
  | '\n' :: rest => rest
  | cs => cs

/-- A string on one line, and what follows it. -/
def readShort : List Char → Option (List Char × List Char)
  | '"' :: rest => readEscaped rest
  | '\x27' :: rest => readLiteral rest
  | _ => none

/-- A string of any kind, and what follows it. -/
def readString : List Char → Option (List Char × List Char)
  | '"' :: '"' :: '"' :: rest => readLines '"' (dropLineBreak rest)
  | '\x27' :: '\x27' :: '\x27' :: rest => readLines '\x27' (dropLineBreak rest)
  | cs => readShort cs

/-! ## Writing strings -/

/-- Length of the longest run of a character, when `run` of them come right before. -/
def longestRunFrom (quote : Char) (run : Nat) : List Char → Nat
  | [] => run
  | c :: rest =>
    if c = quote then longestRunFrom quote (run + 1) rest
    else max run (longestRunFrom quote 0 rest)

/-- Length of the longest run of a character. -/
def longestRun (quote : Char) (cs : List Char) : Nat := longestRunFrom quote 0 cs

/-- Whether a character can be written as an escape only. -/
def needsEscape (c : Char) : Bool := (c.toNat < 32 && c ≠ '\t' && c ≠ '\n') || c.toNat = 127

/-- A character between double quotes other than the quote itself. On several lines, a line
feed stands for itself. -/
def escaped (lines : Bool) (c : Char) : List Char :=
  if c = '\\' then ['\\', '\\']
  else if c = '\t' then ['\\', 't']
  else if c = '\n' then if lines then [c] else ['\\', 'n']
  else if c = '\x08' then ['\\', 'b']
  else if c = '\x0c' then ['\\', 'f']
  else if c = '\r' then ['\\', 'r']
  else if needsEscape c then
    ['\\', 'u', '0', '0', (Text.hexDigit (c.toNat / 16)).toUpper,
      (Text.hexDigit (c.toNat % 16)).toUpper]
  else [c]

/-- The characters of a string between double quotes, `run` of which come right before. A
quote is escaped when more than `allowed` of them would stand in a row. -/
def escapedFrom (lines : Bool) (allowed run : Nat) : List Char → List Char
  | [] => []
  | c :: rest =>
    if c = '"' then
      if run < allowed then c :: escapedFrom lines allowed (run + 1) rest
      else '\\' :: c :: escapedFrom lines allowed 0 rest
    else escaped lines c ++ escapedFrom lines allowed 0 rest

/-- A string as TOML shows it. -/
def quote (s : String) : String :=
  let cs := s.toList
  let isCoded := cs.any needsEscape
  let isLines := cs.contains '\n'
  let hasBackslash := cs.contains '\\'
  let lineBreak := if isLines then "\n" else ""
  let short := "\"" ++ String.ofList (escapedFrom false 0 0 cs) ++ "\""
  let long := "\"\"\"" ++ lineBreak ++ String.ofList (escapedFrom true 2 0 cs) ++ "\"\"\""
  if !isCoded && !hasBackslash && !isLines && !cs.contains '"' then short
  else if !isCoded && !isLines && !cs.contains '\x27' then "\x27" ++ s ++ "\x27"
  else if !isCoded && !hasBackslash && longestRun '"' cs ≤ 2 then long
  else if !isCoded && longestRun '\x27' cs ≤ 2 then
    "\x27\x27\x27" ++ lineBreak ++ s ++ "\x27\x27\x27"
  else if isLines then long
  else short

end LateBinding.Toml
