import LateBinding.Datum
import LateBinding.Text.Characters

set_option autoImplicit false

/-! # Flags, numbers and dates in TOML

A value that is neither a string nor inside brackets is one word, or two where a date and a
time are set apart by a blank. `ofWord?` says what a word means, and refuses one that is
neither a flag nor a number nor a date.

Digits may be set apart by single underscores. A whole number has to fit into 64 bits, and
one in base ten opens with a zero only when it is zero. A number with a fraction or an
exponent must not be too large for a double. A date has to be in the calendar, and a time
on the clock, where a minute may have a leap second.
-/

namespace LateBinding.Toml

open Text (digitValue? numberOf?)

/-- Whether a character may stand in a word. -/
def isWordChar (c : Char) : Bool := c.isAlphanum || "+-_.:".toList.contains c

/-! ## Numbers -/

/-- The digits of a number in a base without the underscores, each of which stands between
two digits. -/
def digits? (base : Nat) : List Char → Option (List Char)
  | [] => none
  | [c] => if (digitValue? base c).isSome then some [c] else none
  | c :: '_' :: rest =>
    if (digitValue? base c).isSome then (digits? base rest).map (c :: ·) else none
  | c :: rest =>
    if (digitValue? base c).isSome then (digits? base rest).map (c :: ·) else none

/-- The digits of a whole number in base ten, which do not open with a zero in vain. -/
def decimal? (cs : List Char) : Option (List Char) :=
  match digits? 10 cs with
  | some ('0' :: _ :: _) => none
  | read => read

/-- Whether a word opens with a minus sign, and what follows its sign. -/
def signOf : List Char → Bool × List Char
  | '-' :: rest => (true, rest)
  | '+' :: rest => (false, rest)
  | cs => (false, cs)

/-- The least number above the whole numbers of 64 bits. -/
def wholeLimit : Nat := 0x8000000000000000

/-- Whether a word is a whole number of 64 bits. -/
def isWhole (word : List Char) : Bool :=
  let below (limit base : Nat) (read : Option (List Char)) : Bool :=
    ((read.bind (numberOf? base)).filter (· < limit)).isSome
  match word with
  | '0' :: 'x' :: rest => below wholeLimit 16 (digits? 16 rest)
  | '0' :: 'o' :: rest => below wholeLimit 8 (digits? 8 rest)
  | '0' :: 'b' :: rest => below wholeLimit 2 (digits? 2 rest)
  | _ =>
    let (negative, rest) := signOf word
    below (if negative then wholeLimit + 1 else wholeLimit) 10 (decimal? rest)

/-- Whether `mantissa` times ten to the power of `exponent` is too large for a double:
the double next to it would be above the largest. -/
def isTooLarge (mantissa : Nat) (exponent : Int) : Bool :=
  let magnitude : Int := (toString mantissa).length + exponent
  let limit := Nat.pow 2 1024 - Nat.pow 2 970
  if mantissa = 0 ∨ magnitude < 309 then false
  else if 310 < magnitude then true
  else limit * Nat.pow 10 (-exponent).toNat ≤ mantissa * Nat.pow 10 exponent.toNat

/-- The value of an exponent, read after the letter that opens it. -/
def exponent? (cs : List Char) : Option Int :=
  let (negative, rest) := signOf cs
  ((digits? 10 rest).bind (numberOf? 10)).map fun value =>
    if negative then -(value : Int) else value

/-- Whether a character opens an exponent. -/
def isExponentMark (c : Char) : Bool := c = 'e' || c = 'E'

/-- The digits of a number with a fraction or an exponent, and the power of ten that they are
multiplied by. -/
def decimalFraction? (cs : List Char) : Option (List Char × Int) :=
  let isEnd (c : Char) : Bool := c = '.' || isExponentMark c
  match decimal? (cs.takeWhile (!isEnd ·)), cs.dropWhile (!isEnd ·) with
  | none, _ | _, [] => none
  | some whole, c :: rest =>
    if c = '.' then
      match digits? 10 (rest.takeWhile (!isExponentMark ·)),
          rest.dropWhile (!isExponentMark ·) with
      | none, _ => none
      | some places, [] => some (whole ++ places, -places.length)
      | some places, _ :: power =>
        (exponent? power).map fun e => (whole ++ places, e - places.length)
    else (exponent? rest).map (whole, ·)

/-- Whether a word is a number with a fraction or an exponent, or one of the numbers that
have a name. A number below zero is never too large. -/
def isFraction (word : List Char) : Bool :=
  let (negative, rest) := signOf word
  if rest = "inf".toList ∨ rest = "nan".toList then true
  else
    match decimalFraction? rest with
    | none => false
    | some (digits, exponent) =>
      negative || ((numberOf? 10 digits).any fun mantissa => !isTooLarge mantissa exponent)

/-! ## Dates and times -/

/-- The number in the next `count` digits, when it lies in a range, and what follows. -/
def field? (count low high : Nat) (cs : List Char) : Option (Nat × List Char) :=
  if (cs.take count).length = count then
    ((numberOf? 10 (cs.take count)).filter fun n => low ≤ n && n ≤ high).map (·, cs.drop count)
  else none

/-- What follows a character that has to be there. -/
def after? (c : Char) : List Char → Option (List Char)
  | [] => none
  | d :: rest => if d = c then some rest else none

/-- Number of days in a month. -/
def daysIn (year month : Nat) : Nat :=
  if month = 2 then
    if year % 4 = 0 ∧ (year % 100 ≠ 0 ∨ year % 400 = 0) then 29 else 28
  else if month = 4 ∨ month = 6 ∨ month = 9 ∨ month = 11 then 30
  else 31

/-- What follows a date. -/
def afterDate? (cs : List Char) : Option (List Char) := do
  let (year, cs) ← field? 4 0 9999 cs
  let (month, cs) ← after? '-' cs >>= field? 2 1 12
  let (_, cs) ← after? '-' cs >>= field? 2 1 (daysIn year month)
  return cs

/-- What follows a time, with or without parts of a second. -/
def afterTime? (cs : List Char) : Option (List Char) := do
  let (_, cs) ← field? 2 0 23 cs
  let (_, cs) ← after? ':' cs >>= field? 2 0 59
  let (_, cs) ← after? ':' cs >>= field? 2 0 60
  match cs with
  | '.' :: c :: rest => if c.isDigit then return rest.dropWhile Char.isDigit else none
  | '.' :: [] => none
  | _ => return cs

/-- Whether a text is nothing, or the distance of a time zone. -/
def isZone : List Char → Bool
  | [] | ['Z'] | ['z'] => true
  | sign :: rest =>
    (sign = '+' || sign = '-') &&
      (field? 2 0 23 rest >>= fun (_, cs) => after? ':' cs >>= field? 2 0 59).any (·.2 = [])

/-- Whether a text is a date, and nothing else. -/
def isDate (cs : List Char) : Bool := afterDate? cs = some []

/-- Whether a text is a date, a time, or both. -/
def isMoment (cs : List Char) : Bool :=
  if afterTime? cs = some [] then true
  else
    match afterDate? cs with
    | none => false
    | some [] => true
    | some (c :: rest) =>
      (c = 'T' || c = 't' || c = ' ') && (afterTime? rest).any isZone

/-! ## Words -/

/-- What a word means. A date has no use in settings and counts as a table of nothing. -/
def ofWord? (word : List Char) : Option Datum :=
  if word = "true".toList then some (.flag true)
  else if word = "false".toList then some (.flag false)
  else if isWhole word ∨ isFraction word then some (.number (String.ofList word))
  else if isMoment word then some (.table [])
  else none

/-- A flag, a number or a date, and what follows it. -/
def readScalar (cs : List Char) : Option (Datum × List Char) :=
  let word := cs.takeWhile isWordChar
  let rest := cs.dropWhile isWordChar
  match rest with
  | ' ' :: c :: _ =>
    if isDate word ∧ c.isDigit then
      (ofWord? (word ++ ' ' :: rest.tail.takeWhile isWordChar)).map
        (·, rest.tail.dropWhile isWordChar)
    else (ofWord? word).map (·, rest)
  | _ => (ofWord? word).map (·, rest)

end LateBinding.Toml
