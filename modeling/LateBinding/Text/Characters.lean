set_option autoImplicit false

/-! # Characters as text is read

Which characters are blank, and what the escapes in quoted text stand for. After a
backslash, a letter stands for a control character, a quote and a backslash stand for
themselves, and `u` or `U` is followed by the number of a character in four or eight
hexadecimal digits. What follows an escape is a proper part of what it was read from:
`unescape?_length`.
-/

namespace LateBinding.Text

/-! ## Blanks

The blank characters are those with the Unicode property White_Space. -/

/-- The ranges of characters with the property, first and last. -/
def blankRanges : List (Nat × Nat) :=
  [(0x0009, 0x000D), (0x0020, 0x0020), (0x0085, 0x0085), (0x00A0, 0x00A0), (0x1680, 0x1680),
   (0x2000, 0x200A), (0x2028, 0x2029), (0x202F, 0x202F), (0x205F, 0x205F), (0x3000, 0x3000)]

/-- Whether a character is blank. -/
def isBlank (c : Char) : Bool :=
  blankRanges.any fun (first, last) => first ≤ c.toNat ∧ c.toNat ≤ last

/-- Whether a string holds nothing but blanks. -/
def isAllBlank (s : String) : Bool := s.toList.all isBlank

/-- A list of characters without the blanks at both ends. -/
def trimBlanks (cs : List Char) : List Char :=
  ((cs.dropWhile isBlank).reverse.dropWhile isBlank).reverse

/-! ## Escapes -/

/-- Whether a character may stand for itself in quoted text: any but the control characters,
of which the tab alone may. -/
def isPlain (c : Char) : Bool := c = '\t' || (32 ≤ c.toNat && c.toNat ≠ 127)

/-- The value of a digit in a base of at most sixteen. -/
def digitValue? (base : Nat) (c : Char) : Option Nat :=
  let value? :=
    if '0' ≤ c ∧ c ≤ '9' then some (c.toNat - '0'.toNat)
    else if 'a' ≤ c ∧ c ≤ 'f' then some (c.toNat - 'a'.toNat + 10)
    else if 'A' ≤ c ∧ c ≤ 'F' then some (c.toNat - 'A'.toNat + 10)
    else none
  value?.filter (· < base)

/-- The number that digits stand for, the most significant first. -/
def numberOf? (base : Nat) (digits : List Char) : Option Nat :=
  digits.foldlM (fun value c => (digitValue? base c).map (value * base + ·)) 0

/-- The character with a number, if there is one. -/
def charOf? (number : Nat) : Option Char :=
  if number.isValidChar then some (Char.ofNat number) else none

/-- The character whose number stands in the next `count` hexadecimal digits, and what
follows them. -/
def numbered? (count : Nat) (cs : List Char) : Option (Char × List Char) :=
  if (cs.take count).length = count then
    ((numberOf? 16 (cs.take count)).bind charOf?).map (·, cs.drop count)
  else none

/-- The escapes of one letter, and what they stand for. -/
def letterEscapes : List (Char × Char) :=
  [('"', '"'), ('\\', '\\'), ('b', '\x08'), ('t', '\t'), ('n', '\n'), ('f', '\x0c'),
   ('r', '\r')]

/-- The character that an escape stands for, and what follows it. The backslash has been read
already. -/
def unescape? : List Char → Option (Char × List Char)
  | [] => none
  | 'u' :: rest => numbered? 4 rest
  | 'U' :: rest => numbered? 8 rest
  | c :: rest => (letterEscapes.lookup c).map (·, rest)

theorem numbered?_length {count : Nat} {cs rest : List Char} {c : Char}
    (h : numbered? count cs = some (c, rest)) : rest.length ≤ cs.length := by
  unfold numbered? at h
  split at h
  · obtain ⟨_, _, h⟩ := Option.map_eq_some_iff.1 h
    cases h
    simp
  · cases h

theorem unescape?_length {cs rest : List Char} {c : Char}
    (h : unescape? cs = some (c, rest)) : rest.length < cs.length := by
  unfold unescape? at h
  split at h
  · cases h
  · exact Nat.lt_succ_of_le (numbered?_length h)
  · exact Nat.lt_succ_of_le (numbered?_length h)
  · obtain ⟨_, _, h⟩ := Option.map_eq_some_iff.1 h
    cases h
    simp

/-- The characters that a quoted text stands for, if all of its escapes mean something. -/
def unescapeAll? (cs : List Char) : Option (List Char) :=
  match cs with
  | [] => some []
  | c :: rest =>
    if c = '\\' then
      match h : unescape? rest with
      | some (d, rest') =>
        have := unescape?_length h
        (unescapeAll? rest').map (d :: ·)
      | none => none
    else if isPlain c then (unescapeAll? rest).map (c :: ·)
    else none
termination_by cs.length
decreasing_by
  · simp
    omega
  · simp

end LateBinding.Text
