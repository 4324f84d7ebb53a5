import LateBinding.Codec.Bytes
import LateBinding.Module.FormatError

set_option autoImplicit false

/-! # Reading bytes from the front

A reader takes what it needs from the front of the bytes that are left and fails with the
cause where they do not suffice. The cursor counts the bytes already taken, so a cause can
name its position; the count and the rest always add up to the whole input.
-/

namespace LateBinding.Codec

/-- How far reading has come: the bytes taken so far and the bytes that are left. -/
structure Cursor where
  position : Nat
  rest : Bytes

/-- Reads an `α` from the front. -/
abbrev Reader (α : Type) := Cursor → Except FormatError (α × Cursor)

namespace Reader

variable {α β : Type}

/-- Read nothing. -/
def pure (value : α) : Reader α := fun cursor => .ok (value, cursor)

/-- Read with `first`, then with the reader that its result selects. -/
def bind (first : Reader α) (next : α → Reader β) : Reader β := fun cursor =>
  match first cursor with
  | .ok (value, cursor') => next value cursor'
  | .error cause => .error cause

/-- Fail. -/
def fail (cause : FormatError) : Reader α := fun _ => .error cause

/-- Where the next byte stands. -/
def position : Reader Nat := fun cursor => .ok (cursor.position, cursor)

/-- Apply a function to what is read. -/
def map (f : α → β) (reader : Reader α) : Reader β := bind reader (fun value => pure (f value))

/-- Read `count` bytes. -/
def take (count : Nat) : Reader Bytes := fun cursor =>
  let front := cursor.rest.take count
  if front.length = count then
    .ok (front, ⟨cursor.position + count, cursor.rest.drop count⟩)
  else .error (.unexpectedEnd cursor.position count cursor.rest.length)

/-- Read a number of `count` bytes, the low byte first. -/
def number (count : Nat) : Reader Nat := map littleEndian (take count)

/-- Read one byte. -/
def u8 : Reader UInt8 := map UInt8.ofNat (number 1)

/-- Read two bytes. -/
def u16 : Reader UInt16 := map UInt16.ofNat (number 2)

/-- Read four bytes. -/
def u32 : Reader UInt32 := map UInt32.ofNat (number 4)

/-- Read eight bytes as a signed number. -/
def i64 : Reader Int64 := map (fun n => (UInt64.ofNat n).toInt64) (number 8)

/-- Read `count` items and append them to `done`. -/
def many (item : Reader α) : (count : Nat) → (done : Array α) → Reader (Array α)
  | 0, done => fun cursor => .ok (done, cursor)
  | count + 1, done => fun cursor =>
    match item cursor with
    | .ok (value, cursor') => many item count (done.push value) cursor'
    | .error cause => .error cause

end Reader

instance : Monad Reader where
  pure := Reader.pure
  bind := Reader.bind

end LateBinding.Codec
