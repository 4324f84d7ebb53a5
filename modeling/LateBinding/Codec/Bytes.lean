set_option autoImplicit false

/-! # Numbers as bytes, the low byte first

`littleEndian` reads a number and `toLittleEndian` writes one in a given count of bytes;
on that many bytes they are inverse to each other (`toLittleEndian_littleEndian`), and
writing and reading gives the number back up to the `capacity` of the bytes
(`littleEndian_toLittleEndian`).
-/

namespace LateBinding.Codec

/-- The bytes of a file or of a part of one. -/
abbrev Bytes := List UInt8

/-- The number whose bytes are these, the low byte first. -/
def littleEndian : Bytes → Nat
  | [] => 0
  | byte :: rest => byte.toNat + 256 * littleEndian rest

/-- The low `count` bytes of a number, the low byte first. -/
def toLittleEndian : (count : Nat) → Nat → Bytes
  | 0, _ => []
  | count + 1, value => UInt8.ofNat (value % 256) :: toLittleEndian count (value / 256)

/-- The number of numbers that `count` bytes can hold. -/
def capacity : (count : Nat) → Nat
  | 0 => 1
  | count + 1 => 256 * capacity count

@[simp] theorem length_toLittleEndian (count value : Nat) :
    (toLittleEndian count value).length = count := by
  induction count generalizing value with
  | zero => rfl
  | succ count ih => simp [toLittleEndian, ih]

theorem littleEndian_toLittleEndian (count value : Nat) :
    littleEndian (toLittleEndian count value) = value % capacity count := by
  induction count generalizing value with
  | zero => simp [toLittleEndian, littleEndian, capacity, Nat.mod_one]
  | succ count ih => simp [toLittleEndian, littleEndian, capacity, ih, Nat.mod_mul]

theorem toLittleEndian_littleEndian (bytes : Bytes) :
    toLittleEndian bytes.length (littleEndian bytes) = bytes := by
  induction bytes with
  | nil => rfl
  | cons byte rest ih =>
    have hlt : byte.toNat < 256 := byte.toNat_lt
    have hmod : (byte.toNat + 256 * littleEndian rest) % 256 = byte.toNat := by omega
    have hdiv : (byte.toNat + 256 * littleEndian rest) / 256 = littleEndian rest := by omega
    simp [toLittleEndian, littleEndian, hmod, hdiv, ih]

theorem littleEndian_lt (bytes : Bytes) : littleEndian bytes < capacity bytes.length := by
  induction bytes with
  | nil => simp [littleEndian, capacity]
  | cons byte rest ih =>
    have hlt : byte.toNat < 256 := byte.toNat_lt
    simp only [littleEndian, List.length_cons, capacity]
    omega

end LateBinding.Codec
