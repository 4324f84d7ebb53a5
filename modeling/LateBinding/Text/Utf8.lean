set_option autoImplicit false

/-! # Strings as UTF-8 bytes

The bytes of a string, the string of some bytes, and what is wrong with bytes that are no
string. `utf8` and `ofUtf8?` are inverse to each other: `ofUtf8?_utf8` and
`utf8_of_ofUtf8?`.

As a string is known by its bytes, `byteLe` orders strings totally, and different strings
strictly: different names that are sorted by it stand in strictly ascending order
(`pairwise_mergeSort_byteLe`).

A diagnosis names the index at which the bad character starts. It is *invalid* when some
byte rules every continuation out, and then it also counts the bytes that still made
sense; it is *incomplete* when the bytes end in the middle of it.
-/

namespace LateBinding.Text

/-- The UTF-8 bytes of a string. -/
def utf8 (s : String) : List UInt8 := s.toUTF8.data.toList

/-- The string with these UTF-8 bytes, if they are well formed. -/
def ofUtf8? (bytes : List UInt8) : Option String := String.fromUTF8? ⟨bytes.toArray⟩

theorem ofUtf8?_utf8 (s : String) : ofUtf8? (utf8 s) = some s := by
  have h : (⟨(utf8 s).toArray⟩ : ByteArray) = s.toByteArray := by simp [utf8]
  simp only [ofUtf8?, String.fromUTF8?, h, s.isValidUTF8, dite_true]
  rfl

theorem utf8_of_ofUtf8? {bytes : List UInt8} {s : String} (h : ofUtf8? bytes = some s) :
    utf8 s = bytes := by
  unfold ofUtf8? String.fromUTF8? at h
  split at h
  · cases h
    simp [utf8, String.fromUTF8]
  · cases h

/-- A string is known by its bytes. -/
theorem utf8_injective : Function.Injective utf8 := by
  intro a b h
  have hsome : ofUtf8? (utf8 a) = ofUtf8? (utf8 b) := congrArg ofUtf8? h
  rw [ofUtf8?_utf8, ofUtf8?_utf8] at hsome
  exact Option.some.inj hsome

/-- The characters that the first `count` bytes are; `none` when those end inside one. -/
def firstBytes? : (count : Nat) → List Char → Option (List Char)
  | 0, _ => some []
  | _ + 1, [] => some []
  | count + 1, c :: rest =>
    if c.utf8Size ≤ count + 1 then
      (firstBytes? (count + 1 - c.utf8Size) rest).map (c :: ·)
    else none

/-! ## The order of strings by their bytes -/

/-- Order of strings by their bytes, the smaller first and a beginning before the whole. -/
def byteLe (a b : String) : Bool := decide (utf8 a ≤ utf8 b)

theorem byteLe_trans (a b c : String) (hab : byteLe a b = true) (hbc : byteLe b c = true) :
    byteLe a c = true :=
  decide_eq_true (List.le_trans (of_decide_eq_true hab) (of_decide_eq_true hbc))

theorem byteLe_total (a b : String) : (byteLe a b || byteLe b a) = true := by
  rw [Bool.or_eq_true, byteLe, byteLe, decide_eq_true_eq, decide_eq_true_eq]
  exact List.le_total (utf8 a) (utf8 b)

/-- Different strings do not share a place in the order. -/
theorem lt_of_byteLe {a b : String} (hle : byteLe a b = true) (hne : a ≠ b) : utf8 a < utf8 b :=
  (List.le_iff_lt_or_eq.1 (of_decide_eq_true hle)).resolve_right
    fun heq => hne (utf8_injective heq)

/-- Different names stand in strictly ascending order once they are sorted. -/
theorem pairwise_mergeSort_byteLe {names : List String} (h : names.Nodup) :
    (names.mergeSort byteLe).Pairwise fun a b => utf8 a < utf8 b := by
  have hsorted : (names.mergeSort byteLe).Pairwise fun a b => byteLe a b = true :=
    List.pairwise_mergeSort byteLe_trans byteLe_total names
  have hnodup : (names.mergeSort byteLe).Nodup := (List.mergeSort_perm names byteLe).nodup_iff.2 h
  exact (hsorted.and hnodup).imp fun ⟨hle, hne⟩ => lt_of_byteLe hle hne

/-! ## What is wrong with bytes that are no string -/

/-- What is wrong with bytes that are not UTF-8. -/
inductive Utf8Fault where
  /-- The character at `index` is ruled out after `length` bytes of it. -/
  | invalid (length index : Nat)
  /-- The bytes end inside the character at `index`. -/
  | incomplete (index : Nat)
  deriving DecidableEq, Repr

/-- The diagnosis in words. -/
def Utf8Fault.message : Utf8Fault → String
  | .invalid length index => s!"invalid utf-8 sequence of {length} bytes from index {index}"
  | .incomplete index => s!"incomplete utf-8 byte sequence from index {index}"

/-- Inside a character: `owed` more bytes, the next of them between `low` and `high`. -/
structure Utf8State where
  owed : Nat
  low : UInt8
  high : UInt8

/-- What a character that starts with `byte` still owes; `none` when no character does. -/
def Utf8State.start? (byte : UInt8) : Option Utf8State :=
  if byte ≤ 0x7F then some ⟨0, 0x80, 0xBF⟩
  else if byte < 0xC2 then none
  else if byte ≤ 0xDF then some ⟨1, 0x80, 0xBF⟩
  else if byte = 0xE0 then some ⟨2, 0xA0, 0xBF⟩
  else if byte = 0xED then some ⟨2, 0x80, 0x9F⟩
  else if byte ≤ 0xEF then some ⟨2, 0x80, 0xBF⟩
  else if byte = 0xF0 then some ⟨3, 0x90, 0xBF⟩
  else if byte ≤ 0xF3 then some ⟨3, 0x80, 0xBF⟩
  else if byte = 0xF4 then some ⟨3, 0x80, 0x8F⟩
  else none

/-- Scan on with `seen` bytes of the character that starts at `index` behind us. -/
def Utf8Fault.scan (index seen : Nat) (state : Utf8State) : List UInt8 → Option Utf8Fault
  | [] => if state.owed = 0 then none else some (.incomplete index)
  | byte :: rest =>
    if state.owed = 0 then
      match Utf8State.start? byte with
      | none => some (.invalid 1 (index + seen))
      | some next => scan (index + seen) 1 next rest
    else if state.low ≤ byte ∧ byte ≤ state.high then
      scan index (seen + 1) ⟨state.owed - 1, 0x80, 0xBF⟩ rest
    else some (.invalid seen index)

/-- The first thing that is wrong with `bytes`, if they are not UTF-8. -/
def utf8Fault? (bytes : List UInt8) : Option Utf8Fault :=
  Utf8Fault.scan 0 0 ⟨0, 0x80, 0xBF⟩ bytes

end LateBinding.Text
