import LateBinding.Proofs.Codec.RoundTrip
import Mathlib.Algebra.GroupWithZero.Nat
import Mathlib.Data.List.Forall2

set_option autoImplicit false

/-! # What the format can hold

Every table of a module is written with its count in front and every string with its length, in one,
two or four bytes. `Module.Fits` collects the limits that follow from this. `Module.LaidOut` is the
layout with true numbers: wherever a count or a length stands, reading it gives the number of the
items that follow. A module can be laid out so exactly when it keeps to the limits, and encoding
answers with these bytes or not at all, so it never writes a number that its bytes cannot hold.
`Codec.encode_within_limits` says this, and how many bytes they are.
-/

namespace LateBinding

/-! ## Limits -/

/-- The module keeps to the limits of the format. -/
structure Module.Fits (m : Module) : Prop where
  constants : m.pool.size < UInt16.size
  strings : ∀ text, .str text ∈ m.pool.entries → (Text.utf8 text).length < UInt32.size
  fields : m.fields.size < UInt16.size
  fieldMarkers : ∀ field ∈ m.fields, field.markers.length < UInt8.size
  methods : m.methods.size < UInt16.size
  methodMarkers : ∀ method ∈ m.methods, method.markers.length < UInt8.size
  code : ∀ method ∈ m.methods, method.code.size < UInt32.size

theorem Module.checkLimits_eq_ok_iff {m : Module} : m.checkLimits = .ok () ↔ m.Fits := by
  have hstrings : (∀ constant ∈ m.pool.entries, checkConstant constant = .ok ()) ↔
      ∀ text, .str text ∈ m.pool.entries → (Text.utf8 text).length < UInt32.size := by
    constructor
    · intro h text htext
      exact Codec.checkConstant_str.1 (h _ htext)
    · intro h constant hconstant
      cases constant with
      | str text => exact Codec.checkConstant_str.2 (h text hconstant)
      | int value => rfl
  simp only [Codec.checkLimits_eq_ok, Array.mem_toList_iff, hstrings, Codec.checkMarkerCount_eq_ok,
    Codec.checkMethodSize_eq_ok]
  constructor
  · rintro ⟨⟨hconstants, htexts⟩, ⟨hfields, hmarkers⟩, hmethods, hbodies⟩
    exact ⟨hconstants, htexts, hfields, hmarkers, hmethods, fun method h => (hbodies method h).1,
      fun method h => (hbodies method h).2⟩
  · intro h
    exact ⟨⟨h.constants, h.strings⟩, ⟨h.fields, h.fieldMarkers⟩, h.methods,
      fun method hmethod => ⟨h.methodMarkers method hmethod, h.code method hmethod⟩⟩

/-! ## Numbers of bytes -/

/-- Number of bytes the encoded constant takes. -/
def Constant.encodedSize : Constant → Nat
  | .str text => 5 + (Text.utf8 text).length
  | .int _ => 9

/-- Number of bytes the encoded field takes. -/
def Field.encodedSize (field : Field) : Nat := 3 + 4 * field.markers.length

/-- Number of bytes the encoded method takes. -/
def Method.encodedSize (method : Method) : Nat :=
  9 + 4 * method.markers.length + (method.code.toList.map Instruction.encodedSize).sum

/-- Number of bytes the encoded module takes. -/
def Module.encodedSize (m : Module) : Nat :=
  14 + (m.pool.entries.toList.map Constant.encodedSize).sum +
    (m.fields.toList.map Field.encodedSize).sum + (m.methods.toList.map Method.encodedSize).sum

namespace Codec

theorem length_u16Bytes (value : UInt16) : (u16Bytes value).length = 2 :=
  length_toLittleEndian 2 _

theorem length_u32Bytes (value : UInt32) : (u32Bytes value).length = 4 :=
  length_toLittleEndian 4 _

theorem length_i64Bytes (value : Int64) : (i64Bytes value).length = 8 :=
  length_toLittleEndian 8 _

/-- Items that are written one after the other take as many bytes as all of them together. -/
theorem length_items {α : Type} {write : α → Bytes} {size : α → Nat}
    (h : ∀ item, (write item).length = size item) (items : List α) :
    (items.flatMap write).length = (items.map size).sum := by
  rw [List.length_flatMap]
  simp only [h]

theorem length_markersBytes (markers : List Marker) :
    (markersBytes markers).length = 1 + 4 * markers.length := by
  have hmarker (marker : Marker) : marker.bytes.length = 4 := by
    rw [Marker.bytes, List.length_append, length_u16Bytes, length_u16Bytes]
  rw [markersBytes, List.length_append, length_toLittleEndian, length_items hmarker,
    List.map_const', List.sum_replicate_nat, Nat.mul_comm]

end Codec

open Codec

theorem Instruction.length_bytes (insn : Instruction) : insn.bytes.length = insn.encodedSize := by
  rw [Instruction.bytes, List.length_cons]
  cases insn with
  | nop | pushNull | add | concat | pop | dup | ret => rfl
  | loadLocal slot | storeLocal slot => rfl
  | pushInt value => rw [operandBytes, length_i64Bytes]; rfl
  | pushConst index | getField index | putField index => rw [operandBytes, length_u16Bytes]; rfl
  | jump target | jumpIfNull target => rw [operandBytes, length_u32Bytes]; rfl
  | invokeDynamic symbol slot =>
      rw [operandBytes, List.length_append, length_u16Bytes, length_u16Bytes]
      rfl

theorem Constant.length_bytes (constant : Constant) :
    constant.bytes.length = constant.encodedSize := by
  cases constant with
  | str text =>
      rw [Constant.bytes, List.length_cons, List.length_append, length_toLittleEndian, encodedSize]
      omega
  | int value => rw [Constant.bytes, List.length_cons, length_i64Bytes, encodedSize]

theorem Field.length_bytes (field : Field) : field.bytes.length = field.encodedSize := by
  rw [Field.bytes, List.length_append, length_u16Bytes, length_markersBytes, encodedSize]
  omega

theorem Method.length_bytes (method : Method) : method.bytes.length = method.encodedSize := by
  have hcode : (codeBytes method.code).length =
      4 + (method.code.toList.map Instruction.encodedSize).sum := by
    rw [codeBytes, List.length_append, length_toLittleEndian,
      length_items Instruction.length_bytes]
  rw [Method.bytes, List.length_append, List.length_append, List.length_append, length_u16Bytes,
    length_markersBytes, hcode, encodedSize]
  show 2 + 2 + _ + _ = _
  omega

theorem Module.length_bytes (m : Module) : m.bytes.length = m.encodedSize := by
  have hmagic : magic.length = 4 := rfl
  simp only [Module.bytes, List.length_append, length_u16Bytes, length_toLittleEndian,
    length_items Constant.length_bytes, length_items Field.length_bytes,
    length_items Method.length_bytes, hmagic]
  rw [encodedSize]
  omega

/-! ## The layout with true numbers -/

namespace Codec

variable {α : Type}

/-- The bytes open with a number of `width` bytes, which is how many items there are, and go on with
the parts of the items, one for each, in order. -/
def Counted (width : Nat) (part : α → Bytes → Prop) (items : List α) (bytes : Bytes) : Prop :=
  ∃ count parts, bytes = count ++ List.flatten parts ∧ count.length = width ∧
    littleEndian count = items.length ∧ List.Forall₂ part items parts

/-- Each part is what `write` makes of its item, as long as that fits. -/
abbrev Writes (part : α → Bytes → Prop) (fits : α → Prop) (write : α → Bytes) : Prop :=
  ∀ item bytes, part item bytes ↔ fits item ∧ bytes = write item

theorem forall₂_iff {part : α → Bytes → Prop} {fits : α → Prop} {write : α → Bytes}
    (hpart : Writes part fits write) {items : List α} {parts : List Bytes} :
    List.Forall₂ part items parts ↔ (∀ item ∈ items, fits item) ∧ parts = items.map write := by
  induction items generalizing parts with
  | nil => simp
  | cons item items ih =>
      rw [List.forall₂_cons_left_iff]
      simp only [hpart _ _, ih, List.forall_mem_cons, List.map_cons]
      constructor
      · rintro ⟨_, _, ⟨hitem, rfl⟩, ⟨hitems, rfl⟩, rfl⟩
        exact ⟨⟨hitem, hitems⟩, rfl⟩
      · rintro ⟨⟨hitem, hitems⟩, rfl⟩
        exact ⟨_, _, ⟨hitem, rfl⟩, ⟨hitems, rfl⟩, rfl⟩

/-- A number of `width` bytes can be true only of fewer items than it has values. It is then the
number of the items written out. -/
theorem counted_iff {part : α → Bytes → Prop} {fits : α → Prop} {write : α → Bytes}
    (hpart : Writes part fits write) {width : Nat} {items : List α} {bytes : Bytes} :
    Counted width part items bytes ↔
      (items.length < capacity width ∧ ∀ item ∈ items, fits item) ∧
        bytes = toLittleEndian width items.length ++ items.flatMap write := by
  constructor
  · rintro ⟨count, parts, rfl, rfl, hcount, hparts⟩
    obtain ⟨hfits, rfl⟩ := (forall₂_iff hpart).1 hparts
    have hlt : items.length < capacity count.length := hcount ▸ littleEndian_lt count
    have hwritten : count = toLittleEndian count.length items.length := by
      rw [← hcount, toLittleEndian_littleEndian]
    exact ⟨⟨hlt, hfits⟩, congrArg (· ++ _) hwritten⟩
  · rintro ⟨⟨hlt, hfits⟩, rfl⟩
    have hcount : littleEndian (toLittleEndian width items.length) = items.length := by
      rw [littleEndian_toLittleEndian, Nat.mod_eq_of_lt hlt]
    exact ⟨toLittleEndian width items.length, items.map write, rfl,
      length_toLittleEndian width _, hcount, (forall₂_iff hpart).2 ⟨hfits, rfl⟩⟩

/-- Items that have no limits of their own. -/
theorem counted_always {write : α → Bytes} {width : Nat} {items : List α} {bytes : Bytes} :
    Counted width (fun item part => part = write item) items bytes ↔
      items.length < capacity width ∧
        bytes = toLittleEndian width items.length ++ items.flatMap write := by
  have hpart : Writes (fun item part => part = write item) Always write := fun _ _ =>
    iff_of_eq (true_and _).symm
  rw [counted_iff hpart]
  simp [Always]

end Codec

/-- The layout of a constant: a tag, and then a string with its length in front or a number. -/
def Constant.LaidOut : Constant → Bytes → Prop
  | .str text, bytes => ∃ content, bytes = stringTag :: content ∧
      Counted 4 (fun byte part => part = [byte]) (Text.utf8 text) content
  | .int value, bytes => bytes = intTag :: i64Bytes value

/-- The layout of a field. -/
def Field.LaidOut (field : Field) (bytes : Bytes) : Prop :=
  ∃ markers, bytes = u16Bytes field.name ++ markers ∧
    Counted 1 (fun marker part => part = marker.bytes) field.markers markers

/-- The layout of a method. -/
def Method.LaidOut (method : Method) (bytes : Bytes) : Prop :=
  ∃ markers code,
    bytes = u16Bytes method.name ++ [method.params, method.locals] ++ markers ++ code ∧
    Counted 1 (fun marker part => part = marker.bytes) method.markers markers ∧
    Counted 4 (fun insn part => part = insn.bytes) method.code.toList code

/-- The layout of a module. -/
def Module.LaidOut (m : Module) (bytes : Bytes) : Prop :=
  ∃ constants fields methods,
    bytes = magic ++ u16Bytes version ++ u16Bytes m.name ++ constants ++ fields ++ methods ∧
    Counted 2 Constant.LaidOut m.pool.entries.toList constants ∧
    Counted 2 Field.LaidOut m.fields.toList fields ∧
    Counted 2 Method.LaidOut m.methods.toList methods

theorem Constant.writes_laidOut :
    Writes Constant.LaidOut (fun constant => Module.checkConstant constant = .ok ())
      Constant.bytes := by
  intro constant bytes
  cases constant with
  | str text =>
      simp only [LaidOut, counted_always, checkConstant_str, Constant.bytes]
      rw [List.flatMap_singleton']
      constructor
      · rintro ⟨content, rfl, hlt, rfl⟩
        exact ⟨hlt, rfl⟩
      · rintro ⟨hlt, rfl⟩
        exact ⟨_, rfl, hlt, rfl⟩
  | int value => exact (and_iff_right rfl).symm

theorem Field.writes_laidOut :
    Writes Field.LaidOut (fun field => Module.checkMarkerCount field.markers = .ok ())
      Field.bytes := by
  intro field bytes
  simp only [LaidOut, counted_always, checkMarkerCount_eq_ok]
  constructor
  · rintro ⟨markers, rfl, hlt, rfl⟩
    exact ⟨hlt, rfl⟩
  · rintro ⟨hlt, rfl⟩
    exact ⟨_, rfl, hlt, rfl⟩

theorem Method.writes_laidOut :
    Writes Method.LaidOut (fun method => Module.checkMethodSize method = .ok ()) Method.bytes := by
  intro method bytes
  simp only [LaidOut, counted_always, checkMethodSize_eq_ok]
  constructor
  · rintro ⟨markers, code, rfl, ⟨hmarkers, rfl⟩, hcode, rfl⟩
    exact ⟨⟨hmarkers, hcode⟩, rfl⟩
  · rintro ⟨⟨hmarkers, hcode⟩, rfl⟩
    exact ⟨_, _, rfl, ⟨hmarkers, rfl⟩, hcode, rfl⟩

/-- The layout is what encoding answers with. -/
theorem Module.laidOut_iff {m : Module} {bytes : Bytes} :
    m.LaidOut bytes ↔ encode m = .ok bytes := by
  rw [encode_eq_ok_iff, checkLimits_eq_ok]
  simp only [LaidOut, counted_iff Constant.writes_laidOut, counted_iff Field.writes_laidOut,
    counted_iff Method.writes_laidOut]
  constructor
  · rintro ⟨constants, fields, methods, rfl, ⟨hconstants, rfl⟩, ⟨hfields, rfl⟩, hmethods, rfl⟩
    exact ⟨⟨hconstants, hfields, hmethods⟩, rfl⟩
  · rintro ⟨⟨hconstants, hfields, hmethods⟩, rfl⟩
    exact ⟨_, _, _, rfl, ⟨hconstants, rfl⟩, ⟨hfields, rfl⟩, hmethods, rfl⟩

namespace Codec

/-- **What is encoded, and in how many bytes.** A module is encoded if and only if it keeps to the
limits of the format. The answer is its layout with true numbers, so that no count and no length is
ever cut; and its bytes are as many as the tables of its parts add up to. -/
theorem encode_within_limits (m : Module) :
    ((∃ bytes, encode m = .ok bytes) ↔ m.Fits) ∧
    (∀ bytes, encode m = .ok bytes ↔ m.LaidOut bytes) ∧
    ∀ bytes, encode m = .ok bytes → bytes.length = m.encodedSize := by
  refine ⟨?_, fun bytes => Module.laidOut_iff.symm, ?_⟩
  · simp only [encode_eq_ok_iff, Module.checkLimits_eq_ok_iff]
    exact ⟨fun ⟨_, hfits, _⟩ => hfits, fun hfits => ⟨m.bytes, hfits, rfl⟩⟩
  · intro bytes hencode
    obtain ⟨-, rfl⟩ := encode_eq_ok_iff.1 hencode
    exact m.length_bytes

/-- A module with nothing in it but so many constants. -/
def hoard (count : Nat) : Module where
  name := 0
  pool := ⟨Array.replicate count (.int 0)⟩

theorem fits_hoard {count : Nat} (h : count < UInt16.size) : (hoard count).Fits where
  constants := by
    rw [hoard, Pool.size, Array.size_replicate]
    exact h
  strings text htext := by
    obtain ⟨-, hint⟩ := Array.mem_replicate.1 htext
    cases hint
  fields := Nat.zero_lt_succ _
  fieldMarkers field hfield := absurd hfield (Array.not_mem_empty field)
  methods := Nat.zero_lt_succ _
  methodMarkers method hmethod := absurd hmethod (Array.not_mem_empty method)
  code method hmethod := absurd hmethod (Array.not_mem_empty method)

theorem encodedSize_hoard (count : Nat) : (hoard count).encodedSize = 14 + 9 * count := by
  simp [hoard, Module.encodedSize, Constant.encodedSize, Nat.mul_comm]

/-- With 65535 constants a module is encoded, and with one more it is not. The sample has parts of
all kinds. -/
theorem encode_within_limits_hoard :
    (∃ bytes, encode (hoard 65535) = .ok bytes ∧ (hoard 65535).LaidOut bytes ∧
      bytes.length = 589829) ∧
    (¬ ∃ bytes, encode (hoard 65536) = .ok bytes) ∧
    sample.LaidOut sample.bytes ∧ sample.bytes.length = 78 := by
  obtain ⟨hsucceeds, hlaidOut, hlength⟩ := encode_within_limits (hoard 65535)
  refine ⟨?_, ?_, ?_⟩
  · obtain ⟨bytes, hencode⟩ := hsucceeds.2 (fits_hoard (by decide))
    exact ⟨bytes, hencode, (hlaidOut bytes).1 hencode,
      (hlength bytes hencode).trans (encodedSize_hoard 65535)⟩
  · rw [(encode_within_limits (hoard 65536)).1]
    intro hfits
    have hlt := hfits.constants
    rw [hoard, Pool.size, Array.size_replicate] at hlt
    exact Nat.lt_irrefl _ hlt
  · obtain ⟨-, hlaidOut, hlength⟩ := encode_within_limits sample
    have hencode : encode sample = .ok sample.bytes := rfl
    exact ⟨(hlaidOut _).1 hencode, hlength _ hencode⟩

end Codec

end LateBinding
