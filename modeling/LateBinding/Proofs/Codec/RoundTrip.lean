import LateBinding.Proofs.Codec.Layout

set_option autoImplicit false

/-! # Decoding and encoding

Parsing and encoding are inverse to each other, in the strongest sense: bytes parse to a
module exactly when the module is written as these bytes (`parse_eq_ok_iff`). Nothing in the
bytes is left to the writer's choice, and nothing that is written is refused by the reader.
What decoding adds to parsing is that the module has to be consistent, so decoding what was
encoded answers with the module or with the fault of the module (`decode_of_encode`), and a
module that was decoded has one encoding, the bytes it came from (`encode_of_decode`).
-/

namespace LateBinding.Codec

open Reader

theorem encode_eq_ok_iff {m : Module} {bytes : Bytes} :
    encode m = .ok bytes ↔ m.checkLimits = .ok () ∧ m.bytes = bytes := by
  rw [encode, Except.bind_eq_ok, Except.exists_unit, Except.pure_eq_ok]

/-- A module is read from its bytes up to the last: nothing may follow it. -/
theorem parse_eq_ok_iff_readModule {bytes : Bytes} {m : Module} :
    parse bytes = .ok m ↔ ∃ stop, readModule ⟨0, bytes⟩ = .ok (m, ⟨stop, []⟩) := by
  simp only [parse, Except.bind_eq_ok]
  constructor
  · rintro ⟨⟨found, stop, rest⟩, hread, h⟩
    split at h
    · next hempty =>
        obtain rfl := Except.pure_eq_ok.1 h
        obtain rfl := List.isEmpty_iff.1 hempty
        exact ⟨stop, hread⟩
    · cases h
  · rintro ⟨stop, hread⟩
    exact ⟨(m, ⟨stop, []⟩), hread, rfl⟩

/-- **Parsing is the inverse of encoding.** -/
theorem parse_eq_ok_iff {bytes : Bytes} {m : Module} :
    parse bytes = .ok m ↔ encode m = .ok bytes := by
  simp only [parse_eq_ok_iff_readModule, encode_eq_ok_iff, reads_readModule _ _ _]
  constructor
  · rintro ⟨stop, hlimits, hpass⟩
    have hrest : bytes = m.bytes ++ [] := hpass.rest_eq
    exact ⟨hlimits, by rw [hrest, List.append_nil]⟩
  · rintro ⟨hlimits, rfl⟩
    exact ⟨0 + m.bytes.length, hlimits, (List.append_nil _).symm, rfl⟩

theorem decode_eq_of_parse {bytes : Bytes} {m : Module} (h : parse bytes = .ok m) :
    decode bytes = m.validate.map fun _ => m := by
  rw [decode, h]
  show (m.validate >>= fun _ => pure m) = _
  cases m.validate <;> rfl

theorem decode_eq_ok_iff {bytes : Bytes} {m : Module} :
    decode bytes = .ok m ↔ encode m = .ok bytes ∧ m.validate = .ok () := by
  rw [← parse_eq_ok_iff]
  simp only [decode, Except.bind_eq_ok, Except.pure_eq_ok]
  constructor
  · rintro ⟨found, hparse, ⟨⟩, hvalid, rfl⟩
    exact ⟨hparse, hvalid⟩
  · rintro ⟨hparse, hvalid⟩
    exact ⟨m, hparse, (), hvalid, rfl⟩

/-- **What was encoded is decoded again.** The structure comes back in full, consistent or
not. Decoding then answers with the module if it is consistent, and with the first fault of
the module if it is not. -/
theorem decode_of_encode {m : Module} {bytes : Bytes} (h : encode m = .ok bytes) :
    parse bytes = .ok m ∧ (m.validate = .ok () → decode bytes = .ok m) ∧
      ∀ cause, m.validate = .error cause → decode bytes = .error cause := by
  have hparse : parse bytes = .ok m := parse_eq_ok_iff.2 h
  have hdecode := decode_eq_of_parse hparse
  refine ⟨hparse, ?_, ?_⟩
  · intro hvalid
    rw [hdecode, hvalid]
    rfl
  · intro cause hfault
    rw [hdecode, hfault]
    rfl

/-- A module with the same string twice, a marker, and code with a jump. -/
def sample : Module where
  name := 0
  pool := ⟨#[.str "A", .str "é", .int (-2), .str "A"]⟩
  fields := #[⟨1, [⟨3, 1⟩]⟩]
  methods := #[⟨3, 1, 2, [], #[.loadLocal 0, .getField 0, .pushInt (-1), .jump 4, .ret]⟩]

theorem decode_of_encode_sample :
    encode sample = .ok sample.bytes ∧ parse sample.bytes = .ok sample ∧
      decode sample.bytes = .ok sample := by
  have hencode : encode sample = .ok sample.bytes := rfl
  have h := decode_of_encode hencode
  exact ⟨hencode, h.1, h.2.1 rfl⟩

/-- **The encoding is canonical.** A module that was decoded is written back as the bytes
that it came from, so no other bytes decode to it. -/
theorem encode_of_decode {bytes : Bytes} {m : Module} (h : decode bytes = .ok m) :
    encode m = .ok bytes ∧ ∀ other, decode other = .ok m → other = bytes := by
  have hencode : encode m = .ok bytes := (decode_eq_ok_iff.1 h).1
  refine ⟨hencode, ?_⟩
  intro other hother
  have hencode' : encode m = .ok other := (decode_eq_ok_iff.1 hother).1
  rw [hencode] at hencode'
  exact (Except.ok.inj hencode').symm

theorem encode_of_decode_sample :
    decode sample.bytes = .ok sample ∧ encode sample = .ok sample.bytes := by
  have hdecode : decode sample.bytes = .ok sample := decode_eq_ok_iff.2 ⟨rfl, rfl⟩
  exact ⟨hdecode, (encode_of_decode hdecode).1⟩

end LateBinding.Codec
