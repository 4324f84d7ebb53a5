import LateBinding.Proofs.Codec.RoundTrip
import LateBinding.Proofs.Machine.Loading
import LateBinding.Proofs.Weaving.Woven

set_option autoImplicit false

/-! # Weaving modules as bytes

A module that was decoded keeps to the limits of the format and is consistent, and weaving
keeps both. So weaving the bytes of a module never fails, and what it writes is read back as
the woven module (`Codec.weave_of_decode`).
-/

namespace LateBinding

open Codec

namespace Module

/-- No table, string or method of a woven module is longer than before. -/
theorem checkLimits_woven {m : Module} (kind : String) (h : m.checkLimits = .ok ()) :
    (m.woven kind).checkLimits = .ok () := by
  rw [checkLimits_eq_ok] at h ⊢
  obtain ⟨hpool, hfields, hsize, hmethods⟩ := h
  refine ⟨hpool, hfields, ?_, ?_⟩
  · rwa [woven, Array.size_map]
  · intro method hmethod
    obtain ⟨before, hbefore, rfl⟩ := Array.mem_map.1 (Array.mem_toList_iff.1 hmethod)
    have hlimit := checkMethodSize_eq_ok.1 (hmethods before (Array.mem_toList_iff.2 hbefore))
    refine checkMethodSize_eq_ok.2 ⟨hlimit.1, ?_⟩
    rw [Method.weave, Array.size_map]
    exact hlimit.2

end Module

/-- The bytes of a module are woven to the bytes of the woven module, which decode to it. -/
theorem Codec.weave_eq_of_decode {bytes : Bytes} {m : Module} (h : decode bytes = .ok m)
    (kind : String) :
    m.weave kind = .ok (m.woven kind, m.wovenSummary kind) ∧
      Codec.weave kind bytes = .ok ((m.woven kind).bytes, m.wovenSummary kind) ∧
      decode (m.woven kind).bytes = .ok (m.woven kind) := by
  obtain ⟨hencode, hvalid⟩ := decode_eq_ok_iff.1 h
  have hconsistent := Module.validate_eq_ok_iff.1 hvalid
  have hlimits := (encode_eq_ok_iff.1 hencode).1
  have hfields : m.fields.size ≤ UInt16.size := by
    obtain ⟨-, ⟨hlt, -⟩, -⟩ := checkLimits_eq_ok.1 hlimits
    exact Nat.le_of_lt hlt
  have hweave : m.weave kind = .ok (m.woven kind, m.wovenSummary kind) :=
    Module.weave_eq_ok.2 ⟨hconsistent.scannable kind hfields, rfl⟩
  have hout : encode (m.woven kind) = .ok (m.woven kind).bytes :=
    encode_eq_ok_iff.2 ⟨Module.checkLimits_woven kind hlimits, rfl⟩
  have hwoven : (m.woven kind).validate = .ok () :=
    Module.validate_eq_ok_iff.2 (hconsistent.woven kind)
  refine ⟨hweave, ?_, decode_eq_ok_iff.2 ⟨hout, hwoven⟩⟩
  simp only [Codec.weave, Except.bind_eq_ok, Except.pure_eq_ok]
  exact ⟨m, h, _, hweave, _, hout, rfl⟩

/-- **Weaving bytes agrees with weaving the module.** Whatever decodes can be woven, for any
kind of marker; the bytes that come out decode to the woven module, whose pool is the one it
had, and that module can be loaded anywhere. -/
theorem Codec.weave_of_decode {bytes : Bytes} {m : Module} (h : decode bytes = .ok m)
    (kind : String) :
    ∃ woven summary out, m.weave kind = .ok (woven, summary) ∧
      Codec.weave kind bytes = .ok (out, summary) ∧ decode out = .ok woven ∧
      woven.pool = m.pool ∧ ∀ c : Container, ∃ loaded, c.load woven = .ok loaded := by
  obtain ⟨hweave, hbytes, hout⟩ := weave_eq_of_decode h kind
  refine ⟨m.woven kind, m.wovenSummary kind, (m.woven kind).bytes, hweave, hbytes, hout, rfl, ?_⟩
  intro c
  have hwoven : (m.woven kind).Consistent :=
    Module.validate_eq_ok_iff.1 (decode_eq_ok_iff.1 hout).2
  obtain ⟨program, loaded, hload⟩ := Container.load_of_consistent hwoven c
  exact ⟨(program, loaded), hload⟩

theorem Codec.weave_of_decode_sample :
    decode sample.bytes = .ok sample ∧ ∃ woven summary out,
      sample.weave "A" = .ok (woven, summary) ∧
      Codec.weave "A" sample.bytes = .ok (out, summary) ∧ decode out = .ok woven := by
  have hdecode : decode sample.bytes = .ok sample := decode_eq_ok_iff.2 ⟨rfl, rfl⟩
  obtain ⟨woven, summary, out, hweave, hbytes, hout, -⟩ := Codec.weave_of_decode hdecode "A"
  exact ⟨hdecode, woven, summary, out, hweave, hbytes, hout⟩

end LateBinding
