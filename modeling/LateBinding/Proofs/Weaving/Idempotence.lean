import LateBinding.Proofs.Weaving.Bytes
import LateBinding.Proofs.Weaving.InPlace

set_option autoImplicit false

/-! # Weaving twice is weaving once

A module is settled for a kind of marker when its code reads no field that carries one
(`Module.Settled`). Weaving settles a module, and what is settled stays as it is
(`woven_eq_self_iff`). The markers themselves are not removed, so a second pass finds the same
injection points again, interns the same strings at the same indices and notes the same calls; it
only comes to no read for them. `Module.weave_idempotent` says this of modules, of modules that are
woven where they stand, and of bytes.
-/

namespace LateBinding

open Codec

/-! ## Code that does not change -/

/-- The code of a method differs nowhere from itself. -/
theorem Method.changes_self (method : Method) : method.changes method = 0 := by
  rw [Method.changes]
  induction method.code.toList with
  | nil => rfl
  | cons insn code ih =>
      rw [List.zip_cons_cons, List.countP_cons, ih]
      simp

namespace Module

/-- The code of a module differs nowhere from itself. -/
theorem changes_self (m : Module) : m.changes m = 0 := by
  rw [changes]
  induction m.methods.toList with
  | nil => rfl
  | cons method methods ih =>
      rw [List.zip_cons_cons, List.map_cons, List.sum_cons, ih]
      show method.changes method + 0 = 0
      rw [Method.changes_self]

/-! ## Settled modules -/

variable {m : Module} {kind : String}

/-- No method of the module reads a field that carries a marker of the kind. -/
def Settled (m : Module) (kind : String) : Prop :=
  ∀ method ∈ m.methods, ∀ field, .getField field ∈ method.code → m.symbol? kind field = none

/-- In a settled module, every instruction keeps its place. -/
theorem Settled.weave_eq (h : m.Settled kind) {method : Method} (hmethod : method ∈ m.methods)
    {insn : Instruction} (hinsn : insn ∈ method.code) :
    insn.weave (m.callTargets kind) = insn := by
  cases insn with
  | getField field =>
      rw [weave_getField]
      cases htarget : m.callTarget? kind field with
      | none => rfl
      | some target =>
          -- a field that has a call carries a marker, and the code does not read such a field
          obtain ⟨symbol, hsymbol, -⟩ := strings_of_callTarget? htarget
          rw [h method hmethod field hinsn] at hsymbol
          cases hsymbol
  | _ => rfl

/-- A settled module stays as it is. -/
theorem Settled.woven_eq (h : m.Settled kind) : m.woven kind = m := by
  have hcode : ∀ method ∈ m.methods, method.weave (m.callTargets kind) = method := by
    intro method hmethod
    have hinsns : method.code.map (·.weave (m.callTargets kind)) = method.code :=
      (Array.map_congr_left fun insn hinsn => h.weave_eq hmethod hinsn).trans (Array.map_id _)
    rw [Method.weave, hinsns]
  have hmethods : m.methods.map (·.weave (m.callTargets kind)) = m.methods :=
    (Array.map_congr_left hcode).trans (Array.map_id _)
  rw [woven, hmethods]

/-- Weaving settles a module. -/
theorem settled_woven (h : m.Scannable kind) : (m.woven kind).Settled kind :=
  fun _ hmethod _ hread => symbol?_of_read_woven h hmethod hread

/-- The modules that weaving leaves as they are are the settled ones. -/
theorem woven_eq_self_iff (h : m.Scannable kind) : m.woven kind = m ↔ m.Settled kind := by
  constructor
  · intro heq
    rw [← heq]
    exact settled_woven h
  · exact Settled.woven_eq

/-! ## A second pass -/

/-- A scan reads the name, the pool and the fields of a module, which weaving leaves alone. -/
theorem Scannable.woven (h : m.Scannable kind) : (m.woven kind).Scannable kind :=
  ⟨h.name, h.size, h.field⟩

theorem woven_woven (h : m.Scannable kind) : (m.woven kind).woven kind = m.woven kind :=
  (settled_woven h).woven_eq

/-- Of a woven module, the same is reported again, and no replacement. -/
theorem wovenSummary_woven (h : m.Scannable kind) :
    (m.woven kind).wovenSummary kind = { m.wovenSummary kind with sites := 0 } := by
  have hsites : ((m.woven kind).wovenSummary kind).sites = 0 := by
    rw [sites_wovenSummary, woven_woven h, changes_self]
  calc (m.woven kind).wovenSummary kind
      = { m.wovenSummary kind with sites := ((m.woven kind).wovenSummary kind).sites } := rfl
    _ = { m.wovenSummary kind with sites := 0 } := by rw [hsites]

/-- **Weaving twice is weaving once.** When a module is woven, no method of it reads a field with a
marker of the kind any more, and it is the module from before only where none did. Weaving it once
more succeeds, leaves it as it is, also where it stands, and reports the same name and the same
injection points with no replacement. The bytes of a module can be woven, and then woven once more
to just the same bytes. -/
theorem weave_idempotent (m : Module) (kind : String) :
    (∀ woven summary, m.weave kind = .ok (woven, summary) →
      woven.Settled kind ∧ (woven = m ↔ m.Settled kind) ∧
      woven.weave kind = .ok (woven, { summary with sites := 0 }) ∧
      woven.weaveInPlace kind = (.ok { summary with sites := 0 }, woven)) ∧
    ∀ bytes, decode bytes = .ok m →
      ∃ out summary, Codec.weave kind bytes = .ok (out, summary) ∧
        Codec.weave kind out = .ok (out, { summary with sites := 0 }) := by
  constructor
  · intro woven summary hweave
    obtain ⟨h, hresult⟩ := weave_eq_ok.1 hweave
    cases hresult
    have hagain : (m.woven kind).weave kind =
        .ok (m.woven kind, { m.wovenSummary kind with sites := 0 }) := by
      rw [weave_of_scannable h.woven, woven_woven h, wovenSummary_woven h]
    refine ⟨settled_woven h, woven_eq_self_iff h, hagain, ?_⟩
    rw [weaveInPlace_eq, hagain]
  · intro bytes hdecode
    obtain ⟨hweave, hbytes, hout⟩ := Codec.weave_eq_of_decode hdecode kind
    have h : m.Scannable kind := (weave_eq_ok.1 hweave).1
    obtain ⟨-, hagain, -⟩ := Codec.weave_eq_of_decode hout kind
    rw [woven_woven h, wovenSummary_woven h] at hagain
    exact ⟨_, _, hbytes, hagain⟩

theorem weave_idempotent_sample :
    (∃ woven summary, sample.weave "A" = .ok (woven, summary) ∧ woven ≠ sample ∧
      summary.sites = 1 ∧ woven.weave "A" = .ok (woven, { summary with sites := 0 })) ∧
    decode sample.bytes = .ok sample ∧
    ∃ out summary, Codec.weave "A" sample.bytes = .ok (out, summary) ∧
      Codec.weave "A" out = .ok (out, { summary with sites := 0 }) := by
  have hdecode : decode sample.bytes = .ok sample := decode_eq_ok_iff.2 ⟨rfl, rfl⟩
  obtain ⟨hmodule, hbytes⟩ := weave_idempotent sample "A"
  obtain ⟨hweave, -, -⟩ := Codec.weave_eq_of_decode hdecode "A"
  obtain ⟨-, hsame, hagain, -⟩ := hmodule _ _ hweave
  refine ⟨⟨_, _, hweave, ?_, by decide +kernel, hagain⟩, hdecode, hbytes _ hdecode⟩
  decide +kernel

end Module

end LateBinding
