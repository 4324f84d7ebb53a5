import LateBinding.Proofs.Machine.Sites
import LateBinding.Proofs.Weaving.Simulation

set_option autoImplicit false

/-! # The call sites of a woven module

Weaving puts a dynamic call where a read of a marked field was and keeps all others, so a woven
module has as many more of them as reads were replaced (`Module.dynamicCount_woven`). When it is
loaded, each of these reads has a call site at its place (`Program.site_of_read`).
-/

namespace LateBinding

variable {targets : CallTargets} {insn : Instruction}

/-- The instruction that takes the place of another is a dynamic call where a read is replaced and
where there was one before. -/
theorem Instruction.isDynamic_weave :
    (insn.weave targets).isDynamic = (insn.isWoven targets || insn.isDynamic) := by
  cases insn with
  | getField index =>
      simp only [weave, isWoven]
      cases targets.at? index with
      | none => rfl
      | some target => rfl
  | _ => rfl

/-- A read is no dynamic call. -/
theorem Instruction.isDynamic_of_isWoven (h : insn.isWoven targets = true) :
    insn.isDynamic = false := by
  cases insn with
  | getField index => rfl
  | _ => cases h

theorem Method.dynamicCount_weave (targets : CallTargets) (method : Method) :
    (method.weave targets).dynamicCount = method.wovenSites targets + method.dynamicCount := by
  rw [dynamicCount, weave, Array.toList_map, List.countP_map, wovenSites, ← Array.countP_toList,
    dynamicCount]
  induction method.code.toList with
  | nil => rfl
  | cons insn code ih =>
      simp only [List.countP_cons, ih, Function.comp_apply, Instruction.isDynamic_weave]
      by_cases hwoven : insn.isWoven targets = true
      · simp [hwoven, Instruction.isDynamic_of_isWoven hwoven]
        omega
      · simp [hwoven]
        omega

/-- In a woven module, there is one more dynamic call for each read that was replaced. -/
theorem Module.dynamicCount_woven (m : Module) (kind : String) :
    (m.woven kind).dynamicCount = (m.wovenSummary kind).sites + m.dynamicCount := by
  show ((m.methods.map (·.weave (m.callTargets kind))).toList.map Method.dynamicCount).sum =
    (m.methods.toList.map (·.wovenSites (m.callTargets kind))).foldr (· + ·) 0 +
      (m.methods.toList.map Method.dynamicCount).sum
  rw [Array.toList_map, List.map_map]
  induction m.methods.toList with
  | nil => rfl
  | cons method methods ih =>
      rw [List.map_cons, List.sum_cons, ih, List.map_cons, List.foldr_cons, List.map_cons,
        List.sum_cons, Function.comp_apply, Method.dynamicCount_weave]
      omega

namespace Program

variable {origin loaded : Container} {m woven : Module} {program : Program} {kind : String}
  {summary : WeaveSummary}

/-- A woven module has a call site for each read that was replaced and for each dynamic call that
was there before. -/
theorem length_sites_of_weave (hweave : m.weave kind = .ok (woven, summary))
    (hload : origin.load woven = .ok (program, loaded)) :
    program.sites.length = summary.sites + m.dynamicCount := by
  obtain ⟨-, hresult⟩ := Module.weave_eq_ok.1 hweave
  cases hresult
  rw [length_sites_of_load hload, Module.dynamicCount_woven]

/-- Where a field with a marker was read, the woven module has a call site with the symbol of the
last such marker and the name of the field. -/
theorem site_of_read (hweave : m.weave kind = .ok (woven, summary))
    (hload : origin.load woven = .ok (program, loaded)) {index pc : Nat} {method : Method}
    {field : UInt16} {found : Field} {symbol : String} (hmethod : m.methods[index]? = some method)
    (hread : method.code[pc]? = some (.getField field))
    (hfield : m.fields[field.toNat]? = some found)
    (hlast : (m.symbols kind found).getLast? = some symbol) :
    ∃ name site, m.pool.string found.name = .ok name ∧ program.siteAt? index pc = some site ∧
      loaded.sites[site]? = some ⟨symbol, name, none⟩ := by
  obtain ⟨hscannable, hresult⟩ := Module.weave_eq_ok.1 hweave
  cases hresult
  obtain ⟨target, htarget⟩ := Option.isSome_iff_exists.1
    (Module.callTarget?_isSome hscannable (Module.symbol?_eq_some.2 ⟨found, hfield, hlast⟩))
  obtain ⟨_, _, hfield', hlast', hsymbol, hslot⟩ := Module.callTarget?_eq_some htarget
  rw [hfield] at hfield'
  cases hfield'
  rw [hlast] at hlast'
  cases hlast'
  -- the field carries a marker, so its name was looked at by the scan
  have hmarked : m.symbols kind found ≠ [] := List.ne_nil_of_mem (List.mem_of_getLast? hlast)
  have hname := (hscannable.field found (Array.mem_of_getElem? hfield)).2 hmarked
  have hcode : program.code = m.woven kind := by
    obtain ⟨-, -, rfl⟩ := Container.load_eq_ok.1 hload
    rfl
  have hcall : program.code.HasCall ⟨index, pc, symbol, m.pool.text found.name⟩ := by
    rw [hcode]
    exact Module.HasCall.of_read hmethod hread htarget hsymbol hslot
  obtain ⟨site, hsite, hfresh⟩ := site?_of_load hload hcall
  exact ⟨m.pool.text found.name, site, Pool.isString_iff.1 hname, hsite, hfresh⟩

end Program

end LateBinding
