import LateBinding.Proofs.Machine.Loading
import Mathlib.Algebra.GroupWithZero.Nat
import Mathlib.Data.List.Nodup

set_option autoImplicit false

/-! # The call sites of a program

Loading goes through the code of a module, method by method and instruction by instruction, and
gives each dynamic call a call site of its own. `Program.Tabulates` says what comes of it: the
places of the call sites are those of the dynamic calls, in ascending order, and each site is found
by its place, carries the strings of its call and is shared with no other place. There are as many
as there are dynamic calls in the code (`length_sites_of_load`).
-/

namespace LateBinding

/-! ## Places -/

/-- Where the call stands: index of the method, index of the instruction. -/
def DynamicCall.place (call : DynamicCall) : Nat × Nat := (call.method, call.pc)

/-- Where the call of the site stands. -/
def ProgramSite.place (s : ProgramSite) : Nat × Nat := (s.method, s.pc)

/-- The first place is before the second: in a method before, or before it in the same method. -/
abbrev Earlier : Nat × Nat → Nat × Nat → Prop := Prod.Lex (· < ·) (· < ·)

theorem Earlier.ne {a b : Nat × Nat} (h : Earlier a b) : a ≠ b := by
  rintro rfl
  cases h with
  | left _ _ h => exact Nat.lt_irrefl _ h
  | right _ h => exact Nat.lt_irrefl _ h

/-- The indices of a table ascend. -/
theorem pairwise_zipIdx {α : Type} (items : List α) (start : Nat) :
    (items.zipIdx start).Pairwise fun a b => a.2 < b.2 := by
  have hsnd : ((items.zipIdx start).map Prod.snd).Pairwise (· < ·) := by
    rw [List.zipIdx_map_snd]
    exact List.pairwise_lt_range'
  exact List.pairwise_map.1 hsnd

/-! ## The dynamic calls of a module -/

/-- Whether the instruction is a dynamic call. -/
def Instruction.isDynamic : Instruction → Bool
  | .invokeDynamic _ _ => true
  | _ => false

/-- Number of dynamic calls in the code of the method. -/
def Method.dynamicCount (method : Method) : Nat := method.code.toList.countP Instruction.isDynamic

namespace Module

variable {m : Module}

/-- Number of dynamic calls in the code of the module. -/
def dynamicCount (m : Module) : Nat := (m.methods.toList.map Method.dynamicCount).sum

/-- A dynamic call stands at this place in the code. -/
def HasCallAt (m : Module) (place : Nat × Nat) : Prop :=
  ∃ method symbol slot, m.methods[place.1]? = some method ∧
    method.code[place.2]? = some (.invokeDynamic symbol slot)

theorem HasCall.at {call : DynamicCall} (h : m.HasCall call) : m.HasCallAt call.place := by
  obtain ⟨method, symbol, slot, hmethod, hinsn, -⟩ := h
  exact ⟨method, symbol, slot, hmethod, hinsn⟩

/-- The operands of the dynamic calls of a consistent module are strings. -/
theorem Consistent.operands (h : m.Consistent) {method : Method} (hmethod : method ∈ m.methods)
    {symbol slot : UInt16} (hinsn : .invokeDynamic symbol slot ∈ method.code) :
    m.pool.IsString symbol ∧ m.pool.IsString slot := by
  obtain ⟨-, -, hcode⟩ := h.method method hmethod
  exact hcode _ hinsn

/-- Each dynamic call in the code of a consistent module is a call of the module. -/
theorem Consistent.hasCall (h : m.Consistent) {place : Nat × Nat} (hplace : m.HasCallAt place) :
    ∃ symbol slot, m.HasCall ⟨place.1, place.2, symbol, slot⟩ := by
  obtain ⟨method, symbol, slot, hmethod, hinsn⟩ := hplace
  obtain ⟨⟨symbolText, hsymbol⟩, ⟨slotText, hslot⟩⟩ :=
    h.operands (Array.mem_of_getElem? hmethod) (Array.mem_of_getElem? hinsn)
  exact ⟨symbolText, slotText, method, symbol, slot, hmethod, hinsn, hsymbol, hslot⟩

/-- The calls of one method are picked from its code with the indices of their instructions. -/
theorem exists_methodCalls_eq (m : Module) (code : Array Instruction) (method : Nat) :
    ∃ pick : Instruction × Nat → Option DynamicCall,
      m.methodCalls code method = code.toList.zipIdx.filterMap pick ∧
      ∀ x call, pick x = some call → call.place = (method, x.2) := by
  refine ⟨_, rfl, ?_⟩
  rintro ⟨insn, pc⟩ call h
  cases insn with
  | invokeDynamic symbol slot =>
      dsimp only at h
      split at h
      · cases h
        rfl
      · cases h
  | _ => cases h

/-- The calls of one method are listed in the order in which they stand in its code. -/
theorem pairwise_methodCalls (m : Module) (code : Array Instruction) (method : Nat) :
    (m.methodCalls code method).Pairwise fun a b => Earlier a.place b.place := by
  obtain ⟨pick, hcalls, hplace⟩ := m.exists_methodCalls_eq code method
  rw [hcalls, List.pairwise_filterMap]
  refine (pairwise_zipIdx code.toList 0).imp ?_
  intro x y hxy a ha b hb
  rw [hplace x a ha, hplace y b hb]
  exact .right method hxy

/-- The calls of a module are listed in ascending order of their places. -/
theorem pairwise_dynamicCalls (m : Module) :
    m.dynamicCalls.Pairwise fun a b => Earlier a.place b.place := by
  rw [dynamicCalls, List.pairwise_flatMap]
  constructor
  · rintro ⟨method, index⟩ -
    exact m.pairwise_methodCalls method.code index
  · refine (pairwise_zipIdx m.methods.toList 0).imp ?_
    rintro ⟨method, index⟩ ⟨method', index'⟩ hlt a ha b hb
    obtain ⟨ha, -⟩ := mem_methodCalls.1 ha
    obtain ⟨hb, -⟩ := mem_methodCalls.1 hb
    have hmethods : a.method < b.method := by rw [ha, hb]; exact hlt
    exact .left _ _ hmethods

/-- No dynamic call of a method is left out when the operands of all are strings. -/
theorem length_methodCalls {method : Method} (h : ∀ symbol slot : UInt16,
      .invokeDynamic symbol slot ∈ method.code → m.pool.IsString symbol ∧ m.pool.IsString slot)
    (index : Nat) : (m.methodCalls method.code index).length = method.dynamicCount := by
  have hcounts : (m.methodCalls method.code index).length =
      method.code.toList.zipIdx.countP fun x => x.1.isDynamic := by
    rw [methodCalls, List.length_filterMap_eq_countP]
    refine List.countP_congr ?_
    rintro ⟨insn, pc⟩ hinsn
    have hmem : insn ∈ method.code := Array.mem_toList_iff.1 (List.fst_mem_of_mem_zipIdx hinsn)
    cases insn with
    | invokeDynamic symbol slot =>
        obtain ⟨⟨symbolText, hsymbol⟩, ⟨slotText, hslot⟩⟩ := h symbol slot hmem
        simp [hsymbol, hslot, Instruction.isDynamic]
    | _ => simp [Instruction.isDynamic]
  calc (m.methodCalls method.code index).length
      = method.code.toList.zipIdx.countP fun x => x.1.isDynamic := hcounts
    _ = (method.code.toList.zipIdx.map Prod.fst).countP Instruction.isDynamic := by
        rw [List.countP_map]; rfl
    _ = method.dynamicCount := by rw [List.zipIdx_map_fst, Method.dynamicCount]

theorem Consistent.length_dynamicCalls (h : m.Consistent) :
    m.dynamicCalls.length = m.dynamicCount := by
  have hmethod : ∀ x ∈ m.methods.toList.zipIdx,
      (m.methodCalls x.1.code x.2).length = x.1.dynamicCount := by
    rintro ⟨method, index⟩ hx
    have hmem : method ∈ m.methods := Array.mem_toList_iff.1 (List.fst_mem_of_mem_zipIdx hx)
    exact length_methodCalls (fun _ _ hinsn => h.operands hmem hinsn) index
  rw [dynamicCalls, List.length_flatMap, List.map_congr_left hmethod, dynamicCount]
  calc ((m.methods.toList.zipIdx).map fun x => x.1.dynamicCount).sum
      = (((m.methods.toList.zipIdx).map Prod.fst).map Method.dynamicCount).sum := by
        rw [List.map_map]; rfl
    _ = (m.methods.toList.map Method.dynamicCount).sum := by rw [List.zipIdx_map_fst]

end Module

/-! ## The table of call sites -/

namespace Program

variable {origin loaded : Container} {m : Module} {program : Program}

/-- The call sites of the program are those of the dynamic calls in its code, and are new in
`loaded`. -/
structure Tabulates (program : Program) (origin loaded : Container) : Prop where
  /-- They are listed in ascending order of their places. -/
  ascending : program.sites.Pairwise fun s t => Earlier s.place t.place
  /-- The listed ones are those that are found by their places. -/
  listed : ∀ s, s ∈ program.sites ↔ program.siteAt? s.method s.pc = some s.site
  /-- There is one for each dynamic call in the code, and for nothing else. -/
  stands : ∀ method pc, (program.siteAt? method pc).isSome ↔ program.code.HasCallAt (method, pc)
  /-- Each one carries the strings of its call, and is not bound. -/
  carries : ∀ s ∈ program.sites, ∃ symbol slot,
    program.code.HasCall ⟨s.method, s.pc, symbol, slot⟩ ∧
      loaded.sites[s.site]? = some ⟨symbol, slot, none⟩
  /-- No two places share a call site. -/
  own : ∀ s ∈ program.sites, ∀ t ∈ program.sites, s.site = t.site → s = t
  /-- No call site was there before. -/
  new : ∀ s ∈ program.sites, origin.sites[s.site]? = none

/-- In a list that ascends, a place occurs once. -/
theorem nodup_places {sites : List ProgramSite}
    (h : sites.Pairwise fun s t => Earlier s.place t.place) :
    (sites.map ProgramSite.place).Nodup :=
  List.pairwise_map.2 (h.imp Earlier.ne)

theorem Tabulates.nodup (h : program.Tabulates origin loaded) : program.sites.Nodup :=
  (nodup_places h.ascending).of_map

/-- In a list that ascends, each call site is found by its place. -/
theorem mem_sites_iff (h : program.sites.Pairwise fun s t => Earlier s.place t.place)
    (s : ProgramSite) : s ∈ program.sites ↔ program.siteAt? s.method s.pc = some s.site := by
  constructor
  · intro hs
    have hexists : (program.sites.find? fun t => t.method = s.method ∧ t.pc = s.pc).isSome :=
      List.find?_isSome.2 ⟨s, hs, decide_eq_true ⟨rfl, rfl⟩⟩
    obtain ⟨t, hfound⟩ := Option.isSome_iff_exists.1 hexists
    have ht : t ∈ program.sites := List.mem_of_find?_eq_some hfound
    have hplace := List.find?_some hfound
    obtain ⟨hmethod, hpc⟩ := of_decide_eq_true hplace
    obtain rfl : t = s :=
      List.inj_on_of_nodup_map (nodup_places h) ht hs (Prod.ext hmethod hpc)
    rw [siteAt?, hfound, Option.map_some]
  · intro hs
    obtain ⟨t, hfound, hsite⟩ := Option.map_eq_some_iff.1 hs
    have ht : t ∈ program.sites := List.mem_of_find?_eq_some hfound
    have hplace := List.find?_some hfound
    obtain ⟨hmethod, hpc⟩ := of_decide_eq_true hplace
    cases s
    cases t
    cases hmethod
    cases hpc
    cases hsite
    exact ht

/-- The listed call sites are the calls of the module with the indices that come next. -/
theorem mem_sites_of_load (h : origin.load m = .ok (program, loaded)) (s : ProgramSite) :
    s ∈ program.sites ↔
      ∃ call, (call, s.site) ∈ m.dynamicCalls.zipIdx origin.sites.size ∧ s = call.at s.site := by
  obtain ⟨-, -, rfl⟩ := Container.load_eq_ok.1 h
  show s ∈ (origin.addCalls m.dynamicCalls).1 ↔ _
  rw [Container.addCalls_eq]
  constructor
  · intro hs
    obtain ⟨⟨call, site⟩, hcall, rfl⟩ := List.mem_map.1 hs
    exact ⟨call, hcall, rfl⟩
  · rintro ⟨call, hcall, heq⟩
    exact List.mem_map.2 ⟨_, hcall, heq.symm⟩

theorem pairwise_sites_of_load (h : origin.load m = .ok (program, loaded)) :
    program.sites.Pairwise fun s t => Earlier s.place t.place := by
  obtain ⟨-, -, rfl⟩ := Container.load_eq_ok.1 h
  show (origin.addCalls m.dynamicCalls).1.Pairwise _
  have hcalls : ((m.dynamicCalls.zipIdx origin.sites.size).map Prod.fst).Pairwise
      fun a b => Earlier a.place b.place := by
    rw [List.zipIdx_map_fst]
    exact m.pairwise_dynamicCalls
  rw [Container.addCalls_eq, List.pairwise_map]
  exact (List.pairwise_map.1 hcalls).imp fun h => h

/-- Loading tabulates the dynamic calls of the module. -/
theorem tabulates_of_load (h : origin.load m = .ok (program, loaded)) :
    program.Tabulates origin loaded := by
  have hascending := pairwise_sites_of_load h
  have hlisted := mem_sites_iff hascending
  have hmem := mem_sites_of_load h
  obtain ⟨hconsistent, rfl, hprogram⟩ := Container.load_eq_ok.1 h
  have hcode : program.code = m := by rw [hprogram]
  -- the call site of a place is the one that was added for its call
  have hcarries : ∀ s ∈ program.sites, ∃ symbol slot,
      m.HasCall ⟨s.method, s.pc, symbol, slot⟩ ∧
        (origin.addCalls m.dynamicCalls).2.sites[s.site]? = some ⟨symbol, slot, none⟩ := by
    intro s hs
    obtain ⟨call, hcall, heq⟩ := (hmem s).1 hs
    have hhas : m.HasCall call := Module.mem_dynamicCalls.1 (List.fst_mem_of_mem_zipIdx hcall)
    rw [heq]
    exact ⟨call.symbol, call.slot, hhas, Container.site?_addCalls hcall⟩
  refine ⟨hascending, hlisted, ?_, ?_, ?_, ?_⟩
  · intro method pc
    rw [hcode]
    constructor
    · intro hsome
      obtain ⟨site, hsite⟩ := Option.isSome_iff_exists.1 hsome
      obtain ⟨symbol, slot, hcall, -⟩ := hcarries ⟨method, pc, site⟩ ((hlisted _).2 hsite)
      exact hcall.at
    · intro hplace
      obtain ⟨symbol, slot, hcall⟩ := hconsistent.hasCall hplace
      rw [← hcode] at hcall
      obtain ⟨site, hsite, -⟩ := site?_of_load h hcall
      rw [hsite]
      rfl
  · rw [hcode]
    exact hcarries
  · intro s hs t ht hsite
    obtain ⟨call, hcall, hs⟩ := (hmem s).1 hs
    obtain ⟨other, hother, ht⟩ := (hmem t).1 ht
    rw [List.mk_mem_zipIdx_iff_le_and_getElem?_sub] at hcall hother
    have hsame : some call = some other := by rw [← hcall.2, ← hother.2, hsite]
    cases hsame
    rw [hs, ht, hsite]
  · intro s hs
    obtain ⟨call, hcall, -⟩ := (hmem s).1 hs
    rw [List.mk_mem_zipIdx_iff_le_and_getElem?_sub] at hcall
    exact Array.getElem?_eq_none hcall.1

/-- There are as many call sites as dynamic calls in the code. -/
theorem length_sites_of_load (h : origin.load m = .ok (program, loaded)) :
    program.sites.length = m.dynamicCount := by
  obtain ⟨hconsistent, -, rfl⟩ := Container.load_eq_ok.1 h
  show (origin.addCalls m.dynamicCalls).1.length = _
  rw [Container.addCalls_eq, List.length_map, List.length_zipIdx, hconsistent.length_dynamicCalls]

end Program

end LateBinding
