import LateBinding.Machine.Program
import LateBinding.Proofs.Container.Linking
import LateBinding.Proofs.Module.Consistency

set_option autoImplicit false

/-! # Loading a module

`Module.mem_dynamicCalls` says which dynamic calls a module has: those that stand in its code, by
their places. Loading gives each of them a call site that is not bound (`addCalls_eq`), so in a
program that was just loaded every dynamic call is served (`Program.served_of_load`): there is a
site for its place, which carries the strings of its operands.
-/

namespace LateBinding

/-! ## Dynamic calls -/

namespace Module

variable {m : Module} {call : DynamicCall}

/-- The call is the dynamic call at its place in the code. -/
def HasCall (m : Module) (call : DynamicCall) : Prop :=
  ∃ method symbol slot, m.methods[call.method]? = some method ∧
    method.code[call.pc]? = some (.invokeDynamic symbol slot) ∧
    m.pool.string symbol = .ok call.symbol ∧ m.pool.string slot = .ok call.slot

/-- There is one call at a place. -/
theorem HasCall.unique {other : DynamicCall} (h : m.HasCall call) (h' : m.HasCall other)
    (hmethod : other.method = call.method) (hpc : other.pc = call.pc) : other = call := by
  obtain ⟨method, symbol, slot, hcode, hinsn, hsymbol, hslot⟩ := h
  obtain ⟨method', symbol', slot', hcode', hinsn', hsymbol', hslot'⟩ := h'
  rw [hmethod, hcode] at hcode'
  cases hcode'
  rw [hpc, hinsn] at hinsn'
  cases hinsn'
  rw [hsymbol] at hsymbol'
  rw [hslot] at hslot'
  cases call
  cases other
  cases hsymbol'
  cases hslot'
  cases hmethod
  cases hpc
  rfl

theorem mem_methodCalls {code : Array Instruction} {method : Nat} :
    call ∈ m.methodCalls code method ↔
      call.method = method ∧ ∃ symbol slot, code[call.pc]? = some (.invokeDynamic symbol slot) ∧
        m.pool.string symbol = .ok call.symbol ∧ m.pool.string slot = .ok call.slot := by
  rw [methodCalls, List.mem_filterMap]
  constructor
  · rintro ⟨⟨insn, pc⟩, hinsn, h⟩
    rw [List.mk_mem_zipIdx_iff_getElem?, Array.getElem?_toList] at hinsn
    cases insn with
    | invokeDynamic symbol slot =>
        dsimp only at h
        split at h
        · next hsymbol hslot =>
            cases h
            exact ⟨rfl, symbol, slot, hinsn, hsymbol, hslot⟩
        · cases h
    | _ => cases h
  · rintro ⟨hmethod, symbol, slot, hinsn, hsymbol, hslot⟩
    refine ⟨(.invokeDynamic symbol slot, call.pc), ?_, ?_⟩
    · rwa [List.mk_mem_zipIdx_iff_getElem?, Array.getElem?_toList]
    · simp only [hsymbol, hslot, ← hmethod]

/-- The dynamic calls of a module are those in its code. -/
theorem mem_dynamicCalls : call ∈ m.dynamicCalls ↔ m.HasCall call := by
  rw [dynamicCalls, List.mem_flatMap]
  constructor
  · rintro ⟨⟨method, index⟩, hmethod, h⟩
    rw [List.mk_mem_zipIdx_iff_getElem?, Array.getElem?_toList] at hmethod
    obtain ⟨rfl, symbol, slot, h⟩ := mem_methodCalls.1 h
    exact ⟨method, symbol, slot, hmethod, h⟩
  · rintro ⟨method, symbol, slot, hmethod, h⟩
    refine ⟨(method, call.method), ?_, mem_methodCalls.2 ⟨rfl, symbol, slot, h⟩⟩
    rwa [List.mk_mem_zipIdx_iff_getElem?, Array.getElem?_toList]

end Module

/-! ## Their call sites -/

/-- The call site of a dynamic call, not bound. -/
def DynamicCall.fresh (call : DynamicCall) : CallSite where
  symbol := call.symbol
  slot := call.slot

/-- The place of a dynamic call with its call site. -/
def DynamicCall.at (call : DynamicCall) (site : SiteId) : ProgramSite :=
  ⟨call.method, call.pc, site⟩

namespace Container

variable {c : Container}

/-- Call sites are added at the end, one for each call. -/
theorem addCalls_eq (calls : List DynamicCall) (c : Container) :
    c.addCalls calls =
      ((calls.zipIdx c.sites.size).map fun (call, site) => call.at site,
        { c with sites := c.sites ++ (calls.map DynamicCall.fresh).toArray }) := by
  induction calls generalizing c with
  | nil => simp [addCalls]
  | cons call calls ih =>
      simp only [addCalls, addSite, ih, List.zipIdx_cons, List.map_cons, Array.size_push]
      refine Prod.ext rfl ?_
      simp [DynamicCall.fresh]

/-- The call site that was added for a call carries its strings and is not bound. -/
theorem site?_addCalls {calls : List DynamicCall} {call : DynamicCall} {site : SiteId}
    (h : (call, site) ∈ calls.zipIdx c.sites.size) :
    (c.addCalls calls).2.sites[site]? = some call.fresh := by
  obtain ⟨hle, hcall⟩ := List.mk_mem_zipIdx_iff_le_and_getElem?_sub.1 h
  rw [addCalls_eq, Array.getElem?_append_right hle, List.getElem?_toArray, List.getElem?_map,
    hcall]
  rfl

/-- There is a call site for the place of each call, added for a call at this place. -/
theorem find?_addCalls (c : Container) {calls : List DynamicCall} {call : DynamicCall}
    (h : call ∈ calls) :
    ∃ other site, ((c.addCalls calls).1.find? fun s =>
        s.method = call.method ∧ s.pc = call.pc) = some (other.at site) ∧
      (other, site) ∈ calls.zipIdx c.sites.size ∧
      other.method = call.method ∧ other.pc = call.pc := by
  rw [addCalls_eq]
  obtain ⟨n, hn, hget⟩ := List.getElem_of_mem h
  have hmem : (call, c.sites.size + n) ∈ calls.zipIdx c.sites.size := by
    rw [List.mk_mem_zipIdx_iff_le_and_getElem?_sub, Nat.add_sub_cancel_left]
    exact ⟨Nat.le_add_right _ _, List.getElem?_eq_some_iff.2 ⟨hn, hget⟩⟩
  have hexists : (((calls.zipIdx c.sites.size).map fun (call, site) => call.at site).find?
      fun s => s.method = call.method ∧ s.pc = call.pc).isSome :=
    List.find?_isSome.2 ⟨_, List.mem_map.2 ⟨_, hmem, rfl⟩, decide_eq_true ⟨rfl, rfl⟩⟩
  obtain ⟨found, hfound⟩ := Option.isSome_iff_exists.1 hexists
  obtain ⟨⟨other, site⟩, hother, rfl⟩ := List.mem_map.1 (List.mem_of_find?_eq_some hfound)
  have hplace := List.find?_some hfound
  exact ⟨other, site, hfound, hother, of_decide_eq_true hplace⟩

/-- A module that loads is consistent, and its program is made of its name, its code and the
sites of its calls. -/
theorem load_eq_ok {m : Module} {program : Program} {loaded : Container} :
    c.load m = .ok (program, loaded) ↔
      m.Consistent ∧ loaded = (c.addCalls m.dynamicCalls).2 ∧
        program = ⟨m.pool.text m.name, m, (c.addCalls m.dynamicCalls).1⟩ := by
  simp only [load, Except.bind_eq_ok, Except.exists_unit, Module.validate_eq_ok_iff,
    orFormat_eq_ok, Except.pure_eq_ok, Module.title]
  constructor
  · rintro ⟨hconsistent, name, hname, h⟩
    rw [Pool.text_of_string hname]
    cases h
    exact ⟨hconsistent, rfl, rfl⟩
  · rintro ⟨hconsistent, rfl, rfl⟩
    exact ⟨hconsistent, _, Pool.isString_iff.1 hconsistent.name, rfl⟩

/-- A consistent module can be loaded. -/
theorem load_of_consistent {m : Module} (h : m.Consistent) (c : Container) :
    ∃ program loaded, c.load m = .ok (program, loaded) :=
  ⟨_, _, load_eq_ok.2 ⟨h, rfl, rfl⟩⟩

end Container

namespace Program

/-- Every dynamic call of a program has a call site that serves the strings of its operands. -/
def Served (program : Program) (registry : String) (c : Container) : Prop :=
  ∀ call, program.code.HasCall call →
    ∃ site, program.siteAt? call.method call.pc = some site ∧
      c.Serves registry site call.symbol call.slot

theorem Served.congr {program : Program} {registry : String} {c c' : Container}
    (h : program.Served registry c) (hsites : c'.sites = c.sites)
    (hregistries : c'.registries = c.registries) : program.Served registry c' := by
  intro call hcall
  obtain ⟨site, hsite, hserves⟩ := h call hcall
  exact ⟨site, hsite, hserves.congr hsites hregistries⟩

/-- In a program that was just loaded, every dynamic call has a call site of its strings, which is
not bound. -/
theorem site?_of_load {c loaded : Container} {m : Module} {program : Program}
    (h : c.load m = .ok (program, loaded)) {call : DynamicCall}
    (hcall : program.code.HasCall call) :
    ∃ site, program.siteAt? call.method call.pc = some site ∧
      loaded.sites[site]? = some call.fresh := by
  obtain ⟨-, rfl, rfl⟩ := Container.load_eq_ok.1 h
  obtain ⟨other, site, hfound, hother, hmethod, hpc⟩ :=
    c.find?_addCalls (Module.mem_dynamicCalls.2 hcall)
  -- whichever site is found, its call is the one at this place
  have hsame : other = call :=
    hcall.unique (Module.mem_dynamicCalls.1 (List.fst_mem_of_mem_zipIdx hother)) hmethod hpc
  subst hsame
  exact ⟨site, by rw [siteAt?, hfound]; rfl, Container.site?_addCalls hother⟩

/-- In a program that was just loaded, every dynamic call is served. -/
theorem served_of_load {c loaded : Container} {m : Module} {program : Program}
    (h : c.load m = .ok (program, loaded)) (registry : String) :
    program.Served registry loaded := by
  intro call hcall
  obtain ⟨site, hsite, hfresh⟩ := site?_of_load h hcall
  refine ⟨site, hsite, ?_, ?_, ?_⟩ <;> rw [Container.site_of_getElem? hfresh]
  · rfl
  · rfl
  · intro target htarget
    cases htarget

end Program

end LateBinding
