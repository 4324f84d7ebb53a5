import LateBinding.Proofs.Codec.RoundTrip
import LateBinding.Proofs.Module.Interning

set_option autoImplicit false

/-! # Modules that stay accepted

What validation asks of a module does not break when constants are appended to the pool, since an
index keeps its constant (`Consistent.extend`), nor when instructions are replaced in their places
by others that are allowed there (`Consistent.patches`). Neither touches what the names and the
markers resolve to, which `Module.SameLabels` compares: of the module, of its fields and of its
methods, all of them in order. `Module.validate_stable` says this of validation, next to what
validation accepts.
-/

namespace LateBinding

/-! ## Appended constants -/

namespace Pool

variable {pool : Pool} {index : UInt16}

/-- A string stays a string, and the same one. -/
theorem IsString.extend (h : pool.IsString index) (more : Array Constant) :
    (pool.extend more).IsString index ∧ (pool.extend more).string index = pool.string index := by
  obtain ⟨text, htext⟩ := h
  have hmore := string_extend htext more
  exact ⟨⟨text, hmore⟩, hmore.trans htext.symm⟩

end Pool

namespace Module

/-- The module with constants appended to its pool. -/
def extend (m : Module) (more : Array Constant) : Module := { m with pool := m.pool.extend more }

/-! ## Replaced instructions -/

/-- The second method is the first with instructions replaced in their places, each by one that the
module allows there. -/
structure PatchesMethod (m : Module) (old new : Method) : Prop where
  same : new = { old with code := new.code }
  size : new.code.size = old.code.size
  allowed : ∀ (pc : Nat) (insn : Instruction), new.code[pc]? = some insn →
    old.code[pc]? = some insn ∨ m.Allows old insn

/-- The second module is the first with instructions replaced in their places, each by one that is
allowed there. -/
structure Patches (m after : Module) : Prop where
  same : after = { m with methods := after.methods }
  size : after.methods.size = m.methods.size
  method : ∀ (i : Nat) (old new : Method), m.methods[i]? = some old →
    after.methods[i]? = some new → m.PatchesMethod old new

/-! ## What names and markers resolve to -/

/-- What the name and the markers of a field or of a method resolve to. -/
structure Label where
  name : Except PoolFault String
  markers : List (Except PoolFault (String × String))

def label (m : Module) (name : UInt16) (markers : List Marker) : Label :=
  ⟨m.pool.string name, markers.map m.resolve⟩

/-- All names and markers of two modules resolve to the same. -/
structure SameLabels (m after : Module) : Prop where
  title : after.title = m.title
  fields : after.fields.map (fun field => after.label field.name field.markers) =
    m.fields.map fun field => m.label field.name field.markers
  methods : after.methods.map (fun method => after.label method.name method.markers) =
    m.methods.map fun method => m.label method.name method.markers

variable {m after : Module} {method : Method} {insn : Instruction}

/-! ## Appending constants -/

theorem Allows.extend (h : m.Allows method insn) (more : Array Constant) :
    (m.extend more).Allows method insn := by
  cases insn with
  | nop | pushNull | pushInt _ | add | concat | pop | dup | ret => trivial
  | pushConst index =>
      have hsize : (m.extend more).pool.size = m.pool.size + more.size := Pool.size_extend ..
      have hindex : index.toNat < m.pool.size := h
      show index.toNat < (m.extend more).pool.size
      omega
  | invokeDynamic symbol slot => exact ⟨(h.1.extend more).1, (h.2.extend more).1⟩
  | loadLocal _ | storeLocal _ | getField _ | putField _ | jump _ | jumpIfNull _ => exact h

theorem NamesMarkers.extend {markers : List Marker} (h : m.NamesMarkers markers)
    (more : Array Constant) : (m.extend more).NamesMarkers markers := by
  intro marker hmarker
  obtain ⟨hkind, hvalue⟩ := h marker hmarker
  exact ⟨(hkind.extend more).1, (hvalue.extend more).1⟩

theorem NamesMarkers.label_extend {name : UInt16} {markers : List Marker}
    (h : m.NamesMarkers markers) (hname : m.pool.IsString name) (more : Array Constant) :
    (m.extend more).label name markers = m.label name markers := by
  have hmarkers : markers.map (m.extend more).resolve = markers.map m.resolve := by
    refine List.map_congr_left fun marker hmarker => ?_
    obtain ⟨⟨kind, hkind⟩, ⟨value, hvalue⟩⟩ := h marker hmarker
    rw [resolve_eq_ok.2 ⟨hkind, hvalue⟩]
    exact resolve_eq_ok.2 ⟨Pool.string_extend hkind more, Pool.string_extend hvalue more⟩
  rw [label, hmarkers]
  exact congrArg (Label.mk · _) (hname.extend more).2

/-- A consistent module stays so when constants are appended to its pool. -/
theorem Consistent.extend (h : m.Consistent) (more : Array Constant) :
    (m.extend more).Consistent := by
  refine ⟨(h.name.extend more).1, ?_, ?_⟩
  · intro field hfield
    obtain ⟨hname, hmarkers⟩ := h.field field hfield
    exact ⟨(hname.extend more).1, hmarkers.extend more⟩
  · intro method hmethod
    obtain ⟨hname, hmarkers, hcode⟩ := h.method method hmethod
    exact ⟨(hname.extend more).1, hmarkers.extend more, fun insn hinsn =>
      (hcode insn hinsn).extend more⟩

theorem Consistent.sameLabels_extend (h : m.Consistent) (more : Array Constant) :
    m.SameLabels (m.extend more) := by
  refine ⟨(h.name.extend more).2, ?_, ?_⟩
  · refine Array.map_congr_left fun field hfield => ?_
    obtain ⟨hname, hmarkers⟩ := h.field field hfield
    exact hmarkers.label_extend hname more
  · refine Array.map_congr_left fun method hmethod => ?_
    obtain ⟨hname, hmarkers, -⟩ := h.method method hmethod
    exact hmarkers.label_extend hname more

/-! ## Replacing instructions -/

/-- A method of a patched module is one of the module from before, patched. -/
theorem Patches.exists_old (h : m.Patches after) {new : Method} {i : Nat}
    (hnew : after.methods[i]? = some new) :
    ∃ old, m.methods[i]? = some old ∧ m.PatchesMethod old new := by
  obtain ⟨hlt, -⟩ := Array.getElem?_eq_some_iff.1 hnew
  rw [h.size] at hlt
  have hold : m.methods[i]? = some m.methods[i] := Array.getElem?_eq_getElem hlt
  exact ⟨_, hold, h.method i _ new hold hnew⟩

/-- A consistent module stays so when instructions are replaced by others that are allowed. -/
theorem Consistent.patches (h : m.Consistent) (hpatches : m.Patches after) :
    after.Consistent := by
  have hpool : after.pool = m.pool := by rw [hpatches.same]
  have hfields : after.fields = m.fields := by rw [hpatches.same]
  have hmarkers (markers : List Marker) : after.NamesMarkers markers ↔ m.NamesMarkers markers := by
    rw [NamesMarkers, NamesMarkers, hpool]
  refine ⟨?_, ?_, ?_⟩
  · rw [hpatches.same]
    exact h.name
  · intro field hfield
    rw [hfields] at hfield
    rw [hpool, hmarkers]
    exact h.field field hfield
  · intro new hnew
    obtain ⟨i, hi⟩ := Array.getElem?_of_mem hnew
    obtain ⟨old, hold, hpatch⟩ := hpatches.exists_old hi
    obtain ⟨hname, hnames, hcode⟩ := h.method old (Array.mem_of_getElem? hold)
    refine ⟨?_, ?_, ?_⟩
    · rw [hpool, hpatch.same]
      exact hname
    · rw [hmarkers, hpatch.same]
      exact hnames
    · intro insn hinsn
      obtain ⟨pc, hpc⟩ := Array.getElem?_of_mem hinsn
      have hallows : m.Allows old insn := by
        rcases hpatch.allowed pc insn hpc with hkept | hallowed
        · exact hcode insn (Array.mem_of_getElem? hkept)
        · exact hallowed
      have hframe : new.frameSize = old.frameSize := by rw [hpatch.same]; rfl
      exact hallows.congr hpool (by rw [hfields]) hframe hpatch.size

theorem Patches.sameLabels (h : m.Patches after) : m.SameLabels after := by
  have hlabel (name : UInt16) (markers : List Marker) :
      after.label name markers = m.label name markers := by
    rw [h.same]
    rfl
  refine ⟨?_, ?_, ?_⟩
  · rw [h.same]
    rfl
  · simp only [hlabel]
    rw [h.same]
  · simp only [hlabel]
    refine Array.ext (by simp only [Array.size_map, h.size]) fun i hi hi' => ?_
    rw [Array.size_map] at hi hi'
    have hpatch := h.method i _ _ (Array.getElem?_eq_getElem hi') (Array.getElem?_eq_getElem hi)
    rw [Array.getElem_map, Array.getElem_map, hpatch.same]

/-! ## Validation -/

/-- **Validation accepts exactly the consistent modules, and they stay accepted.** Whatever
constants are appended to the pool of an accepted module, and whichever of its instructions are
replaced in their places by others that are allowed there, the module is accepted again, and all its
names and markers resolve to the same strings. -/
theorem validate_stable (m : Module) :
    (m.validate = .ok () ↔ m.Consistent) ∧
    (m.validate = .ok () →
      (∀ more, (m.extend more).validate = .ok () ∧ m.SameLabels (m.extend more)) ∧
      ∀ after, m.Patches after → after.validate = .ok () ∧ m.SameLabels after) := by
  refine ⟨validate_eq_ok_iff, ?_⟩
  intro hvalid
  have h := validate_eq_ok_iff.1 hvalid
  constructor
  · intro more
    exact ⟨validate_eq_ok_iff.2 (h.extend more), h.sameLabels_extend more⟩
  · intro after hpatches
    exact ⟨validate_eq_ok_iff.2 (h.patches hpatches), hpatches.sameLabels⟩

/-- The module `Codec.sample` with other instructions: it reads its last local slot, makes a dynamic
call where it pushed a number, and jumps on a condition. -/
def patchedSample : Module :=
  { Codec.sample with
    methods := #[⟨3, 1, 2, [], #[.loadLocal 3, .getField 0, .invokeDynamic 0 1, .jumpIfNull 4,
      .ret]⟩] }

theorem validate_stable_sample :
    Codec.sample.validate = .ok () ∧ Codec.sample.Patches patchedSample ∧
      patchedSample.validate = .ok () ∧ Codec.sample.SameLabels patchedSample ∧
      (Codec.sample.extend #[.int 7, .str "A"]).validate = .ok () ∧
      (Codec.sample.extend #[.int 7, .str "A"]).pool.size = 6 := by
  have hvalid : Codec.sample.validate = .ok () := rfl
  have hmethod (old new : Method) (hold : Codec.sample.methods[0]? = some old)
      (hnew : patchedSample.methods[0]? = some new) : Codec.sample.PatchesMethod old new := by
    cases hold
    cases hnew
    refine ⟨rfl, rfl, ?_⟩
    rintro (_ | _ | _ | _ | _ | pc) insn hinsn <;> cases hinsn
    · exact .inr (by decide : 3 < 4)
    · exact .inl rfl
    · exact .inr ⟨⟨"A", rfl⟩, ⟨"é", rfl⟩⟩
    · exact .inr (by decide : 4 < 5)
    · exact .inl rfl
  have hpatches : Codec.sample.Patches patchedSample := by
    refine ⟨rfl, rfl, ?_⟩
    rintro (_ | i) old new hold hnew
    · exact hmethod old new hold hnew
    · cases hold
  obtain ⟨-, hstable⟩ := validate_stable Codec.sample
  obtain ⟨hextend, hpatch⟩ := hstable hvalid
  obtain ⟨hpatched, hlabels⟩ := hpatch patchedSample hpatches
  exact ⟨hvalid, hpatches, hpatched, hlabels, (hextend _).1, rfl⟩

end Module

end LateBinding
