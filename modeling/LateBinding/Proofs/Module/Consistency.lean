import LateBinding.Module.Validation
import LateBinding.Proofs.Outcome

set_option autoImplicit false

/-! # What validation accepts

`Module.Consistent` states, without mentioning any check, that all cross references of a
module are good: names and markers are strings of the pool, and each instruction is allowed
where it stands. `validate_eq_ok_iff` proves that validation accepts exactly these modules. What it
reports of the others is always a cross reference that leads nowhere (`isDangling_of_validate`).
-/

namespace LateBinding

/-! ## Strings of the pool -/

namespace Pool

/-- The constant at `index` is a string. -/
def IsString (pool : Pool) (index : UInt16) : Prop := ∃ text, pool.string index = .ok text

/-- The string `text` stands at some index of 16 bits. -/
def Holds (pool : Pool) (text : String) : Prop := ∃ index, pool.string index = .ok text

theorem string_eq_ok {pool : Pool} {index : UInt16} {text : String} :
    pool.string index = .ok text ↔ pool.get? index = some (.str text) := by
  unfold string
  split
  · next found hfound => simp [hfound]
  · next number hfound => simp [hfound]
  · next hfound => simp [hfound]

/-- The string at `index`, and the empty string where no string is. -/
def text (pool : Pool) (index : UInt16) : String :=
  match pool.string index with
  | .ok text => text
  | .error _ => ""

theorem text_of_string {pool : Pool} {index : UInt16} {text : String}
    (h : pool.string index = .ok text) : pool.text index = text := by
  rw [Pool.text, h]

theorem isString_iff {pool : Pool} {index : UInt16} :
    pool.IsString index ↔ pool.string index = .ok (pool.text index) :=
  ⟨fun ⟨_, h⟩ => by rw [text_of_string h]; exact h, fun h => ⟨_, h⟩⟩

end Pool

/-! ## Consistency -/

namespace Module

/-- Markers are made of strings. -/
def NamesMarkers (m : Module) (markers : List Marker) : Prop :=
  ∀ marker ∈ markers, m.pool.IsString marker.kind ∧ m.pool.IsString marker.value

/-- What the operands of an instruction of `method` name is there. -/
def Allows (m : Module) (method : Method) : Instruction → Prop
  | .pushConst index => index.toNat < m.pool.size
  | .loadLocal slot | .storeLocal slot => slot.toNat < method.frameSize
  | .getField index | .putField index => index.toNat < m.fields.size
  | .invokeDynamic symbol slot => m.pool.IsString symbol ∧ m.pool.IsString slot
  | .jump target | .jumpIfNull target => target.toNat < method.code.size
  | .nop | .pushNull | .pushInt _ | .add | .concat | .pop | .dup | .ret => True

/-- What an instruction may name depends on the pool and on three sizes only. -/
theorem Allows.congr {m m' : Module} {method method' : Method} {insn : Instruction}
    (h : m.Allows method insn) (hpool : m'.pool = m.pool)
    (hfields : m'.fields.size = m.fields.size) (hframe : method'.frameSize = method.frameSize)
    (hcode : method'.code.size = method.code.size) : m'.Allows method' insn := by
  cases insn with
  | nop | pushNull | pushInt _ | add | concat | pop | dup | ret => trivial
  | pushConst index => rwa [Allows, hpool]
  | loadLocal slot | storeLocal slot => rwa [Allows, hframe]
  | getField index | putField index => rwa [Allows, hfields]
  | invokeDynamic symbol slot => rwa [Allows, hpool]
  | jump target | jumpIfNull target => rwa [Allows, hcode]

/-- All cross references of a module are good. -/
structure Consistent (m : Module) : Prop where
  name : m.pool.IsString m.name
  field : ∀ field ∈ m.fields, m.pool.IsString field.name ∧ m.NamesMarkers field.markers
  method : ∀ method ∈ m.methods, m.pool.IsString method.name ∧
    m.NamesMarkers method.markers ∧ ∀ insn ∈ method.code, m.Allows method insn

/-! ## Validation -/

theorem resolve_eq_ok {m : Module} {marker : Marker} {kind value : String} :
    m.resolve marker = .ok (kind, value) ↔
      m.pool.string marker.kind = .ok kind ∧ m.pool.string marker.value = .ok value := by
  simp only [resolve, Except.bind_eq_ok, Except.pure_eq_ok]
  constructor
  · rintro ⟨_, hkind, _, hvalue, h⟩
    cases h
    exact ⟨hkind, hvalue⟩
  · rintro ⟨hkind, hvalue⟩
    exact ⟨kind, hkind, value, hvalue, rfl⟩

theorem checkInstruction_eq_ok {m : Module} {method : Method} {insn : Instruction} :
    m.checkInstruction method insn = .ok () ↔ m.Allows method insn := by
  cases insn with
  | nop | pushNull | pushInt _ | add | concat | pop | dup | ret => simp [checkInstruction, Allows]
  | pushConst index => simp [checkInstruction, Allows, Pool.get?, Pool.size]
  | loadLocal slot | storeLocal slot => simp [checkInstruction, Allows]
  | getField index | putField index => simp [checkInstruction, Allows]
  | invokeDynamic symbol slot =>
      simp only [checkInstruction, Allows, Pool.IsString, Except.bind_eq_ok,
        Except.mapError_eq_ok, Except.pure_eq_ok, and_true, exists_and_right]
  | jump target | jumpIfNull target => simp [checkInstruction, Allows]

theorem checkMarkers_eq_ok {m : Module} {markers : List Marker} :
    m.checkMarkers markers = .ok () ↔ m.NamesMarkers markers := by
  simp only [checkMarkers, Except.forM_eq_ok, Except.bind_eq_ok, Except.pure_eq_ok,
    orFormat_eq_ok, NamesMarkers, and_true]
  refine forall₂_congr fun marker _ => ?_
  constructor
  · rintro ⟨⟨kind, value⟩, h⟩
    exact ⟨⟨kind, (resolve_eq_ok.1 h).1⟩, ⟨value, (resolve_eq_ok.1 h).2⟩⟩
  · rintro ⟨⟨kind, hkind⟩, ⟨value, hvalue⟩⟩
    exact ⟨(kind, value), resolve_eq_ok.2 ⟨hkind, hvalue⟩⟩

theorem checkCode_eq_ok {m : Module} {name : String} {method : Method} :
    m.checkCode name method = .ok () ↔ ∀ insn ∈ method.code, m.Allows method insn := by
  simp only [checkCode, Except.forM_eq_ok, Except.mapError_eq_ok, checkInstruction_eq_ok]
  rw [← List.forall_mem_map (P := m.Allows method), List.zipIdx_map_fst]
  simp

theorem validate_eq_ok_iff {m : Module} : m.validate = .ok () ↔ m.Consistent := by
  have hfield (field : Field) : m.checkField field = .ok () ↔
      m.pool.IsString field.name ∧ m.NamesMarkers field.markers := by
    simp only [checkField, Except.bind_eq_ok, orFormat_eq_ok, checkMarkers_eq_ok,
      exists_and_right, Pool.IsString]
  have hmethod (method : Method) : m.checkMethod method = .ok () ↔
      m.pool.IsString method.name ∧ m.NamesMarkers method.markers ∧
        ∀ insn ∈ method.code, m.Allows method insn := by
    simp only [checkMethod, Except.bind_eq_ok, Except.exists_unit, orFormat_eq_ok,
      checkMarkers_eq_ok, checkCode_eq_ok, exists_and_right, Pool.IsString]
  simp only [validate, Except.bind_eq_ok, Except.exists_unit, orFormat_eq_ok,
    Except.forM_eq_ok, hfield, hmethod, exists_and_right, Array.mem_toList_iff]
  exact ⟨fun ⟨hname, hfields, hmethods⟩ => ⟨hname, hfields, hmethods⟩,
    fun h => ⟨h.name, h.field, h.method⟩⟩

end Module

/-! ## What validation reports -/

/-- The cause is a cross reference that leads nowhere, from the head of a module or from code. -/
inductive FormatError.IsDangling : FormatError → Prop
  | pool (fault : PoolFault) : IsDangling (.pool fault)
  | inCode (method : String) (pc : Nat) (insn : Instruction) (fault : CodeFault) :
      IsDangling (.inCode method pc insn fault)

theorem isDangling_of_orFormat {α : Type} {x : Except PoolFault α} {cause : FormatError}
    (h : orFormat x = .error cause) : cause.IsDangling := by
  obtain ⟨fault, -, rfl⟩ := Except.mapError_eq_error.1 h
  exact .pool fault

namespace Module

variable {m : Module} {cause : FormatError}

theorem isDangling_of_checkMarkers {markers : List Marker}
    (h : m.checkMarkers markers = .error cause) : cause.IsDangling := by
  obtain ⟨_, marker, _, _, _, hmarker⟩ := Except.forM_eq_error.1 h
  rcases Except.bind_eq_error.1 hmarker with hresolve | ⟨_, _, hdone⟩
  · exact isDangling_of_orFormat hresolve
  · cases hdone

theorem isDangling_of_checkField {field : Field} (h : m.checkField field = .error cause) :
    cause.IsDangling := by
  rcases Except.bind_eq_error.1 h with hname | ⟨_, _, hmarkers⟩
  · exact isDangling_of_orFormat hname
  · exact isDangling_of_checkMarkers hmarkers

theorem isDangling_of_checkMethod {method : Method} (h : m.checkMethod method = .error cause) :
    cause.IsDangling := by
  rcases Except.bind_eq_error.1 h with hname | ⟨name, _, h⟩
  · exact isDangling_of_orFormat hname
  rcases Except.bind_eq_error.1 h with hmarkers | ⟨_, _, hcode⟩
  · exact isDangling_of_checkMarkers hmarkers
  · obtain ⟨_, ⟨insn, pc⟩, _, _, _, hinsn⟩ := Except.forM_eq_error.1 hcode
    obtain ⟨fault, -, rfl⟩ := Except.mapError_eq_error.1 hinsn
    exact .inCode name pc insn fault

theorem isDangling_of_validate (h : m.validate = .error cause) : cause.IsDangling := by
  rcases Except.bind_eq_error.1 h with hname | ⟨_, _, h⟩
  · exact isDangling_of_orFormat hname
  rcases Except.bind_eq_error.1 h with hfields | ⟨_, _, hmethods⟩
  · obtain ⟨_, field, _, _, _, hfield⟩ := Except.forM_eq_error.1 hfields
    exact isDangling_of_checkField hfield
  · obtain ⟨_, method, _, _, _, hmethod⟩ := Except.forM_eq_error.1 hmethods
    exact isDangling_of_checkMethod hmethod

end Module

end LateBinding
