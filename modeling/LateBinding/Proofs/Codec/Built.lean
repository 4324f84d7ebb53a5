import LateBinding.Proofs.Codec.Limits
import LateBinding.Proofs.Module.Building
import Mathlib.Data.List.Nodup

set_option autoImplicit false

/-! # Writing what was built

A builder answers with the index of a constant or of a field, so it takes one for each index of 16
bits. The format counts constants and fields with 16 bits, which is one less; it also counts methods
and the markers of a field, of which a builder takes any number. A module that was built is written
and read back exactly when it keeps to the limits of the format (`Builder.encode_of_build`), and
there are some that do not: with as many constants or fields as there are indices, all of them
accepted (`Builder.encode_of_build_crowded`).
-/

namespace LateBinding

/-! ## Limits -/

/-- A consistent module is written and read back when it keeps to the limits. -/
theorem Codec.exists_decode_encode_iff {m : Module} (h : m.validate = .ok ()) :
    (∃ bytes, encode m = .ok bytes ∧ decode bytes = .ok m) ↔ m.Fits := by
  rw [← Module.checkLimits_eq_ok_iff]
  constructor
  · rintro ⟨bytes, hencode, -⟩
    exact (encode_eq_ok_iff.1 hencode).1
  · intro hlimits
    have hencode : encode m = .ok m.bytes := encode_eq_ok_iff.2 ⟨hlimits, rfl⟩
    exact ⟨m.bytes, hencode, decode_eq_ok_iff.2 ⟨hencode, h⟩⟩

theorem Module.checkTable_eq_error {table : Table} {count limit : Nat} (h : limit ≤ count) :
    checkTable table count limit = .error (.tooMany table count) :=
  if_neg (Nat.not_lt.2 h)

theorem Codec.encode_of_manyConstants {m : Module} (h : UInt16.size ≤ m.pool.size) :
    encode m = .error (.tooMany .constants m.pool.size) := by
  have hlimit : m.checkLimits = .error (.tooMany .constants m.pool.size) := by
    rw [Module.checkLimits, Module.checkTable_eq_error h]
    rfl
  rw [encode, hlimit]
  rfl

/-- The constants are counted and written before the fields are counted. -/
theorem Codec.encode_of_manyFields {m : Module} (hconstants : m.pool.size < UInt16.size)
    (hstrings : ∀ constant ∈ m.pool.entries.toList, Module.checkConstant constant = .ok ())
    (h : UInt16.size ≤ m.fields.size) : encode m = .error (.tooMany .fields m.fields.size) := by
  have hlimit : m.checkLimits = .error (.tooMany .fields m.fields.size) := by
    rw [Module.checkLimits, Codec.checkTable_eq_ok.2 hconstants, Except.forM_eq_ok.2 hstrings,
      Module.checkTable_eq_error h]
    rfl
  rw [encode, hlimit]
  rfl

namespace Builder

variable {b : Builder} {name : String} {record : List Declared} {steps : List Declaration}
  {m : Module}

/-- **What was built is written if it keeps to the limits of the format.** Take any steps from an
empty builder, whichever of them are refused, and a module that is handed out then. It has at most
65536 constants and fields, one more than the format can count; it has a method for each that was
declared, with no markers. It is encoded, and decoded again from its bytes, if and only if it keeps
to all limits of the format. -/
theorem encode_of_build (hsteps : declareAll steps { name } = (record, b))
    (hbuild : b.build = .ok m) :
    m.pool.size ≤ UInt16.size ∧ m.fields.size ≤ UInt16.size ∧
    m.methods.size = (Declared.methods record).length ∧
    (∀ method ∈ m.methods, method.markers = []) ∧
    ((∃ bytes, Codec.encode m = .ok bytes ∧ Codec.decode bytes = .ok m) ↔ m.Fits) := by
  have haccounts := (accounts_nil name).declareAll steps
  rw [hsteps, List.nil_append] at haccounts
  obtain ⟨index, pool, hintern, rfl, hvalid⟩ := build_eq_ok.1 hbuild
  obtain ⟨hgrows, -⟩ := Pool.growsTo_of_intern hintern
  have hgrown := haccounts.grow hgrows
  obtain ⟨hmarkers, -⟩ := (List.forall₂_and_left _ _).1
    (hgrown.methods.imp fun _ _ hmethod => ⟨hmethod.markers, hmethod⟩)
  exact ⟨hgrown.poolFits, hgrown.fieldsFit, hgrown.methods.length_eq,
    fun method hmethod => hmarkers method (Array.mem_toList_iff.2 hmethod),
    Codec.exists_decode_encode_iff hvalid⟩

theorem encode_of_build_greeter :
    ∃ record b, declareAll greeter { name := "Greeter" } = (record, b) ∧
      b.build = .ok greeterModule ∧
      ∃ bytes, Codec.encode greeterModule = .ok bytes ∧
        Codec.decode bytes = .ok greeterModule := by
  have hsteps : declareAll greeter { name := "Greeter" } = (_, _) := rfl
  have hbuild : (declareAll greeter { name := "Greeter" }).2.build = .ok greeterModule := by
    decide +kernel
  obtain ⟨-, -, -, -, hfits⟩ := encode_of_build hsteps hbuild
  refine ⟨_, _, hsteps, hbuild, hfits.2 ?_⟩
  have hlimits : greeterModule.checkLimits = .ok () := by decide +kernel
  exact Module.checkLimits_eq_ok_iff.1 hlimits

/-! ## Modules that cannot be written -/

theorem declareAll_cons (step : Declaration) (steps : List Declaration) (b : Builder) :
    (declareAll (step :: steps) b).2 = (declareAll steps (step.perform b).2).2 := rfl

/-- Where there is room, strings that are not in the pool are appended to it. -/
theorem declareAll_constants {texts : List String}
    (hnew : ∀ text ∈ texts, .str text ∉ b.pool.entries) (hdistinct : texts.Nodup)
    (hroom : b.pool.size + texts.length ≤ Pool.capacity) :
    (declareAll (texts.map .constant) b).2 = { b with pool := b.pool.append texts } := by
  induction texts generalizing b with
  | nil => rw [Pool.append_nil]; rfl
  | cons text texts ih =>
      obtain ⟨hfresh, hdistinct⟩ := List.nodup_cons.1 hdistinct
      rw [List.length_cons] at hroom
      let first : Builder := { b with pool := b.pool.append [text] }
      have hfirst : ((Declaration.constant text).perform b).2 = first := by
        have hnone := Pool.find?_eq_none (hnew text List.mem_cons_self)
        rw [Declaration.perform, intern, Pool.intern_of_notFound (by omega) hnone]
      have hrest : ∀ other ∈ texts, .str other ∉ first.pool.entries := by
        intro other hother hmem
        rcases Array.mem_append.1 hmem with hold | hlast
        · exact hnew other (List.mem_cons_of_mem text hother) hold
        · cases List.mem_singleton.1 (Array.mem_toList_iff.2 hlast)
          exact hfresh hother
      have hroom' : first.pool.size + texts.length ≤ Pool.capacity := by
        have hsize : first.pool.size = b.pool.size + 1 := Array.size_push _
        omega
      rw [List.map_cons, declareAll_cons, hfirst, ih hrest hdistinct hroom', Pool.append_append]
      rfl

theorem perform_field {text : String} {index : UInt16} {pool : Pool}
    (hintern : b.pool.intern text = .ok (index, pool)) (hroom : b.fields.size < UInt16.size) :
    ((Declaration.field ⟨text, []⟩).perform b).2 =
      { b with pool, fields := b.fields.push ⟨index, []⟩ } := by
  have hname : intern text b = (.ok index, { b with pool }) := by
    rw [intern, hintern]
  have hfield : Builder.field text [] b =
      pushField { name := index, markers := [] } { b with pool } := by
    show andThen (intern text) _ b = _
    rw [andThen, hname]
    rfl
  rw [Declaration.perform, hfield, pushField, if_pos hroom]

/-- Where there is room, fields are appended, as often as they are declared. -/
theorem declareAll_fields {text : String} {index : UInt16} (hfind : b.pool.find? text = some index)
    {count : Nat} (hroom : b.fields.size + count ≤ UInt16.size) :
    (declareAll (List.replicate count (.field ⟨text, []⟩)) b).2 =
      { b with fields := b.fields ++ Array.replicate count ⟨index, []⟩ } := by
  induction count generalizing b with
  | zero => rw [Array.replicate_zero, Array.append_empty]; rfl
  | succ count ih =>
      let first : Builder := { b with fields := b.fields.push ⟨index, []⟩ }
      have hfirst : ((Declaration.field ⟨text, []⟩).perform b).2 = first :=
        perform_field (Pool.intern_of_find? hfind) (by omega)
      have hroom' : first.fields.size + count ≤ UInt16.size := by
        rw [Array.size_push]
        omega
      have hfields : first.fields ++ Array.replicate count ⟨index, []⟩ =
          b.fields ++ Array.replicate (count + 1) ⟨index, []⟩ := by
        rw [Array.replicate_succ', ← Array.append_assoc, ← Array.push_eq_append]
      rw [List.replicate_succ, declareAll_cons, hfirst, ih (b := first) hfind hroom', hfields]

/-- Fields that have the name of the module, from the start: the first one puts it into the pool. -/
theorem declareAll_fields_anew (name : String) {count : Nat} (hsome : 0 < count)
    (hroom : count ≤ UInt16.size) :
    (declareAll (List.replicate count (.field ⟨name, []⟩)) { name }).2 =
      { name, pool := Pool.append {} [name], fields := Array.replicate count ⟨0, []⟩ } := by
  obtain ⟨rest, rfl⟩ : ∃ rest, count = rest + 1 := Nat.exists_eq_add_one.2 hsome
  have hintern : Pool.intern {} name = .ok (0, Pool.append {} [name]) :=
    Pool.intern_of_notFound (by decide) (Pool.find?_eq_none (Array.not_mem_empty _))
  let first : Builder := { name, pool := Pool.append {} [name], fields := #[⟨0, []⟩] }
  have hfirst : ((Declaration.field ⟨name, []⟩).perform { name }).2 = first :=
    perform_field hintern (Nat.zero_lt_succ _)
  have hroom' : first.fields.size + rest ≤ UInt16.size := by
    show 1 + rest ≤ UInt16.size
    omega
  have hfind := Pool.find?_singleton name
  rw [List.replicate_succ, declareAll_cons, hfirst, declareAll_fields hfind hroom',
    Array.replicate_succ']

/-- Where each index has a constant of its own, the module is handed out, as long as its name is one
of them, but the format does not count them. -/
theorem encode_of_build_constants {texts : List String} (hdistinct : texts.Nodup)
    (hlength : texts.length = Pool.capacity) (hname : name ∈ texts) :
    ∃ m, (declareAll (texts.map .constant) { name }).2.build = .ok m ∧
      Codec.encode m = .error (.tooMany .constants Pool.capacity) := by
  have hsteps : (declareAll (texts.map .constant) { name }).2 =
      { name, pool := Pool.append {} texts } :=
    declareAll_constants (fun _ _ => Array.not_mem_empty _) hdistinct
      (Nat.le_of_eq ((Nat.zero_add _).trans hlength))
  have hsize : (Pool.append {} texts).size = Pool.capacity := by
    rw [Pool.size, Pool.append, Array.size_append, Array.size_empty, Nat.zero_add,
      List.size_toArray, List.length_map, hlength]
  have hstands : .str name ∈ (Pool.append {} texts).entries :=
    Array.mem_append_right _ (List.mem_toArray.2 (List.mem_map_of_mem hname))
  obtain ⟨index, hindex⟩ : ∃ index, (Pool.append {} texts).find? name = some index :=
    Option.ne_none_iff_exists'.1 fun hnone =>
      Pool.notMem_of_find?_eq_none (Nat.le_of_eq hsize) hnone hstands
  let m : Module := ⟨index, Pool.append {} texts, #[], #[]⟩
  have hvalid : m.validate = .ok () :=
    Module.validate_eq_ok_iff.2 ⟨⟨name, Pool.string_of_find? hindex⟩,
      fun field hfield => absurd hfield (Array.not_mem_empty field),
      fun method hmethod => absurd hmethod (Array.not_mem_empty method)⟩
  refine ⟨m, ?_, ?_⟩
  · rw [hsteps]
    exact build_eq_ok.2 ⟨index, _, Pool.intern_of_find? hindex, rfl, hvalid⟩
  · rw [← hsize]
    exact Codec.encode_of_manyConstants (Nat.le_of_eq hsize.symm)

/-- Where each index has a field of its own, the module is handed out, but the format does not count
them. -/
theorem encode_of_build_fields (hlength : (Text.utf8 name).length < UInt32.size) {count : Nat}
    (hcount : count = UInt16.size) :
    ∃ m, (declareAll (List.replicate count (.field ⟨name, []⟩)) { name }).2.build = .ok m ∧
      Codec.encode m = .error (.tooMany .fields count) := by
  have hsteps := declareAll_fields_anew name (hcount ▸ Nat.zero_lt_succ _) (Nat.le_of_eq hcount)
  have hfind := Pool.find?_singleton name
  have hstring : (Pool.append {} [name]).string 0 = .ok name := Pool.string_of_find? hfind
  let m : Module := ⟨0, Pool.append {} [name], Array.replicate count ⟨0, []⟩, #[]⟩
  have hvalid : m.validate = .ok () := by
    refine Module.validate_eq_ok_iff.2 ⟨⟨name, hstring⟩, ?_, ?_⟩
    · intro field hfield
      rw [(Array.mem_replicate.1 hfield).2]
      exact ⟨⟨name, hstring⟩, List.forall_mem_nil _⟩
    · intro method hmethod
      exact absurd hmethod (Array.not_mem_empty method)
  have hsize : m.fields.size = count := Array.size_replicate
  refine ⟨m, ?_, ?_⟩
  · rw [hsteps]
    exact build_eq_ok.2 ⟨0, _, Pool.intern_of_find? hfind, rfl, hvalid⟩
  · rw [← hsize]
    have hone : m.pool.size < UInt16.size := by
      show 1 < UInt16.size
      decide
    refine Codec.encode_of_manyFields hone ?_ (Nat.le_of_eq (hcount.symm.trans hsize.symm))
    intro constant hconstant
    obtain rfl := List.mem_singleton.1 hconstant
    exact Codec.checkConstant_str.2 hlength

/-- As many different strings as there are indices. -/
def crowd : List String := (List.range Pool.capacity).map fun i => "k" ++ toString i

theorem nodup_crowd : crowd.Nodup := by
  have hinjective : Function.Injective fun i : Nat => "k" ++ toString i := by
    intro i j h
    have hdigits : Nat.toDigits 10 i = Nat.toDigits 10 j := by
      have htexts := (String.append_right_inj "k").1 h
      rwa [Nat.toString_eq_ofList_toDigits, Nat.toString_eq_ofList_toDigits,
        String.ofList_inj] at htexts
    calc
      i = Nat.ofDigitChars 10 (Nat.toDigits 10 i) 0 := Nat.ofDigitChars_ten_toDigits.symm
      _ = Nat.ofDigitChars 10 (Nat.toDigits 10 j) 0 := by rw [hdigits]
      _ = j := Nat.ofDigitChars_ten_toDigits
  exact List.nodup_range.map hinjective

/-- Every one of 65536 constants is accepted, and so is every one of 65536 fields. The modules are
handed out, but they cannot be written. -/
theorem encode_of_build_crowded :
    (∃ m, (declareAll (crowd.map .constant) { name := "k0" }).2.build = .ok m ∧
      Codec.encode m = .error (.tooMany .constants 65536)) ∧
    ∃ m, (declareAll (List.replicate 65536 (.field ⟨"k0", []⟩)) { name := "k0" }).2.build = .ok m ∧
      Codec.encode m = .error (.tooMany .fields 65536) := by
  constructor
  · have hlength : crowd.length = Pool.capacity := by
      rw [crowd, List.length_map, List.length_range]
    have hname : "k0" ∈ crowd := List.mem_map.2 ⟨0, List.mem_range.2 (by decide), by decide⟩
    exact encode_of_build_constants nodup_crowd hlength hname
  · exact encode_of_build_fields (by decide) rfl

end Builder

end LateBinding
