import LateBinding.Proofs.Weaving.InPlace
import LateBinding.Proofs.Weaving.Noninterference
import LateBinding.Proofs.Weaving.Simulation

set_option autoImplicit false

/-! # Weaving for two kinds of markers

Two passes over a module, each for a kind of marker of its own, scan the same fields and the same
pool, and so they have the same calls whichever comes first (`callTargets_woven`). They meet in the
code only. Where a field has a call for one of the kinds, its reads are replaced by the pass for
that kind; where it has a call for both, by the pass that comes first, which leaves no read to the
other (`Instruction.isWoven_weave`). From this `Module.weave_two_kinds` compares the two orders:
they agree when no field carries both kinds, and in any case they replace as many reads.
-/

namespace LateBinding

/-! ## Two tables of calls -/

variable {a b : CallTargets} {insn : Instruction}

/-- The second pass replaces what it would replace alone, less what the first pass has replaced. -/
theorem Instruction.isWoven_weave (a b : CallTargets) (insn : Instruction) :
    (insn.weave a).isWoven b = (!insn.isWoven a && insn.isWoven b) := by
  cases insn with
  | getField index =>
      simp only [weave, isWoven]
      cases a.at? index with
      | none => rfl
      | some target => rfl
  | _ => rfl

/-- Where no field has a call in both tables, the order of the passes does not matter. -/
theorem Instruction.weave_comm (h : ∀ index, a.at? index = none ∨ b.at? index = none)
    (insn : Instruction) : (insn.weave a).weave b = (insn.weave b).weave a := by
  cases insn with
  | getField index =>
      simp only [weave]
      rcases h index with hnone | hnone
      · rw [hnone]
        cases hb : b.at? index with
        | none => simp only [hb, hnone]
        | some target => simp only [hb]
      · rw [hnone]
        cases ha : a.at? index with
        | none => simp only [ha, hnone]
        | some target => simp only [ha]
  | _ => rfl

namespace Method

/-- Number of reads that one of the two passes replaces. -/
def eitherSites (a b : CallTargets) (method : Method) : Nat :=
  method.code.countP fun insn => insn.isWoven a || insn.isWoven b

theorem eitherSites_comm (a b : CallTargets) (method : Method) :
    method.eitherSites a b = method.eitherSites b a := by
  simp only [eitherSites, Bool.or_comm]

theorem wovenSites_weave (a b : CallTargets) (method : Method) :
    (method.weave a).wovenSites b =
      method.code.countP fun insn => !insn.isWoven a && insn.isWoven b := by
  rw [wovenSites, weave, Array.countP_map]
  simp only [Function.comp_def, Instruction.isWoven_weave]

/-- Each read that has a call in one of the tables is replaced in one of the passes. -/
theorem wovenSites_add (a b : CallTargets) (method : Method) :
    method.wovenSites a + (method.weave a).wovenSites b = method.eitherSites a b := by
  rw [wovenSites_weave, wovenSites, eitherSites]
  simp only [← Array.countP_toList]
  induction method.code.toList with
  | nil => rfl
  | cons insn code ih =>
      simp only [List.countP_cons]
      cases insn.isWoven a <;> cases insn.isWoven b <;> simp <;> omega

end Method

namespace Module

variable {m : Module} {kind other : String}

/-! ## Two passes -/

/-- A pass leaves the fields and the pool, from which the calls for any kind are read. -/
theorem callTargets_woven (m : Module) (kind other : String) :
    (m.woven kind).callTargets other = m.callTargets other := rfl

theorem points_woven (m : Module) (kind other : String) :
    (m.woven kind).points other = m.points other := rfl

/-- Two passes replace what has a call for one of the kinds. -/
theorem sites_add (m : Module) (kind other : String) :
    (m.wovenSummary kind).sites + ((m.woven kind).wovenSummary other).sites =
      (m.methods.toList.map (·.eitherSites (m.callTargets kind) (m.callTargets other))).sum := by
  show (m.methods.toList.map _).foldr (· + ·) 0 +
    ((m.methods.map _).toList.map _).foldr (· + ·) 0 = _
  rw [Array.toList_map, callTargets_woven]
  induction m.methods.toList with
  | nil => rfl
  | cons method methods ih =>
      simp only [List.map_cons, List.foldr_cons, List.sum_cons]
      rw [← ih, ← Method.wovenSites_add]
      omega

/-- A field that has a call for a kind carries a marker of the kind. -/
theorem marks_of_callTarget? {index : UInt16} {target : CallTarget}
    (h : m.callTarget? kind index = some target) : m.Marks kind index.toNat := by
  obtain ⟨field, symbol, hfield, hlast, -⟩ := callTarget?_eq_some h
  obtain ⟨marker, hmarker, hsymbol⟩ := List.mem_filterMap.1 (List.mem_of_getLast? hlast)
  refine ⟨field, marker, hfield, hmarker, ?_⟩
  unfold symbolOf? at hsymbol
  split at hsymbol
  · next found symbol hresolve =>
      split at hsymbol
      · next heq => exact heq ▸ (resolve_eq_ok.1 hresolve).1
      · cases hsymbol
  · cases hsymbol

/-- No field of the module carries markers of both kinds. -/
def Separates (m : Module) (kind other : String) : Prop :=
  ∀ index, ¬ (m.Marks kind index ∧ m.Marks other index)

theorem Separates.symm (h : m.Separates kind other) : m.Separates other kind :=
  fun index hmarks => h index hmarks.symm

theorem Separates.at? (h : m.Separates kind other) (index : UInt16) :
    (m.callTargets kind).at? index = none ∨ (m.callTargets other).at? index = none := by
  rw [at?_callTargets, at?_callTargets]
  cases hkind : m.callTarget? kind index with
  | none => exact .inl rfl
  | some target =>
      cases hother : m.callTarget? other index with
      | none => exact .inr rfl
      | some target' =>
          exact absurd ⟨marks_of_callTarget? hkind, marks_of_callTarget? hother⟩ (h index.toNat)

/-- With the kinds on different fields, two passes make the same module in both orders. -/
theorem Separates.woven_comm (h : m.Separates kind other) :
    (m.woven kind).woven other = (m.woven other).woven kind := by
  have hmethod (method : Method) :
      (method.weave (m.callTargets kind)).weave (m.callTargets other) =
        (method.weave (m.callTargets other)).weave (m.callTargets kind) := by
    simp only [Method.weave, Array.map_map, Function.comp_def, Instruction.weave_comm h.at?]
  have hmethods : (m.methods.map (·.weave (m.callTargets kind))).map
        (·.weave (m.callTargets other)) =
      (m.methods.map (·.weave (m.callTargets other))).map (·.weave (m.callTargets kind)) := by
    simp only [Array.map_map, Function.comp_def, hmethod]
  exact congrArg (fun methods => { m with methods }) hmethods

/-- With the kinds on different fields, a pass reports the same whether or not the other came
before. -/
theorem Separates.wovenSummary_woven (h : m.Separates kind other) :
    (m.woven kind).wovenSummary other = m.wovenSummary other := by
  have hsites (method : Method) :
      (method.weave (m.callTargets kind)).wovenSites (m.callTargets other) =
        method.wovenSites (m.callTargets other) := by
    rw [Method.wovenSites_weave, Method.wovenSites]
    congr 1
    funext insn
    cases insn with
    | getField index =>
        simp only [Instruction.isWoven]
        rcases h.at? index with hnone | hnone <;> simp [hnone]
    | _ => rfl
  simp only [wovenSummary, callTargets_woven, points_woven]
  simp only [woven, Array.toList_map, List.map_map, Function.comp_def, hsites]

/-! ## Fields that carry both kinds -/

/-- The first pass of two takes a field: its reads become calls with the symbol of the last marker
of the kind and stay these calls in the second pass, which lists the field but finds no read of
it. -/
structure TakesField (m : Module) (kind : String) (index : UInt16) (middle final : Module)
    (second : WeaveSummary) : Prop where
  called : ∃ symbol name, m.symbol? kind index = some symbol ∧ m.fieldName index = .ok name ∧
    ∀ (i pc : Nat) (method : Method), m.methods[i]? = some method →
      method.code[pc]? = some (.getField index) →
      middle.HasCall ⟨i, pc, symbol, name⟩ ∧ final.HasCall ⟨i, pc, symbol, name⟩
  unread : ∀ method ∈ middle.methods, .getField index ∉ method.code
  listed : ∃ point ∈ second.points, point.fieldIndex = index

/-- A marked field is listed. -/
theorem Scannable.exists_point (h : m.Scannable kind) {index : UInt16}
    (hmarks : m.Marks kind index.toNat) : ∃ point ∈ m.points kind, point.fieldIndex = index := by
  obtain ⟨symbol, hsymbol⟩ := Option.isSome_iff_exists.1 (h.symbol?_isSome hmarks)
  obtain ⟨field, hfield, hlast⟩ := symbol?_eq_some.1 hsymbol
  have hpoint : m.point field index symbol ∈ (m.points kind).filter (·.fieldIndex = index) := by
    rw [filter_points h.size, hfield]
    exact List.mem_map_of_mem (List.mem_of_getLast? hlast)
  exact ⟨_, List.mem_of_mem_filter hpoint, rfl⟩

theorem Consistent.takesField (h : m.Consistent) (hsize : m.fields.size ≤ UInt16.size)
    {index : UInt16} (hkind : m.Marks kind index.toNat) (hother : m.Marks other index.toNat) :
    m.TakesField kind index (m.woven kind) ((m.woven kind).woven other)
      ((m.woven kind).wovenSummary other) := by
  have hscan := h.scannable kind hsize
  obtain ⟨symbol, hsymbol⟩ := Option.isSome_iff_exists.1 (hscan.symbol?_isSome hkind)
  obtain ⟨target, htarget⟩ := Option.isSome_iff_exists.1 (callTarget?_isSome hscan hsymbol)
  obtain ⟨field, found, hfield, hlast, hfirst, hslot⟩ := callTarget?_eq_some htarget
  obtain rfl : found = symbol := by
    rw [symbol?_eq_some.2 ⟨field, hfield, hlast⟩] at hsymbol
    exact Option.some.inj hsymbol
  have hname : m.fieldName index = .ok (m.pool.text field.name) := by
    have hstring := Pool.isString_iff.1 (h.field field (Array.mem_of_getElem? hfield)).1
    rw [fieldName, hfield]
    show orFormat (m.pool.string field.name) = _
    rw [hstring]
    rfl
  refine ⟨⟨found, _, hsymbol, hname, ?_⟩, ?_, (h.scannable other hsize).exists_point hother⟩
  · intro i pc method hmethod hread
    have hcall := HasCall.of_read hmethod hread htarget hfirst hslot
    exact ⟨hcall, hcall.woven⟩
  · intro method hmethod hread
    exact not_marks_of_read_woven hscan hmethod hread hkind

/-! ## Both orders -/

/-- **Weaving for two kinds of markers, in both orders.** An accepted module, with an index of 16
bits for each field, is woven for the one kind and then for the other, and the other way round. Each
kind has the same injection points in both orders, and both orders replace as many reads. Where no
field carries both kinds, they make the same module, and the report on each kind is the same. Where
a field carries both, the pass that comes first takes it. -/
theorem weave_two_kinds (hvalid : m.validate = .ok ()) (hsize : m.fields.size ≤ UInt16.size)
    (kind other : String) :
    ∃ left leftRight right rightLeft first second first' second',
      m.weave kind = .ok (left, first) ∧ left.weave other = .ok (leftRight, second) ∧
      m.weave other = .ok (right, first') ∧ right.weave kind = .ok (rightLeft, second') ∧
      second.points = first'.points ∧ second'.points = first.points ∧
      first.sites + second.sites = first'.sites + second'.sites ∧
      (m.Separates kind other →
        leftRight = rightLeft ∧ second = first' ∧ second' = first) ∧
      ∀ index : UInt16, m.Marks kind index.toNat → m.Marks other index.toNat →
        m.TakesField kind index left leftRight second ∧
        m.TakesField other index right rightLeft second' := by
  have h := validate_eq_ok_iff.1 hvalid
  have hkind := h.scannable kind hsize
  have hother := h.scannable other hsize
  refine ⟨_, _, _, _, _, _, _, _, weave_of_scannable hkind,
    weave_of_scannable ((h.woven kind).scannable other hsize), weave_of_scannable hother,
    weave_of_scannable ((h.woven other).scannable kind hsize), rfl, rfl, ?_, ?_, ?_⟩
  · rw [sites_add, sites_add]
    simp only [Method.eitherSites_comm (m.callTargets kind)]
  · intro hseparates
    exact ⟨hseparates.woven_comm, hseparates.wovenSummary_woven,
      hseparates.symm.wovenSummary_woven⟩
  · intro index hmarks hmarks'
    exact ⟨h.takesField hsize hmarks hmarks', h.takesField hsize hmarks' hmarks⟩

/-- A module with two fields, one marked with "inject" and with further markers, the other with
"wire", and a method that reads both. -/
def wired (further : List Marker) : Module where
  name := 0
  pool := ⟨#[.str "Holder", .str "inject", .str "first", .str "wire", .str "second", .str "left",
    .str "right", .str "both"]⟩
  fields := #[⟨5, ⟨1, 2⟩ :: further⟩, ⟨6, [⟨3, 4⟩]⟩]
  methods := #[⟨7, 0, 0, [],
    #[.loadLocal 0, .getField 0, .loadLocal 0, .getField 1, .concat, .ret]⟩]

theorem separates_wired : (wired []).Separates "inject" "wire" := by
  rintro (_ | _ | index) ⟨⟨field, marker, hfield, hmarker, hkind⟩,
    ⟨field', marker', hfield', hmarker', hkind'⟩⟩
  · cases hfield'
    obtain rfl := List.mem_singleton.1 hmarker'
    exact absurd (Except.ok.inj hkind') (by decide)
  · cases hfield
    obtain rfl := List.mem_singleton.1 hmarker
    exact absurd (Except.ok.inj hkind) (by decide)
  · cases hfield

theorem weave_two_kinds_wired :
    (∃ left right both first second first' second',
      (wired []).weave "inject" = .ok (left, first) ∧ left.weave "wire" = .ok (both, second) ∧
      (wired []).weave "wire" = .ok (right, first') ∧ right.weave "inject" = .ok (both, second')) ∧
    ∃ left leftRight right rightLeft first second first' second',
      (wired [⟨3, 4⟩]).weave "inject" = .ok (left, first) ∧
      left.weave "wire" = .ok (leftRight, second) ∧
      (wired [⟨3, 4⟩]).weave "wire" = .ok (right, first') ∧
      right.weave "inject" = .ok (rightLeft, second') ∧
      leftRight.HasCall ⟨0, 1, "first", "left"⟩ ∧ rightLeft.HasCall ⟨0, 1, "second", "left"⟩ ∧
      first.sites + second.sites = first'.sites + second'.sites := by
  constructor
  · obtain ⟨left, both, right, both', first, second, first', second', hleft, hboth, hright, hboth',
      -, -, -, hsame, -⟩ := weave_two_kinds (m := wired []) rfl (by decide) "inject" "wire"
    obtain ⟨rfl, -, -⟩ := hsame separates_wired
    exact ⟨left, right, both, first, second, first', second', hleft, hboth, hright, hboth'⟩
  · obtain ⟨left, leftRight, right, rightLeft, first, second, first', second', hleft, hboth, hright,
      hboth', -, -, hsites, -, htakes⟩ :=
      weave_two_kinds (m := wired [⟨3, 4⟩]) rfl (by decide) "inject" "wire"
    have hinject : (wired [⟨3, 4⟩]).Marks "inject" 0 := ⟨_, ⟨1, 2⟩, rfl, by decide, rfl⟩
    have hwire : (wired [⟨3, 4⟩]).Marks "wire" 0 := ⟨_, ⟨3, 4⟩, rfl, by decide, rfl⟩
    obtain ⟨hfirst, hsecond⟩ := htakes 0 hinject hwire
    obtain ⟨symbol, name, hsymbol, hname, hcalls⟩ := hfirst.called
    obtain ⟨symbol', name', hsymbol', hname', hcalls'⟩ := hsecond.called
    obtain rfl : "first" = symbol := Option.some.inj hsymbol
    obtain rfl : "second" = symbol' := Option.some.inj hsymbol'
    obtain rfl : "left" = name := Except.ok.inj hname
    obtain rfl : "left" = name' := Except.ok.inj hname'
    exact ⟨left, leftRight, right, rightLeft, first, second, first', second', hleft, hboth, hright,
      hboth', (hcalls 0 1 _ rfl rfl).2, (hcalls' 0 1 _ rfl rfl).2, hsites⟩

end Module

end LateBinding
