import LateBinding.Proofs.Module.Interning
import LateBinding.Proofs.Weaving.InjectionPoints
import LateBinding.Weaving.Weave
import Mathlib.Data.List.Basic

set_option autoImplicit false

/-! # What weaving makes of a module

`Module.callTarget?` says, from the fields and the pool alone, which dynamic call replaces the
reads of a field: the first constant that holds the symbol of the field's last marker of the
kind, and the first that holds the field's name. `Module.woven` is the module with the reads
replaced accordingly, and `weave_eq_ok` proves that weaving answers with this module, exactly
when the module can be scanned.

The strings of the calls stand in the pool already, so interning finds them all and the pool
does not grow, not even when it is full. A consistent module stays consistent
(`Consistent.woven`).
-/

namespace LateBinding

/-! ## The call of an injection point -/

namespace Pool

/-- The call with the first constants that hold the two strings. -/
def call? (pool : Pool) (symbol slot : String) : Option CallTarget := do
  let symbol ← pool.find? symbol
  let slot ← pool.find? slot
  return ⟨symbol, slot⟩

theorem call?_eq_some {pool : Pool} {symbol slot : String} {target : CallTarget} :
    pool.call? symbol slot = some target ↔
      pool.find? symbol = some target.symbol ∧ pool.find? slot = some target.slot := by
  cases target with
  | mk i j => simp [call?, Option.bind_eq_some_iff]

end Pool

namespace Module

/-! ## The calls -/

/-- The call that replaces the reads of the field at `index`. -/
def callTarget? (m : Module) (kind : String) (index : UInt16) : Option CallTarget := do
  let field ← m.fields[index.toNat]?
  let symbol ← (m.symbols kind field).getLast?
  m.pool.call? symbol (m.pool.text field.name)

/-- The calls that replace the reads of the fields, by field. -/
def callTargets (m : Module) (kind : String) : CallTargets :=
  Array.ofFn fun index : Fin m.fields.size => m.callTarget? kind (UInt16.ofNat index)

theorem at?_callTargets {m : Module} {kind : String} {index : UInt16} :
    (m.callTargets kind).at? index = m.callTarget? kind index := by
  unfold CallTargets.at? callTargets
  rw [Array.getElem?_ofFn]
  split
  · simp
  · next hge => simp [callTarget?, hge]

/-- A read of a field that has a call is replaced by it. -/
theorem weave_getField {m : Module} {kind : String} {field : UInt16} :
    (Instruction.getField field).weave (m.callTargets kind) =
      match m.callTarget? kind field with
      | some target => .invokeDynamic target.symbol target.slot
      | none => .getField field := by
  show (match (m.callTargets kind).at? field with
    | some target => Instruction.invokeDynamic target.symbol target.slot
    | none => .getField field) = _
  rw [at?_callTargets]

/-- The string of a point that was listed is the string that the point stands for. -/
theorem mem_points {m : Module} {kind : String} {point : InjectionPoint}
    (h : point ∈ m.points kind) :
    ∃ field index, (field, index) ∈ m.fields.toList.zipIdx ∧
      ∃ symbol ∈ m.symbols kind field, point = m.point field (UInt16.ofNat index) symbol := by
  obtain ⟨⟨field, index⟩, hfield, hpoint⟩ := List.mem_flatMap.1 h
  obtain ⟨symbol, hsymbol, rfl⟩ := List.mem_map.1 hpoint
  exact ⟨field, index, hfield, symbol, hsymbol, rfl⟩

/-- An injection point is a field of the module. -/
theorem Scannable.fieldIndex_lt {m : Module} {kind : String} (h : m.Scannable kind)
    {point : InjectionPoint} (hpoint : point ∈ m.points kind) :
    point.fieldIndex.toNat < m.fields.size := by
  obtain ⟨field, i, hfield, symbol, -, rfl⟩ := mem_points hpoint
  have hi := (List.mem_zipIdx' hfield).1
  rw [Array.length_toList] at hi
  have hlimit := h.size
  show (UInt16.ofNat i).toNat < _
  rw [UInt16.toNat_ofNat_of_lt' (by omega)]
  exact hi

/-- Both strings of an injection point stand in the pool. -/
theorem Scannable.holds {m : Module} {kind : String} (h : m.Scannable kind)
    {point : InjectionPoint} (hpoint : point ∈ m.points kind) :
    m.pool.Holds point.symbol ∧ m.pool.Holds point.slot := by
  obtain ⟨field, index, hfield, symbol, hsymbol, rfl⟩ := mem_points hpoint
  have hmem : field ∈ m.fields := Array.mem_toList_iff.1 (List.fst_mem_of_mem_zipIdx hfield)
  obtain ⟨hmarkers, hname⟩ := h.field field hmem
  have hslot := Pool.isString_iff.1 (hname (List.ne_nil_of_mem hsymbol))
  obtain ⟨marker, -, hmarker⟩ := List.mem_filterMap.1 hsymbol
  unfold symbolOf? at hmarker
  split at hmarker
  · next found value hresolve =>
      split at hmarker
      · cases hmarker
        exact ⟨⟨marker.value, (resolve_eq_ok.1 hresolve).2⟩, ⟨field.name, hslot⟩⟩
      · cases hmarker
  · cases hmarker

end Module

/-- Note the call of a point whose strings stand in the pool. -/
def CallTargets.note (pool : Pool) (targets : CallTargets) (point : InjectionPoint) :
    CallTargets :=
  targets.setIfInBounds point.fieldIndex.toNat (pool.call? point.symbol point.slot)

theorem Module.addTarget_eq {pool : Pool} {targets : CallTargets} {point : InjectionPoint}
    (h : pool.Holds point.symbol ∧ pool.Holds point.slot) :
    Module.addTarget (pool, targets) point = .ok (pool, targets.note pool point) := by
  obtain ⟨symbol, hsymbol⟩ := Option.isSome_iff_exists.1 (Pool.find?_isSome h.1)
  obtain ⟨slot, hslot⟩ := Option.isSome_iff_exists.1 (Pool.find?_isSome h.2)
  simp only [addTarget, Pool.intern_of_find? hsymbol, Pool.intern_of_find? hslot, bind,
    Except.bind, pure, Except.pure, CallTargets.note, Pool.call?, hsymbol, hslot]
  rfl

theorem Module.foldlM_addTarget_eq {pool : Pool} {points : List InjectionPoint}
    (h : ∀ point ∈ points, pool.Holds point.symbol ∧ pool.Holds point.slot)
    (targets : CallTargets) :
    points.foldlM Module.addTarget (pool, targets) =
      .ok (pool, points.foldl (CallTargets.note pool) targets) := by
  induction points generalizing targets with
  | nil => rfl
  | cons point points ih =>
      obtain ⟨hpoint, hpoints⟩ := List.forall_mem_cons.1 h
      rw [List.foldlM_cons, addTarget_eq hpoint, List.foldl_cons]
      exact ih hpoints _

namespace CallTargets

variable {pool : Pool} {targets : CallTargets} {index : UInt16}

theorem size_note {point : InjectionPoint} : (targets.note pool point).size = targets.size := by
  simp [note]

theorem size_foldl_note {points : List InjectionPoint} :
    (points.foldl (note pool) targets).size = targets.size := by
  induction points generalizing targets with
  | nil => rfl
  | cons point points ih => rw [List.foldl_cons, ih, size_note]

theorem at?_replicate {size : Nat} : at? (Array.replicate size none) index = none := by
  rw [at?, Array.getElem?_replicate]
  split <;> rfl

theorem at?_note {point : InjectionPoint} (h : point.fieldIndex.toNat < targets.size) :
    (targets.note pool point).at? index =
      if point.fieldIndex = index then pool.call? point.symbol point.slot
      else targets.at? index := by
  unfold note at?
  rw [Array.getElem?_setIfInBounds]
  by_cases heq : point.fieldIndex = index
  · rw [if_pos heq, if_pos (congrArg UInt16.toNat heq), if_pos h]
    rfl
  · rw [if_neg heq, if_neg (mt UInt16.toNat_inj.1 heq)]

/-- Of several points of a field, the last one is noted. -/
theorem at?_foldl_note {points : List InjectionPoint}
    (h : ∀ point ∈ points, point.fieldIndex.toNat < targets.size) :
    (points.foldl (note pool) targets).at? index =
      match (points.filter (·.fieldIndex = index)).getLast? with
      | some point => pool.call? point.symbol point.slot
      | none => targets.at? index := by
  induction points generalizing targets with
  | nil => rfl
  | cons point points ih =>
      obtain ⟨hpoint, hpoints⟩ := List.forall_mem_cons.1 h
      rw [List.foldl_cons, ih (by simpa only [size_note] using hpoints), at?_note hpoint,
        List.filter_cons]
      by_cases heq : point.fieldIndex = index
      · rw [if_pos heq, if_pos (decide_eq_true heq), List.getLast?_cons]
        cases (points.filter (·.fieldIndex = index)).getLast? with
        | none => rfl
        | some last => rfl
      · rw [if_neg heq, if_neg (by simp [heq])]

end CallTargets

/-- From a table that is gone through with indices, the items for one index are those of the
item that stands there. -/
theorem flatMap_zipIdx_ite {α β : Type} {items : List α} (f : α → List β) {start n : Nat} :
    ((items.zipIdx start).flatMap fun x => if x.2 = start + n then f x.1 else []) =
      (items[n]?).elim [] f := by
  induction items generalizing start n with
  | nil => rfl
  | cons item items ih =>
      rw [List.zipIdx_cons, List.flatMap_cons]
      cases n with
      | zero =>
          -- the indices of all further items are greater
          have hrest : ((items.zipIdx (start + 1)).flatMap fun x =>
              if x.2 = start + 0 then f x.1 else []) = [] := by
            rw [List.flatMap_eq_nil_iff]
            intro x hx
            have hge := (List.mem_zipIdx hx).1
            exact if_neg (by omega)
          rw [hrest]
          simp
      | succ n =>
          have hne : ¬ start = start + (n + 1) := by omega
          have hstart : start + (n + 1) = start + 1 + n := by omega
          rw [if_neg hne, List.nil_append, hstart, ih]
          rfl

namespace Module

variable {m : Module} {kind : String}

/-- The injection points of one field. -/
theorem filter_points (h : m.fields.size ≤ UInt16.size) (index : UInt16) :
    (m.points kind).filter (·.fieldIndex = index) =
      (m.fields[index.toNat]?).elim [] fun field =>
        (m.symbols kind field).map (m.point field index) := by
  have hfield : ∀ x ∈ m.fields.toList.zipIdx,
      ((m.symbols kind x.1).map (m.point x.1 (UInt16.ofNat x.2))).filter (·.fieldIndex = index) =
        if x.2 = 0 + index.toNat then (m.symbols kind x.1).map (m.point x.1 index) else [] := by
    intro x hx
    have hlt : x.2 < UInt16.size := by
      have hbound := (List.mem_zipIdx' hx).1
      rw [Array.length_toList] at hbound
      omega
    split
    · next heq =>
        have hindex : UInt16.ofNat x.2 = index := by
          rw [heq, Nat.zero_add, UInt16.ofNat_toNat]
        rw [hindex, List.filter_eq_self]
        simp [point]
    · next hne =>
        -- 16 bits express the index of every field, so different fields keep different indices
        have hindex : UInt16.ofNat x.2 ≠ index := by
          rintro rfl
          rw [UInt16.toNat_ofNat_of_lt' hlt] at hne
          omega
        rw [List.filter_eq_nil_iff]
        simp [point, hindex]
  rw [points, List.filter_flatMap, List.flatMap_congr hfield,
    flatMap_zipIdx_ite (fun field => (m.symbols kind field).map (m.point field index)),
    Array.getElem?_toList]

/-- Two tables of calls are the same when they give the same call for every field. -/
theorem callTargets_ext {a b : CallTargets} (hsize : a.size = b.size)
    (hlimit : a.size ≤ UInt16.size) (h : ∀ index, a.at? index = b.at? index) : a = b := by
  refine Array.ext hsize fun i hi hi' => ?_
  have hlt : i < UInt16.size := Nat.lt_of_lt_of_le hi hlimit
  have hindex : (UInt16.ofNat i).toNat = i := UInt16.toNat_ofNat_of_lt' hlt
  have hat := h (UInt16.ofNat i)
  simpa only [CallTargets.at?, hindex, Array.getElem?_eq_getElem hi,
    Array.getElem?_eq_getElem hi', Option.join_some] using hat

/-- Interning the strings of all points leaves the pool as it is and notes the calls. -/
theorem targets_eq (h : m.Scannable kind) :
    m.targets (m.points kind) = .ok (m.pool, m.callTargets kind) := by
  rw [targets, foldlM_addTarget_eq (fun _ hpoint => h.holds hpoint)]
  congr 2
  have hsize : ((m.points kind).foldl (CallTargets.note m.pool)
      (Array.replicate m.fields.size none)).size = m.fields.size := by
    rw [CallTargets.size_foldl_note, Array.size_replicate]
  refine callTargets_ext ?_ ?_ ?_
  · rw [hsize, callTargets, Array.size_ofFn]
  · rw [hsize]
    exact h.size
  · intro index
    have hbound : ∀ point ∈ m.points kind, point.fieldIndex.toNat <
        (Array.replicate m.fields.size (none : Option CallTarget)).size := by
      intro point hpoint
      rw [Array.size_replicate]
      exact h.fieldIndex_lt hpoint
    rw [CallTargets.at?_foldl_note hbound, filter_points h.size, at?_callTargets, callTarget?,
      CallTargets.at?_replicate]
    cases m.fields[index.toNat]? with
    | none => rfl
    | some field =>
        show (match ((m.symbols kind field).map (m.point field index)).getLast? with
          | some point => m.pool.call? point.symbol point.slot
          | none => none) = (m.symbols kind field).getLast?.bind fun symbol =>
            m.pool.call? symbol (m.pool.text field.name)
        rw [List.getLast?_map]
        cases (m.symbols kind field).getLast? with
        | none => rfl
        | some symbol => rfl

/-! ## Woven modules -/

/-- The module with the reads of its injection points replaced. -/
def woven (m : Module) (kind : String) : Module :=
  { m with methods := m.methods.map (·.weave (m.callTargets kind)) }

/-- What weaving reports of a module. -/
def wovenSummary (m : Module) (kind : String) : WeaveSummary where
  owner := m.pool.text m.name
  points := m.points kind
  sites := (m.methods.toList.map (·.wovenSites (m.callTargets kind))).foldr (· + ·) 0

/-- **Weaving succeeds exactly where scanning does**, and answers with the woven module. -/
theorem weave_eq_ok {result : Module × WeaveSummary} :
    m.weave kind = .ok result ↔
      m.Scannable kind ∧ result = (m.woven kind, m.wovenSummary kind) := by
  simp only [weave, Except.bind_eq_ok, Except.pure_eq_ok, orFormat_eq_ok, scan_eq_ok, title]
  constructor
  · rintro ⟨_, ⟨hscan, rfl⟩, owner, howner, ⟨pool, targets⟩, htargets, rfl⟩
    rw [targets_eq hscan] at htargets
    cases htargets
    refine ⟨hscan, ?_⟩
    rw [wovenSummary, Pool.text_of_string howner]
    rfl
  · rintro ⟨hscan, rfl⟩
    exact ⟨_, ⟨hscan, rfl⟩, _, Pool.isString_iff.1 hscan.name, _, targets_eq hscan, rfl⟩

/-! ## The calls of a module that can be scanned -/

theorem symbol?_eq_some {index : UInt16} {symbol : String} :
    m.symbol? kind index = some symbol ↔
      ∃ field, m.fields[index.toNat]? = some field ∧
        (m.symbols kind field).getLast? = some symbol :=
  Option.bind_eq_some_iff

/-- The call for a field names the symbol of the field's last marker of the kind, and the field. -/
theorem callTarget?_eq_some {index : UInt16} {target : CallTarget}
    (h : m.callTarget? kind index = some target) :
    ∃ field symbol, m.fields[index.toNat]? = some field ∧
      (m.symbols kind field).getLast? = some symbol ∧
      m.pool.string target.symbol = .ok symbol ∧
      m.pool.string target.slot = .ok (m.pool.text field.name) := by
  obtain ⟨field, hfield, h⟩ := Option.bind_eq_some_iff.1 h
  obtain ⟨symbol, hsymbol, h⟩ := Option.bind_eq_some_iff.1 h
  obtain ⟨hfirst, hslot⟩ := Pool.call?_eq_some.1 h
  exact ⟨field, symbol, hfield, hsymbol, Pool.string_of_find? hfirst, Pool.string_of_find? hslot⟩

/-- The operands of the call for a field are strings, the first its symbol. -/
theorem strings_of_callTarget? {index : UInt16} {target : CallTarget}
    (h : m.callTarget? kind index = some target) :
    ∃ symbol, m.symbol? kind index = some symbol ∧ m.pool.string target.symbol = .ok symbol ∧
      m.pool.IsString target.slot := by
  obtain ⟨field, symbol, hfield, hsymbol, hfirst, hslot⟩ := callTarget?_eq_some h
  exact ⟨symbol, symbol?_eq_some.2 ⟨field, hfield, hsymbol⟩, hfirst, ⟨_, hslot⟩⟩

/-- Every field that carries a marker of the kind has a call. -/
theorem callTarget?_isSome (h : m.Scannable kind) {index : UInt16} {symbol : String}
    (hsymbol : m.symbol? kind index = some symbol) : (m.callTarget? kind index).isSome := by
  obtain ⟨field, hfield, hlast⟩ := symbol?_eq_some.1 hsymbol
  obtain ⟨hbound, heq⟩ := Array.getElem?_eq_some_iff.1 hfield
  have hpoint : m.point field index symbol ∈ m.points kind := by
    refine List.mem_of_mem_filter (p := (·.fieldIndex = index)) ?_
    rw [filter_points h.size, hfield]
    exact List.mem_map.2 ⟨symbol, List.mem_of_getLast? hlast, rfl⟩
  obtain ⟨hholds, hslot⟩ := h.holds hpoint
  obtain ⟨i, hi⟩ := Option.isSome_iff_exists.1 (Pool.find?_isSome hholds)
  obtain ⟨j, hj⟩ := Option.isSome_iff_exists.1 (Pool.find?_isSome hslot)
  have hcall : m.callTarget? kind index = some ⟨i, j⟩ := by
    rw [callTarget?, hfield]
    show ((m.symbols kind field).getLast?.bind fun symbol =>
      m.pool.call? symbol (m.pool.text field.name)) = _
    rw [hlast]
    exact Pool.call?_eq_some.2 ⟨hi, hj⟩
  rw [hcall]
  rfl

/-- A woven module does not read injected fields any more. -/
theorem symbol?_of_read_woven (h : m.Scannable kind) {method : Method}
    (hmethod : method ∈ (m.woven kind).methods) {field : UInt16}
    (hread : .getField field ∈ method.code) : (m.woven kind).symbol? kind field = none := by
  obtain ⟨before, -, rfl⟩ := Array.mem_map.1 hmethod
  obtain ⟨insn, -, hinsn⟩ := Array.mem_map.1 hread
  unfold Instruction.weave at hinsn
  split at hinsn
  · next index =>
      split at hinsn
      · cases hinsn
      · next htarget =>
          cases hinsn
          rw [at?_callTargets] at htarget
          show m.symbol? kind field = none
          cases hsymbol : m.symbol? kind field with
          | none => rfl
          | some symbol =>
              have hcall := callTarget?_isSome h hsymbol
              rw [htarget] at hcall
              cases hcall
  · next hother =>
      cases hinsn
      exact absurd rfl (hother field)

/-! ## Consistency -/

/-- **A consistent module stays consistent when it is woven.** Only instructions change, and
the calls that are put in name strings of the pool. -/
theorem Consistent.woven (h : m.Consistent) (kind : String) : (m.woven kind).Consistent := by
  refine ⟨h.name, h.field, ?_⟩
  intro method hmethod
  obtain ⟨before, hbefore, rfl⟩ := Array.mem_map.1 hmethod
  obtain ⟨hname, hmarkers, hcode⟩ := h.method before hbefore
  refine ⟨hname, hmarkers, ?_⟩
  intro insn hinsn
  obtain ⟨old, hold, rfl⟩ := Array.mem_map.1 hinsn
  have hallows : (m.woven kind).Allows (before.weave (m.callTargets kind)) old :=
    (hcode old hold).congr rfl rfl rfl Array.size_map
  unfold Instruction.weave
  split
  · next index =>
      split
      · next target htarget =>
          rw [at?_callTargets] at htarget
          obtain ⟨symbol, -, hsymbol, hslot⟩ := strings_of_callTarget? htarget
          exact ⟨⟨symbol, hsymbol⟩, hslot⟩
      · exact hallows
  · exact hallows

end Module

end LateBinding
