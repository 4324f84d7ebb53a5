import LateBinding.Proofs.Module.Consistency
import LateBinding.Weaving.InjectionPoint

set_option autoImplicit false

/-! # What a scan finds

The markers of a field say which symbols it carries (`Module.symbols`), and the injection
points of a module are these symbols, field by field (`Module.points`). `scan_eq_ok` proves
that a scan finds exactly these points, and states when it succeeds at all: `Scannable` asks
for strings where the scan reads strings, and for an index of 16 bits for each field.
-/

namespace LateBinding

namespace Module

/-! ## Symbols -/

/-- The symbol of a marker, if the marker is of the kind. -/
def symbolOf? (m : Module) (kind : String) (marker : Marker) : Option String :=
  match m.resolve marker with
  | .ok (found, symbol) => if found = kind then some symbol else none
  | .error _ => none

/-- The symbols of the markers of the kind that a field carries, in order. -/
def symbols (m : Module) (kind : String) (field : Field) : List String :=
  field.markers.filterMap (m.symbolOf? kind)

/-- The symbol of the last marker of the kind on the field at `index`. A field has one exactly
when it carries a marker of the kind. -/
def symbol? (m : Module) (kind : String) (index : UInt16) : Option String :=
  m.fields[index.toNat]?.bind fun field => (m.symbols kind field).getLast?

/-! ## Injection points -/

/-- The injection point that `symbol` makes of the field at `index`. -/
def point (m : Module) (field : Field) (index : UInt16) (symbol : String) : InjectionPoint :=
  { owner := m.pool.text m.name, fieldIndex := index, slot := m.pool.text field.name, symbol }

/-- The injection points of the kind, in the order of the fields and then of their markers. -/
def points (m : Module) (kind : String) : List InjectionPoint :=
  m.fields.toList.zipIdx.flatMap fun (field, index) =>
    (m.symbols kind field).map (m.point field (UInt16.ofNat index))

/-- A field whose markers, and whose name if it is an injection point, are strings. -/
def ScannableField (m : Module) (kind : String) (field : Field) : Prop :=
  m.NamesMarkers field.markers ∧ (m.symbols kind field ≠ [] → m.pool.IsString field.name)

/-- A module whose injection points can be listed. -/
structure Scannable (m : Module) (kind : String) : Prop where
  name : m.pool.IsString m.name
  size : m.fields.size ≤ UInt16.size
  field : ∀ field ∈ m.fields, m.ScannableField kind field

theorem Consistent.scannable {m : Module} (h : m.Consistent) (kind : String)
    (hsize : m.fields.size ≤ UInt16.size) : m.Scannable kind :=
  ⟨h.name, hsize, fun field hfield => ⟨(h.field field hfield).2, fun _ => (h.field field hfield).1⟩⟩

/-! ## The scan -/

theorem pointOf_eq_ok {m : Module} {kind : String} {index : UInt16} {field : Field}
    {marker : Marker} {found : Option InjectionPoint} :
    m.pointOf kind (m.pool.text m.name) index field marker = .ok found ↔
      ((m.pool.IsString marker.kind ∧ m.pool.IsString marker.value) ∧
        ((m.symbolOf? kind marker).isSome → m.pool.IsString field.name)) ∧
      found = (m.symbolOf? kind marker).map (m.point field index) := by
  simp only [pointOf, Except.bind_eq_ok]
  constructor
  · rintro ⟨⟨k, symbol⟩, hmarker, h⟩
    obtain ⟨hkind, hvalue⟩ := resolve_eq_ok.1 hmarker
    simp only [symbolOf?, hmarker]
    split at h
    · next heq =>
        obtain ⟨slot, hslot, h⟩ := Except.bind_eq_ok.1 h
        obtain rfl := Except.pure_eq_ok.1 h
        refine ⟨⟨⟨⟨_, hkind⟩, ⟨_, hvalue⟩⟩, fun _ => ⟨slot, hslot⟩⟩, ?_⟩
        rw [if_pos heq, Option.map_some, point, Pool.text_of_string hslot]
    · next hne =>
        obtain rfl := Except.pure_eq_ok.1 h
        refine ⟨⟨⟨⟨_, hkind⟩, ⟨_, hvalue⟩⟩, ?_⟩, ?_⟩
        · simp [hne]
        · rw [if_neg hne, Option.map_none]
  · rintro ⟨⟨⟨⟨k, hkind⟩, ⟨symbol, hvalue⟩⟩, hname⟩, rfl⟩
    have hmarker := resolve_eq_ok.2 ⟨hkind, hvalue⟩
    refine ⟨(k, symbol), hmarker, ?_⟩
    simp only [symbolOf?, hmarker] at hname ⊢
    split
    · next heq =>
        have hslot := Pool.isString_iff.1 (hname (by rw [if_pos heq]; rfl))
        rw [hslot]
        rfl
    · next hne => rfl

theorem pointsOf_eq_ok {m : Module} {kind : String} {index : UInt16} {field : Field}
    {markers : List Marker} {found : List InjectionPoint} :
    m.pointsOf kind (m.pool.text m.name) index field markers = .ok found ↔
      (m.NamesMarkers markers ∧
        (markers.filterMap (m.symbolOf? kind) ≠ [] → m.pool.IsString field.name)) ∧
      found = (markers.filterMap (m.symbolOf? kind)).map (m.point field index) := by
  induction markers generalizing found with
  | nil => simp [pointsOf, NamesMarkers, eq_comm]
  | cons marker markers ih =>
      have hsplit : m.NamesMarkers (marker :: markers) ↔
          (m.pool.IsString marker.kind ∧ m.pool.IsString marker.value) ∧
            m.NamesMarkers markers := List.forall_mem_cons
      simp only [pointsOf, Except.bind_eq_ok, Except.pure_eq_ok, pointOf_eq_ok, ih, hsplit]
      rw [List.filterMap_cons]
      cases m.symbolOf? kind marker with
      | none =>
          constructor
          · rintro ⟨_, ⟨⟨hmarker, -⟩, rfl⟩, _, ⟨⟨hmarkers, hname⟩, rfl⟩, rfl⟩
            exact ⟨⟨⟨hmarker, hmarkers⟩, hname⟩, rfl⟩
          · rintro ⟨⟨⟨hmarker, hmarkers⟩, hname⟩, rfl⟩
            exact ⟨_, ⟨⟨hmarker, by simp⟩, rfl⟩, _, ⟨⟨hmarkers, hname⟩, rfl⟩, rfl⟩
      | some symbol =>
          constructor
          · rintro ⟨_, ⟨⟨hmarker, hname⟩, rfl⟩, _, ⟨⟨hmarkers, -⟩, rfl⟩, rfl⟩
            exact ⟨⟨⟨hmarker, hmarkers⟩, fun _ => hname rfl⟩, rfl⟩
          · rintro ⟨⟨⟨hmarker, hmarkers⟩, hname⟩, rfl⟩
            have hstring := hname (by simp)
            exact ⟨_, ⟨⟨hmarker, fun _ => hstring⟩, rfl⟩, _, ⟨⟨hmarkers, fun _ => hstring⟩, rfl⟩,
              rfl⟩

theorem fieldPoints_eq_ok {m : Module} {kind : String} {field : Field} {index : Nat}
    {found : List InjectionPoint} :
    m.fieldPoints kind (m.pool.text m.name) field index = .ok found ↔
      (index < UInt16.size ∧ m.ScannableField kind field) ∧
      found = (m.symbols kind field).map (m.point field (UInt16.ofNat index)) := by
  unfold fieldPoints
  split
  · next hlt =>
      rw [orFormat_eq_ok, pointsOf_eq_ok]
      exact and_congr_left fun _ => (and_iff_right hlt).symm
  · next hge => simp [hge]

/-- The fields of a table and their indices are good when the fields are and the table is
short enough. -/
theorem forall_mem_zipIdx {α : Type} {items : List α} {limit : Nat} {good : α → Prop} :
    (∀ x ∈ items.zipIdx, x.2 < limit ∧ good x.1) ↔
      items.length ≤ limit ∧ ∀ item ∈ items, good item := by
  have hindex : (∀ x ∈ items.zipIdx, x.2 < limit) ↔ items.length ≤ limit := by
    rw [← List.forall_mem_map (P := (· < limit)), List.zipIdx_map_snd]
    simp only [List.mem_range'_1]
    constructor
    · intro h
      exact Nat.le_of_not_lt fun hlt => Nat.lt_irrefl limit (h limit (by omega))
    · intro h i hi
      omega
  have hgood : (∀ x ∈ items.zipIdx, good x.1) ↔ ∀ item ∈ items, good item := by
    rw [← List.forall_mem_map (P := good), List.zipIdx_map_fst]
  rw [← hindex, ← hgood]
  exact ⟨fun h => ⟨fun x hx => (h x hx).1, fun x hx => (h x hx).2⟩,
    fun ⟨h, h'⟩ x hx => ⟨h x hx, h' x hx⟩⟩

/-- A scan finds the injection points, provided that it can read the strings it needs. -/
theorem scan_eq_ok {m : Module} {kind : String} {found : List InjectionPoint} :
    m.scan kind = .ok found ↔ m.Scannable kind ∧ found = m.points kind := by
  have hmapM {lists : List (List InjectionPoint)} :
      (m.fields.toList.zipIdx.mapM fun (field, index) =>
        m.fieldPoints kind (m.pool.text m.name) field index) = .ok lists ↔ _ :=
    Except.mapM_eq_ok (p := fun x => x.2 < UInt16.size ∧ m.ScannableField kind x.1)
      (g := fun x => (m.symbols kind x.1).map (m.point x.1 (UInt16.ofNat x.2)))
      (fun x found => fieldPoints_eq_ok)
  simp only [scan, Except.bind_eq_ok, Except.pure_eq_ok, orFormat_eq_ok, title]
  constructor
  · rintro ⟨owner, hname, lists, hlists, rfl⟩
    rw [← Pool.text_of_string hname] at hlists
    obtain ⟨hfields, rfl⟩ := hmapM.1 hlists
    obtain ⟨hsize, hfields⟩ := forall_mem_zipIdx.1 hfields
    exact ⟨⟨⟨owner, hname⟩, hsize, by simpa using hfields⟩, rfl⟩
  · rintro ⟨h, rfl⟩
    refine ⟨_, Pool.isString_iff.1 h.name, _, hmapM.2 ⟨?_, rfl⟩, rfl⟩
    exact forall_mem_zipIdx.2 ⟨h.size, by simpa using h.field⟩

end Module

end LateBinding
