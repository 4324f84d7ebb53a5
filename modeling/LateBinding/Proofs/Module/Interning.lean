import LateBinding.Proofs.Module.Consistency

set_option autoImplicit false

/-! # Interning strings

A string is interned by looking it up in the pool and appending it where it is not there. So the
pool only grows at its end, and what was read at an index is read there afterwards
(`Pool.GrowsTo`); where all its constants are different strings, they stay so. `intern_spec` is all
that can happen: the string stands at the index that is answered, or the pool is full.
-/

namespace LateBinding.Pool

/-! ## Looking strings up -/

theorem string_of_find? {pool : Pool} {text : String} {index : UInt16}
    (h : pool.find? text = some index) : pool.string index = .ok text := by
  unfold find? at h
  split at h
  · next position hposition =>
      split at h
      · next hlt =>
          cases h
          obtain ⟨hbound, hfound, -⟩ := Array.findIdx?_eq_some_iff_getElem.1 hposition
          have hindex : (UInt16.ofNat position).toNat = position := UInt16.toNat_ofNat_of_lt' hlt
          rw [string_eq_ok, get?, hindex, Array.getElem?_eq_getElem hbound]
          cases hconstant : pool.entries[position] with
          | str found =>
              rw [hconstant] at hfound
              rw [eq_of_beq hfound]
          | int value =>
              rw [hconstant] at hfound
              cases hfound
      · cases h
  · cases h

theorem find?_isSome {pool : Pool} {text : String} (h : pool.Holds text) :
    (pool.find? text).isSome := by
  obtain ⟨index, hindex⟩ := h
  rw [string_eq_ok, get?, Array.getElem?_eq_some_iff] at hindex
  obtain ⟨hbound, hconstant⟩ := hindex
  have hfound : Constant.isString text pool.entries[index.toNat] = true := by
    rw [hconstant]
    exact beq_self_eq_true text
  unfold find?
  split
  · next position hposition =>
      -- the least index is not above the one that is known, so 16 bits express it
      obtain ⟨_, -, hleast⟩ := Array.findIdx?_eq_some_iff_getElem.1 hposition
      have hle : position ≤ index.toNat :=
        Nat.le_of_not_lt fun hlt => hleast index.toNat hlt hfound
      have hlt : position < capacity := Nat.lt_of_le_of_lt hle index.toNat_lt
      rw [if_pos hlt]
      rfl
  · next hnone =>
      have hnot := Array.findIdx?_eq_none_iff.1 hnone _ (Array.getElem_mem hbound)
      rw [hfound] at hnot
      cases hnot

/-- The index is the first in the pool that holds the string. -/
structure First (pool : Pool) (text : String) (index : UInt16) : Prop where
  holds : pool.string index = .ok text
  least : ∀ before < index, pool.string before ≠ .ok text

theorem first_of_find? {pool : Pool} {text : String} {index : UInt16}
    (h : pool.find? text = some index) : pool.First text index := by
  refine ⟨string_of_find? h, ?_⟩
  intro before hlt hbefore
  unfold find? at h
  split at h
  · next position hposition =>
      split at h
      · next hcapacity =>
          cases h
          obtain ⟨_, -, hleast⟩ := Array.findIdx?_eq_some_iff_getElem.1 hposition
          have hposition : before.toNat < position := by
            rw [UInt16.lt_iff_toNat_lt, UInt16.toNat_ofNat_of_lt' hcapacity] at hlt
            exact hlt
          rw [string_eq_ok, get?, Array.getElem?_eq_some_iff] at hbefore
          obtain ⟨_, hconstant⟩ := hbefore
          refine hleast before.toNat hposition ?_
          rw [hconstant]
          exact beq_self_eq_true text
      · cases h
  · cases h

/-- Interning a string that stands in the pool leaves the pool as it is. -/
theorem intern_of_find? {pool : Pool} {text : String} {index : UInt16}
    (h : pool.find? text = some index) : pool.intern text = .ok (index, pool) := by
  rw [intern, h]

/-! ## Growing -/

variable {pool pool₁ pool' : Pool} {text : String} {index : UInt16}

/-- The constants of the pool are strings, no two of them the same. -/
def Distinct (pool : Pool) : Prop :=
  ∃ texts : List String, texts.Nodup ∧ pool.entries.toList = texts.map .str

/-- The pool with constants appended. -/
def extend (pool : Pool) (more : Array Constant) : Pool := ⟨pool.entries ++ more⟩

theorem size_extend (pool : Pool) (more : Array Constant) :
    (pool.extend more).size = pool.size + more.size := Array.size_append

/-- What was read at an index is read there still. -/
theorem string_extend (h : pool.string index = .ok text) (more : Array Constant) :
    (pool.extend more).string index = .ok text := by
  rw [string_eq_ok, get?] at h ⊢
  obtain ⟨hlt, -⟩ := Array.getElem?_eq_some_iff.1 h
  rw [extend, Array.getElem?_append_left hlt, h]

/-- The pool with strings appended. -/
def append (pool : Pool) (texts : List String) : Pool :=
  ⟨pool.entries ++ (texts.map Constant.str).toArray⟩

theorem append_nil (pool : Pool) : pool.append [] = pool := by
  rw [append, List.map_nil, Array.append_empty]

theorem append_append (pool : Pool) (texts more : List String) :
    (pool.append texts).append more = pool.append (texts ++ more) := by
  simp only [append, List.map_append, Array.append_assoc, List.append_toArray]

/-- From the earlier to the later pool, strings have been appended that were not there, no more than
there are indices for. -/
structure GrowsTo (pool pool' : Pool) : Prop where
  appended : ∃ texts, pool' = pool.append texts
  distinct : pool.Distinct → pool'.Distinct
  fits : pool.size ≤ capacity → pool'.size ≤ capacity

namespace GrowsTo

theorem refl (pool : Pool) : pool.GrowsTo pool :=
  ⟨⟨[], (append_nil pool).symm⟩, fun h => h, fun h => h⟩

theorem trans (h : pool.GrowsTo pool₁) (h' : pool₁.GrowsTo pool') : pool.GrowsTo pool' := by
  obtain ⟨texts, rfl⟩ := h.appended
  obtain ⟨more, rfl⟩ := h'.appended
  exact ⟨⟨texts ++ more, append_append pool texts more⟩, fun hd => h'.distinct (h.distinct hd),
    fun hfits => h'.fits (h.fits hfits)⟩

theorem string (h : pool.GrowsTo pool') (hindex : pool.string index = .ok text) :
    pool'.string index = .ok text := by
  obtain ⟨texts, rfl⟩ := h.appended
  exact string_extend hindex _

end GrowsTo

/-- A string that is not found stands nowhere in a pool that has an index for each constant. -/
theorem notMem_of_find?_eq_none (hfits : pool.size ≤ capacity) (h : pool.find? text = none) :
    .str text ∉ pool.entries := by
  intro hmem
  obtain ⟨position, hlt, hposition⟩ := Array.mem_iff_getElem.1 hmem
  have hbound : position < capacity := Nat.lt_of_lt_of_le hlt hfits
  have hindex : (UInt16.ofNat position).toNat = position := UInt16.toNat_ofNat_of_lt' hbound
  have hholds : pool.Holds text := by
    refine ⟨UInt16.ofNat position, ?_⟩
    rw [string_eq_ok, get?, hindex, Array.getElem?_eq_getElem hlt, hposition]
  have hsome := find?_isSome hholds
  rw [h] at hsome
  cases hsome

theorem find?_eq_none (h : .str text ∉ pool.entries) : pool.find? text = none := by
  cases hfind : pool.find? text with
  | none => rfl
  | some index =>
      have hindex := string_of_find? hfind
      rw [string_eq_ok, get?] at hindex
      exact absurd (Array.mem_of_getElem? hindex) h

theorem find?_singleton (text : String) : (append {} [text]).find? text = some 0 := by
  simp [append, find?, Constant.isString, capacity]

/-- A string that is not there is appended. -/
theorem intern_of_notFound (hroom : pool.size < capacity) (h : pool.find? text = none) :
    pool.intern text = .ok (UInt16.ofNat pool.size, pool.append [text]) := by
  rw [intern, h]
  simp only [push, if_pos hroom]
  rfl

theorem growsTo_append (hroom : pool.size < capacity) (h : pool.find? text = none) :
    pool.GrowsTo (pool.append [text]) := by
  have hnew := notMem_of_find?_eq_none (Nat.le_of_lt hroom) h
  refine ⟨⟨[text], rfl⟩, ?_, ?_⟩
  · rintro ⟨texts, hnodup, htexts⟩
    refine ⟨texts ++ [text], ?_, ?_⟩
    · have hfresh : text ∉ texts := by
        intro hmem
        rw [← Array.mem_toList_iff, htexts] at hnew
        exact hnew (List.mem_map_of_mem hmem)
      simpa [List.nodup_append] using ⟨hnodup, fun other hother heq => hfresh (heq ▸ hother)⟩
    · rw [append, Array.toList_append, htexts, List.map_append]
  · intro _
    simp only [size, append, Array.size_append] at hroom ⊢
    exact hroom

/-- Interning a string answers with an index at which it stands, or the pool is full. -/
theorem intern_spec (pool : Pool) (text : String) :
    (∃ index pool', pool.intern text = .ok (index, pool') ∧ pool.GrowsTo pool' ∧
      pool'.string index = .ok text) ∨
    pool.intern text = .error .full := by
  cases hfind : pool.find? text with
  | some index =>
      exact .inl ⟨index, pool, intern_of_find? hfind, .refl pool, string_of_find? hfind⟩
  | none =>
      by_cases hroom : pool.size < capacity
      · refine .inl ⟨_, _, intern_of_notFound hroom hfind, growsTo_append hroom hfind, ?_⟩
        have hindex : (UInt16.ofNat pool.size).toNat = pool.entries.size :=
          UInt16.toNat_ofNat_of_lt' hroom
        rw [string_eq_ok, get?, hindex, append, Array.getElem?_append_right (Nat.le_refl _),
          Nat.sub_self]
        rfl
      · refine .inr ?_
        rw [intern, hfind]
        simp only [push, if_neg hroom]

theorem growsTo_of_intern (h : pool.intern text = .ok (index, pool')) :
    pool.GrowsTo pool' ∧ pool'.string index = .ok text := by
  rcases intern_spec pool text with ⟨_, _, hintern, hgrows, hholds⟩ | hfull
  · rw [h] at hintern
    cases hintern
    exact ⟨hgrows, hholds⟩
  · rw [h] at hfull
    cases hfull

end LateBinding.Pool
