import LateBinding.Registry.Basic
import Mathlib.Data.List.Dedup

set_option autoImplicit false

/-! # A registry as a map from names to entries

* `find?_insert`: after an insertion, the name of the new entry leads to it, and every other name
  to what it led to before.
* `Ascending`: the names ascend strictly in the order of their bytes. An empty registry is so, and
  an insertion keeps it, so no name stands in a registry twice.
-/

namespace LateBinding

open Text (utf8)

namespace Registry

variable {registry : Registry} {entry : Entry} {name : String}

/-! ## Insertions -/

theorem find?_place (entry : Entry) (entries : List Entry) (name : String) :
    (place entry entries).find? (·.name = name) =
      if entry.name = name then some entry else entries.find? (·.name = name) := by
  induction entries with
  | nil =>
      by_cases h : entry.name = name
      · simp only [place, List.find?_cons, h, decide_true, if_true]
      · simp only [place, List.find?_cons, h, decide_false, if_false]
  | cons other rest ih =>
      by_cases hsame : other.name = entry.name
      · rw [place, if_pos hsame, List.find?_cons, List.find?_cons, hsame]
        by_cases h : entry.name = name
        · simp only [h, decide_true, if_true]
        · simp only [h, decide_false, if_false]
      · rw [place, if_neg hsame]
        by_cases hle : Text.byteLe entry.name other.name
        · rw [if_pos hle, List.find?_cons]
          by_cases h : entry.name = name
          · simp only [h, decide_true, if_true]
          · simp only [h, decide_false, if_false]
        · rw [if_neg hle, List.find?_cons, List.find?_cons]
          by_cases hother : other.name = name
          · have h : entry.name ≠ name := fun h => hsame (hother.trans h.symm)
            simp only [hother, decide_true, if_neg h]
          · simp only [hother, decide_false, ih]

/-- An insertion changes what is known under one name. -/
theorem find?_insert (registry : Registry) (entry : Entry) (name : String) :
    (registry.insert entry).find? name =
      if entry.name = name then some entry else registry.find? name :=
  find?_place entry registry.entries name

theorem find?_empty (name : String) : ({} : Registry).find? name = none := rfl

/-! ## Names -/

/-- The names that a registry lists are those that it knows. -/
theorem mem_names : name ∈ registry.names ↔ registry.contains name := by
  rw [contains, find?, List.find?_isSome, names, List.mem_map]
  simp only [decide_eq_true_eq]

theorem size_eq_length_names (registry : Registry) : registry.size = registry.names.length := by
  rw [size, names, List.length_map]

theorem isEmpty_iff : registry.isEmpty ↔ ∀ name, registry.contains name = false := by
  rw [isEmpty, List.isEmpty_iff]
  constructor
  · intro h name
    rw [contains, find?, h]
    rfl
  · intro h
    have hnames : registry.names = [] :=
      List.eq_nil_iff_forall_not_mem.2 fun name hname =>
        Bool.false_ne_true ((h name).symm.trans (mem_names.1 hname))
    exact List.map_eq_nil_iff.1 hnames

/-- The names ascend strictly in the order of their bytes. -/
def Ascending (registry : Registry) : Prop :=
  registry.names.Pairwise fun a b => utf8 a < utf8 b

theorem mem_place {other : Entry} {entries : List Entry}
    (h : other ∈ place entry entries) : other = entry ∨ other ∈ entries := by
  induction entries with
  | nil => exact .inl (List.mem_singleton.1 h)
  | cons first rest ih =>
      unfold place at h
      split at h
      · exact (List.mem_cons.1 h).imp_right (List.mem_cons_of_mem first)
      · split at h
        · exact List.mem_cons.1 h
        · rcases List.mem_cons.1 h with rfl | h
          · exact .inr (List.mem_cons_self ..)
          · exact (ih h).imp_right (List.mem_cons_of_mem first)

theorem ascending_empty : ({} : Registry).Ascending := List.Pairwise.nil

theorem pairwise_place {entries : List Entry}
    (h : entries.Pairwise fun a b => utf8 a.name < utf8 b.name) :
    (place entry entries).Pairwise fun a b => utf8 a.name < utf8 b.name := by
  induction entries with
  | nil => exact List.pairwise_singleton _ _
  | cons other rest ih =>
      obtain ⟨hfirst, hrest⟩ := List.pairwise_cons.1 h
      unfold place
      split
      · next hsame => exact List.pairwise_cons.2 ⟨hsame ▸ hfirst, hrest⟩
      · next hdiffers =>
          split
          · next hle =>
              have hlt : utf8 entry.name < utf8 other.name :=
                Text.lt_of_byteLe hle (Ne.symm hdiffers)
              refine List.pairwise_cons.2 ⟨?_, h⟩
              intro later hlater
              rcases List.mem_cons.1 hlater with rfl | hlater
              · exact hlt
              · exact List.lt_trans hlt (hfirst later hlater)
          · next hgt =>
              have hlt : utf8 other.name < utf8 entry.name :=
                List.not_le.1 fun hle => hgt (decide_eq_true hle)
              refine List.pairwise_cons.2 ⟨?_, ih hrest⟩
              intro later hlater
              rcases mem_place hlater with rfl | hlater
              · exact hlt
              · exact hfirst later hlater

/-- An insertion keeps the order of the names. -/
theorem Ascending.insert (h : registry.Ascending) (entry : Entry) :
    (registry.insert entry).Ascending := by
  unfold Ascending names at h ⊢
  rw [List.pairwise_map] at h ⊢
  exact pairwise_place h

theorem Ascending.nodup (h : registry.Ascending) : registry.names.Nodup := by
  refine List.Pairwise.imp ?_ h
  rintro a _ hlt rfl
  exact List.lt_irrefl _ hlt

/-- The size of a registry is the number of different names among those that make it up. -/
theorem Ascending.size_eq (h : registry.Ascending) {names : List String}
    (hnames : ∀ name, registry.contains name ↔ name ∈ names) :
    registry.size = names.dedup.length := by
  rw [size_eq_length_names]
  refine List.Perm.length_eq ((List.perm_ext_iff_of_nodup h.nodup names.nodup_dedup).2 ?_)
  intro name
  rw [mem_names, hnames, List.mem_dedup]

end Registry

end LateBinding
