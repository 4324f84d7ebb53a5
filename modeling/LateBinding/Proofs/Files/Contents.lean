import LateBinding.Files.Volume
import Mathlib.Data.List.Basic

set_option autoImplicit false

/-! # What a volume has at its places

A volume is looked at place by place: what kind of thing is there (`Volume.kind?`) and, of a file,
what it holds (`Volume.content?`). Of a directory the kind has the names only. Two volumes that have
things of the same kinds everywhere are `Alike`; then only the contents of files differ.

A new file in the place of another changes one content and nothing else (`Volume.overwrites_put`).
-/

namespace LateBinding

open Codec (Bytes)

/-- What something is, without what is in it. -/
inductive Kind where
  | directory (names : List String)
  | file
  | link (target : String)
  deriving DecidableEq

namespace Node

def kind : Node → Kind
  | directory entries => .directory (entries.map Prod.fst)
  | file _ => .file
  | link target => .link target

/-- What a file holds. -/
def content? : Node → Option Bytes
  | file content => some content
  | directory _ | link _ => none

variable {node old new : Node} {entries : List (String × Node)} {name : String} {place : Place}
  {content : Bytes}

/-! ## Entries -/

theorem at?_append (node : Node) (place place' : Place) :
    node.at? (place ++ place') = (node.at? place).bind (·.at? place') := by
  induction place generalizing node with
  | nil => rfl
  | cons name rest ih =>
      rw [List.cons_append, at?, at?]
      cases node.entries.lookup name with
      | none => rfl
      | some inner => exact ih inner

theorem at?_directory_cons :
    (directory entries).at? (name :: place) = (entries.lookup name).bind (·.at? place) := by
  rw [at?, Node.entries]
  cases entries.lookup name with
  | none => rfl
  | some inner => rfl

theorem lookup_cons_eq (first other : String) (node : Node) (rest : List (String × Node)) :
    ((first, node) :: rest).lookup other =
      if other = first then some node else rest.lookup other := by
  rw [List.lookup_cons]
  by_cases h : other = first
  · rw [if_pos h, h, beq_self_eq_true]
  · rw [if_neg h, beq_false_of_ne h]

theorem lookup_setEntry (entries : List (String × Node)) (name other : String) (node : Node) :
    (setEntry entries name node).lookup other =
      if other = name then some node else entries.lookup other := by
  induction entries with
  | nil => exact lookup_cons_eq name other node []
  | cons entry rest ih =>
      obtain ⟨first, old⟩ := entry
      rw [setEntry]
      by_cases hfirst : first = name
      · rw [if_pos hfirst, lookup_cons_eq, lookup_cons_eq, hfirst]
        split
        · rfl
        · rfl
      · rw [if_neg hfirst, lookup_cons_eq, lookup_cons_eq, ih]
        by_cases h : other = first
        · rw [if_pos h, if_pos h, if_neg (h ▸ hfirst)]
        · rw [if_neg h, if_neg h]

/-- An entry in the place of another has its name. -/
theorem map_fst_setEntry (h : entries.lookup name = some old) :
    (setEntry entries name new).map Prod.fst = entries.map Prod.fst := by
  induction entries with
  | nil => cases h
  | cons entry rest ih =>
      obtain ⟨first, inner⟩ := entry
      rw [setEntry]
      by_cases hfirst : first = name
      · rw [if_pos hfirst, List.map_cons, List.map_cons, hfirst]
      · have hrest : rest.lookup name = some old := by
          rwa [lookup_cons_eq, if_neg (Ne.symm hfirst)] at h
        rw [if_neg hfirst, List.map_cons, List.map_cons, ih hrest]

theorem isSome_lookup_iff : (entries.lookup name).isSome ↔ name ∈ entries.map Prod.fst := by
  induction entries with
  | nil => simp
  | cons entry rest ih =>
      obtain ⟨first, inner⟩ := entry
      rw [lookup_cons_eq, List.map_cons, List.mem_cons]
      by_cases h : name = first
      · simp [h]
      · rw [if_neg h, ih, or_iff_right h]

/-- Where no two entries have the same name, each is found by its name. -/
theorem lookup_of_mem (hnodup : (entries.map Prod.fst).Nodup) (h : (name, node) ∈ entries) :
    entries.lookup name = some node := by
  induction entries with
  | nil => cases h
  | cons entry rest ih =>
      obtain ⟨first, inner⟩ := entry
      obtain ⟨hfirst, hrest⟩ := List.nodup_cons.1 hnodup
      rw [lookup_cons_eq]
      rcases List.mem_cons.1 h with heq | hlater
      · cases heq
        exact if_pos rfl
      · have hne : name ≠ first := by
          rintro rfl
          have hmem : (name, node).1 ∈ rest.map Prod.fst := List.mem_map_of_mem hlater
          exact hfirst hmem
        rw [if_neg hne, ih hrest hlater]

/-! ## A file in the place of another -/

/-- The content at one place is a new one, and nothing else differs. -/
structure Overwrites (place : Place) (content : Bytes) (before after : Node) : Prop where
  kind : ∀ other, (after.at? other).map Node.kind = (before.at? other).map Node.kind
  content : ∀ other, (after.at? other).bind content? =
    if other = place then some content else (before.at? other).bind content?

theorem overwrites_file (content content' : Bytes) :
    Overwrites [] content' (file content) (file content') := by
  constructor
  · rintro (_ | ⟨name, rest⟩)
    · rfl
    · rfl
  · rintro (_ | ⟨name, rest⟩)
    · rfl
    · rfl

theorem Overwrites.setEntry (h : entries.lookup name = some old)
    (hentry : Overwrites place content old new) :
    Overwrites (name :: place) content (directory entries)
      (directory (setEntry entries name new)) := by
  constructor
  · rintro (_ | ⟨other, rest⟩)
    · exact congrArg (some ∘ Kind.directory) (map_fst_setEntry h)
    · rw [at?_directory_cons, at?_directory_cons, lookup_setEntry]
      by_cases hother : other = name
      · rw [if_pos hother, hother, h]
        exact hentry.kind rest
      · rw [if_neg hother]
  · rintro (_ | ⟨other, rest⟩)
    · rfl
    · rw [at?_directory_cons, at?_directory_cons, lookup_setEntry]
      by_cases hother : other = name
      · rw [if_pos hother, hother, h]
        simpa only [List.cons.injEq, true_and, Option.bind_some] using hentry.content rest
      · rw [if_neg hother, if_neg (by simp [hother])]

theorem overwrites_putIn {content' : Bytes}
    (h : (directory entries).at? (name :: place) = some (file content')) :
    Overwrites (name :: place) content (directory entries)
      (directory (putIn (file content) entries (name :: place))) := by
  induction place generalizing entries name with
  | nil =>
      rw [at?_directory_cons, Option.bind_eq_some_iff] at h
      obtain ⟨old, hold, rfl⟩ := by simpa only [at?, Option.some.injEq] using h
      exact (overwrites_file content' content).setEntry hold
  | cons next rest ih =>
      rw [at?_directory_cons, Option.bind_eq_some_iff] at h
      obtain ⟨old, hold, h⟩ := h
      cases old with
      | file _ => cases h
      | link _ => cases h
      | directory inner =>
          rw [putIn.eq_def]
          simp only [hold]
          exact (ih h).setEntry hold

end Node

namespace Volume

variable {v w u : Volume} {place other : Place} {content : Bytes}

/-- What kind of thing is at a place. -/
def kind? (v : Volume) (place : Place) : Option Kind := (v.node? place).map Node.kind

/-- What the file at a place holds. -/
def content? (v : Volume) (place : Place) : Option Bytes := (v.node? place).bind Node.content?

theorem kind?_eq_file :
    v.kind? place = some .file ↔ ∃ content, v.content? place = some content := by
  unfold kind? content?
  cases v.node? place with
  | none => simp
  | some node => cases node <;> simp [Node.kind, Node.content?]

theorem node?_of_content? (h : v.content? place = some content) :
    v.node? place = some (.file content) := by
  obtain ⟨node, hnode, hcontent⟩ := Option.bind_eq_some_iff.1 h
  cases node with
  | file found =>
      cases hcontent
      exact hnode
  | directory _ | link _ => cases hcontent

/-- A directory of that kind has entries of those names. -/
theorem exists_entries {names : List String} (h : v.kind? place = some (.directory names)) :
    ∃ entries, v.node? place = some (.directory entries) ∧ entries.map Prod.fst = names := by
  obtain ⟨node, hnode, hkind⟩ := Option.map_eq_some_iff.1 h
  cases node with
  | directory entries =>
      cases hkind
      exact ⟨entries, hnode, rfl⟩
  | file _ | link _ => cases hkind

theorem hasDirectory_iff : v.hasDirectory place ↔ ∃ entries, v.node? place =
    some (.directory entries) := by
  unfold hasDirectory
  cases v.node? place with
  | none => simp
  | some node => cases node <;> simp [Node.isDirectory]

theorem hasDirectory_of_kind? {names : List String} (h : v.kind? place = some (.directory names)) :
    v.hasDirectory place := by
  obtain ⟨entries, hnode, -⟩ := exists_entries h
  exact hasDirectory_iff.2 ⟨entries, hnode⟩

theorem kind?_of_hasDirectory (h : v.hasDirectory place) :
    ∃ names, v.kind? place = some (.directory names) := by
  obtain ⟨entries, hnode⟩ := hasDirectory_iff.1 h
  exact ⟨_, congrArg (Option.map Node.kind) hnode⟩

theorem node?_of_kind?_link {target : String} (h : v.kind? place = some (.link target)) :
    v.node? place = some (.link target) := by
  obtain ⟨node, hnode, hkind⟩ := Option.map_eq_some_iff.1 h
  cases node with
  | link found =>
      cases hkind
      exact hnode
  | directory _ | file _ => cases hkind

theorem node?_append (v : Volume) (place rest : Place) :
    v.node? (place ++ rest) = (v.node? place).bind (·.at? rest) :=
  Node.at?_append _ place rest

/-- What is below a directory is below one of its entries. -/
theorem kind?_append_cons {entries : List (String × Node)} {name : String} {rest : Place}
    (h : v.node? place = some (.directory entries)) :
    v.kind? (place ++ name :: rest) =
      (entries.lookup name).bind fun node => (node.at? rest).map Node.kind := by
  rw [kind?, node?_append, h, Option.bind_some, Node.at?_directory_cons]
  cases entries.lookup name with
  | none => rfl
  | some node => rfl

/-! ## Volumes with the same places -/

/-- There are things of the same kinds at the same places. -/
def Alike (v w : Volume) : Prop := ∀ place, w.kind? place = v.kind? place

theorem Alike.refl (v : Volume) : v.Alike v := fun _ => rfl

theorem Alike.trans (h : v.Alike w) (h' : w.Alike u) : v.Alike u :=
  fun place => (h' place).trans (h place)

theorem Alike.hasDirectory (h : v.Alike w) (hplace : v.hasDirectory place) :
    w.hasDirectory place := by
  obtain ⟨names, hnames⟩ := kind?_of_hasDirectory hplace
  exact hasDirectory_of_kind? ((h place).trans hnames)

/-- One file holds something else, and nothing else differs. -/
structure Overwrites (v : Volume) (place : Place) (content : Bytes) (w : Volume) : Prop where
  alike : v.Alike w
  content : ∀ other, w.content? other = if other = place then some content else v.content? other

/-- A file may be overwritten with what it holds. -/
theorem Overwrites.refl (h : v.content? place = some content) : v.Overwrites place content v := by
  refine ⟨.refl v, ?_⟩
  intro other
  split
  · next heq => rw [heq, h]
  · rfl

/-- **Putting a file in the place of another changes what is in it**, and nothing else. -/
theorem overwrites_put (h : v.kind? place = some .file) (content : Bytes) :
    v.Overwrites place content (v.put place (.file content)) := by
  obtain ⟨old, hold⟩ := kind?_eq_file.1 h
  have hold := node?_of_content? hold
  cases place with
  | nil => cases hold
  | cons name rest =>
      have hover : Node.Overwrites (name :: rest) content (.directory v.root)
          (.directory ((Node.file content).putIn v.root (name :: rest))) :=
        Node.overwrites_putIn hold
      exact ⟨hover.kind, hover.content⟩

end Volume

end LateBinding
