import LateBinding.Files.Walk
import LateBinding.Proofs.Files.Following

set_option autoImplicit false

/-! # What a walk visits

In a tree without links (`Volume.Plain`) a walk visits every file once, in the order of the places
(`Place.Precedes`), as long as it is not over and its visits change nothing but the contents of
files. `Walk.exists_run` says so without any trace of the recursion: a walk is a single loop over a
list of places that the volume determines.

The proof is by induction on the depth to which a walk goes. The files of a directory are those of
its entries, in the order of the entries; that the depth never runs out is because path names grow
with every level and may not grow too long.
-/

namespace LateBinding

open Text (utf8 byteLe)

/-- The order in which a walk comes to places: by the first name in which they differ. -/
def Place.Precedes (a b : Place) : Prop := List.Lex (fun x y => utf8 x < utf8 y) a b

theorem Place.precedes_irrefl (a : Place) : ¬ Place.Precedes a a := by
  induction a with
  | nil => exact nofun
  | cons name rest ih =>
      intro h
      cases h with
      | rel hlt => exact List.lt_irrefl _ hlt
      | cons h => exact ih h

/-- The path name of a place below the directory that `path` names. -/
def Path.below (path : String) (rest : Place) : String := rest.foldl Path.join path

namespace Volume

variable {v w : Volume} {base place rest : Place} {path name : String} {names : List String}
  {files : List Place}

/-- A tree of directories and files as file systems have them: the entries of a directory have
proper names, all of them different; nothing is a link; and nothing is so far down that its path
name, from `path` on, leads nowhere. -/
structure Plain (v : Volume) (path : String) (place : Place) : Prop where
  names : ∀ (rest : Place) (names : List String),
    v.kind? (place ++ rest) = some (.directory names) →
      names.Nodup ∧ ∀ name ∈ names, Path.IsName name
  noLink : ∀ (rest : Place) (target : String), v.kind? (place ++ rest) ≠ some (.link target)
  short : ∀ (rest : Place) (kind : Kind),
    v.kind? (place ++ rest) = some kind → pathFault? (Path.below path rest) = none

/-- The path name `root` leads to a directory, and below it is a plain tree. -/
structure Rooted (v : Volume) (base : Place) (root : String) (place : Place) : Prop where
  find : v.find base root = .ok place
  directory : v.hasDirectory place
  plain : v.Plain root place

/-- The files below a directory, each once, in the order of a walk. -/
structure Lists (v : Volume) (place : Place) (files : List Place) : Prop where
  mem : ∀ rest, rest ∈ files ↔ v.kind? (place ++ rest) = some .file
  ordered : files.Pairwise Place.Precedes

/-! ## Entries -/

/-- What a directory has names for is there. -/
theorem kind?_of_mem (h : v.kind? place = some (.directory names)) (hname : name ∈ names) :
    ∃ kind, v.kind? (place ++ [name]) = some kind := by
  obtain ⟨entries, hnode, rfl⟩ := exists_entries h
  obtain ⟨node, hlookup⟩ := Option.isSome_iff_exists.1 (Node.isSome_lookup_iff.2 hname)
  exact ⟨node.kind, by rw [kind?_append_cons hnode, hlookup]; rfl⟩

/-- What is below a directory is below something that the directory has a name for. -/
theorem mem_of_kind? (h : v.kind? place = some (.directory names)) {kind : Kind}
    (hbelow : v.kind? (place ++ name :: rest) = some kind) : name ∈ names := by
  obtain ⟨entries, hnode, rfl⟩ := exists_entries h
  rw [kind?_append_cons hnode] at hbelow
  obtain ⟨node, hlookup, -⟩ := Option.bind_eq_some_iff.1 hbelow
  exact Node.isSome_lookup_iff.1 (Option.isSome_of_mem hlookup)

/-- A volume lists a directory in the order of the names, and under each name what is there. -/
theorem entries_eq (h : v.kind? place = some (.directory names)) (hnodup : names.Nodup) :
    (v.entries place).map Prod.fst = names.mergeSort byteLe ∧
    ∀ name node, (name, node) ∈ v.entries place → v.kind? (place ++ [name]) = some node.kind := by
  obtain ⟨entries, hnode, rfl⟩ := exists_entries h
  have hentries : v.entries place = entries.mergeSort fun a b => byteLe a.1 b.1 := by
    rw [Volume.entries, hnode]
    rfl
  rw [hentries]
  constructor
  · exact List.map_mergeSort (fun _ _ _ _ => rfl)
  · intro name node hentry
    have hlookup := Node.lookup_of_mem hnodup (List.mem_mergeSort.1 hentry)
    rw [kind?_append_cons hnode, hlookup]
    rfl

theorem pathFault?_eq_none (h : pathFault? path = none) :
    path ≠ "" ∧ path.utf8ByteSize ≤ Path.lengthLimit := by
  unfold pathFault? at h
  split at h
  · cases h
  · next hne =>
      split at h
      · cases h
      · split at h
        · cases h
        · next hsize => exact ⟨hne, Nat.le_of_not_lt hsize⟩

/-! ## The files of a directory -/

theorem Plain.inside (h : v.Plain path place) (name : String) :
    v.Plain (Path.join path name) (place ++ [name]) := by
  constructor
  · intro rest names hkind
    rw [List.append_assoc] at hkind
    exact h.names _ names hkind
  · intro rest target
    rw [List.append_assoc]
    exact h.noLink _ target
  · intro rest kind hkind
    rw [List.append_assoc] at hkind
    exact h.short _ kind hkind

/-- The directory itself has proper names. -/
theorem Plain.proper (h : v.Plain path place) (hkind : v.kind? place = some (.directory names)) :
    names.Nodup ∧ ∀ name ∈ names, Path.IsName name :=
  h.names [] names (by rwa [List.append_nil])

/-- The path name of the directory itself is a good one. -/
theorem Plain.bounds (h : v.Plain path place) (hplace : v.hasDirectory place) :
    path ≠ "" ∧ path.utf8ByteSize ≤ Path.lengthLimit := by
  obtain ⟨names, hkind⟩ := kind?_of_hasDirectory hplace
  exact pathFault?_eq_none (h.short [] (.directory names) (by rwa [List.append_nil]))

/-- Nothing is below a file. -/
theorem kind?_below_file (h : v.kind? place = some .file) (name : String) (rest : Place) :
    v.kind? (place ++ name :: rest) = none := by
  obtain ⟨content, hcontent⟩ := kind?_eq_file.1 h
  rw [kind?, node?_append, node?_of_content? hcontent]
  rfl

/-- A file with a good path name is a plain tree. -/
theorem plain_file (h : v.kind? place = some .file) (hpath : pathFault? path = none) :
    v.Plain path place := by
  have hcases (rest : Place) (kind : Kind) (hkind : v.kind? (place ++ rest) = some kind) :
      rest = [] ∧ kind = .file := by
    cases rest with
    | nil =>
        rw [List.append_nil, h] at hkind
        exact ⟨rfl, (Option.some.inj hkind).symm⟩
    | cons name rest =>
        rw [kind?_below_file h] at hkind
        cases hkind
  constructor
  · intro rest names hkind
    cases (hcases rest _ hkind).2
  · intro rest target hkind
    cases (hcases rest _ hkind).2
  · intro rest kind hkind
    obtain ⟨rfl, -⟩ := hcases rest kind hkind
    exact hpath

/-- A directory with a good path name is a plain tree, if its entries are. -/
theorem plain_directory {entries : List (String × Node)}
    (h : v.node? place = some (.directory entries)) (hpath : pathFault? path = none)
    (hnodup : (entries.map Prod.fst).Nodup)
    (hentries : ∀ entry ∈ entries,
      Path.IsName entry.1 ∧ v.Plain (Path.join path entry.1) (place ++ [entry.1])) :
    v.Plain path place := by
  have hplace : v.kind? place = some (.directory (entries.map Prod.fst)) :=
    congrArg (Option.map Node.kind) h
  -- what is there is the directory itself, or else it is below one of the entries
  have hbelow (name : String) (rest : Place) (kind : Kind)
      (hkind : v.kind? (place ++ name :: rest) = some kind) :
      v.kind? ((place ++ [name]) ++ rest) = some kind ∧
        v.Plain (Path.join path name) (place ++ [name]) := by
    obtain ⟨entry, hentry, rfl⟩ := List.mem_map.1 (mem_of_kind? hplace hkind)
    rw [List.append_assoc]
    exact ⟨hkind, (hentries entry hentry).2⟩
  constructor
  · intro rest names hkind
    cases rest with
    | nil =>
        rw [List.append_nil, hplace] at hkind
        cases hkind
        exact ⟨hnodup, List.forall_mem_map.2 fun entry hentry => (hentries entry hentry).1⟩
    | cons name rest =>
        obtain ⟨hkind, hplain⟩ := hbelow name rest _ hkind
        exact hplain.names rest names hkind
  · intro rest target hkind
    cases rest with
    | nil =>
        rw [List.append_nil, hplace] at hkind
        cases hkind
    | cons name rest =>
        obtain ⟨hkind, hplain⟩ := hbelow name rest _ hkind
        exact hplain.noLink rest target hkind
  · intro rest kind hkind
    cases rest with
    | nil => exact hpath
    | cons name rest =>
        obtain ⟨hkind, hplain⟩ := hbelow name rest _ hkind
        exact hplain.short rest kind hkind

/-- A directory that holds nothing but files is a plain tree. -/
theorem plain_of_files {entries : List (String × Node)}
    (h : v.node? place = some (.directory entries)) (hnodup : (entries.map Prod.fst).Nodup)
    (hfiles : ∀ entry ∈ entries, entry.2.kind = .file ∧ Path.IsName entry.1 ∧
      pathFault? (Path.join path entry.1) = none) (hpath : pathFault? path = none) :
    v.Plain path place := by
  refine plain_directory h hpath hnodup fun entry hentry => ?_
  obtain ⟨hfile, hname, hfault⟩ := hfiles entry hentry
  refine ⟨hname, plain_file ?_ hfault⟩
  rw [kind?_append_cons h, Node.lookup_of_mem hnodup hentry]
  exact congrArg some hfile

/-- What a name in a directory stands for is another directory or a file. -/
theorem Plain.directory_or_file (h : v.Plain path place)
    (hkind : v.kind? place = some (.directory names)) (hname : name ∈ names) :
    v.hasDirectory (place ++ [name]) ∨ v.kind? (place ++ [name]) = some .file := by
  obtain ⟨kind, hentry⟩ := kind?_of_mem hkind hname
  cases kind with
  | directory inner => exact .inl (hasDirectory_of_kind? hentry)
  | file => exact .inr hentry
  | link target => exact absurd hentry (h.noLink [name] target)

theorem Rooted.named {root : String} (h : v.Rooted base root place) : v.Names base root place :=
  names_of_find h.find h.directory

/-- A file below a directory has a name in some directory below, and the path name of this directory
leads there. -/
theorem Plain.exists_names (h : v.Plain path place) (hnames : v.Names base path place)
    (hplace : v.hasDirectory place) (hfile : v.kind? (place ++ rest) = some .file) :
    ∃ above directory name, v.Names base above directory ∧ Path.IsName name ∧
      Path.below path rest = Path.join above name ∧ place ++ rest = directory ++ [name] := by
  induction rest generalizing path place with
  | nil =>
      obtain ⟨names, hkind⟩ := kind?_of_hasDirectory hplace
      rw [List.append_nil, hkind] at hfile
      cases hfile
  | cons name rest ih =>
      obtain ⟨names, hkind⟩ := kind?_of_hasDirectory hplace
      obtain ⟨-, hproper⟩ := h.proper hkind
      have hname := mem_of_kind? hkind hfile
      -- the entry takes the place of the directory, for the induction or as the file itself
      have hsplit : place ++ name :: rest = (place ++ [name]) ++ rest := by simp
      rw [hsplit] at hfile ⊢
      rcases h.directory_or_file hkind hname with hdirectory | hend
      · exact ih (h.inside name) (hnames.join (hproper name hname) hdirectory) hdirectory hfile
      · cases rest with
        | nil => exact ⟨path, place, name, hnames, hproper name hname, rfl, by simp⟩
        | cons next rest =>
            rw [kind?_below_file hend] at hfile
            cases hfile

theorem lists_of_file (h : v.kind? place = some .file) : v.Lists place [[]] := by
  refine ⟨?_, List.pairwise_singleton _ _⟩
  intro rest
  cases rest with
  | nil => simp [h]
  | cons name rest => simp [kind?_below_file h]

/-- The files of a directory are those of its entries, in the order of their names. -/
theorem lists_flatMap (h : v.kind? place = some (.directory names)) (hnodup : names.Nodup)
    {filesOf : String → List Place}
    (hfiles : ∀ name ∈ names, v.Lists (place ++ [name]) (filesOf name)) :
    v.Lists place ((names.mergeSort byteLe).flatMap fun name =>
      (filesOf name).map (name :: ·)) := by
  constructor
  · intro rest
    simp only [List.mem_flatMap, List.mem_mergeSort, List.mem_map]
    constructor
    · rintro ⟨name, hname, rest, hrest, rfl⟩
      have hfile := ((hfiles name hname).mem rest).1 hrest
      rwa [List.append_assoc] at hfile
    · intro hfile
      cases rest with
      | nil =>
          rw [List.append_nil, h] at hfile
          cases hfile
      | cons name rest =>
          have hname := mem_of_kind? h hfile
          refine ⟨name, hname, rest, ((hfiles name hname).mem rest).2 ?_, rfl⟩
          rwa [List.append_assoc]
  · rw [List.pairwise_flatMap]
    constructor
    · intro name hname
      have hordered := (hfiles name (List.mem_mergeSort.1 hname)).ordered
      exact List.pairwise_map.2 (hordered.imp fun hprecedes => List.Lex.cons hprecedes)
    · refine (Text.pairwise_mergeSort_byteLe hnodup).imp ?_
      intro a b hlt x hx y hy
      obtain ⟨_, -, rfl⟩ := List.mem_map.1 hx
      obtain ⟨_, -, rfl⟩ := List.mem_map.1 hy
      exact List.Lex.rel hlt

end Volume

/-! ## Walks -/

namespace Walk

variable {σ : Type} {walk : Walk σ} {v : Volume} {path name : String} {place rest : Place}
  {inv : σ → Prop} {s : σ} {files : List Place}

/-- Visit the file at a place below the directory that `path` names, unless the walk is over. -/
def comeTo (walk : Walk σ) (path : String) (s : σ) (rest : Place) : σ :=
  if walk.isOver s then s else walk.visit (.file (Path.below path rest)) s

/-- What is true of the state stays so when a file below the directory is visited, and says that
the volume has changed in the contents of files only. -/
structure Keeps (walk : Walk σ) (v : Volume) (path : String) (place : Place) (inv : σ → Prop) :
    Prop where
  alike : ∀ s, inv s → v.Alike (walk.volume s)
  visit : ∀ rest s, v.kind? (place ++ rest) = some .file → inv s →
    inv (walk.visit (.file (Path.below path rest)) s)

theorem Keeps.inside (h : walk.Keeps v path place inv) (name : String) :
    walk.Keeps v (Path.join path name) (place ++ [name]) inv := by
  refine ⟨h.alike, ?_⟩
  intro rest s hfile hs
  rw [List.append_assoc] at hfile
  exact h.visit _ s hfile hs

theorem Keeps.comeTo (h : walk.Keeps v path place inv)
    (hfile : v.kind? (place ++ rest) = some .file) (hs : inv s) :
    inv (walk.comeTo path s rest) := by
  unfold Walk.comeTo
  split
  · exact hs
  · exact h.visit rest s hfile hs

theorem Keeps.foldl (h : walk.Keeps v path place inv)
    (hfiles : ∀ rest ∈ files, v.kind? (place ++ rest) = some .file) (hs : inv s) :
    inv (files.foldl (walk.comeTo path) s) := by
  induction files generalizing s with
  | nil => exact hs
  | cons rest files ih =>
      obtain ⟨hrest, hfiles⟩ := List.forall_mem_cons.1 hfiles
      exact ih hfiles (h.comeTo hrest hs)

theorem foldl_comeTo_of_isOver (h : walk.isOver s) : files.foldl (walk.comeTo path) s = s := by
  induction files with
  | nil => rfl
  | cons rest files ih =>
      have hcome : walk.comeTo path s rest = s := if_pos h
      rw [List.foldl_cons, hcome, ih]

/-- One entry of the innermost directory of a walk. -/
def take (walk : Walk σ) (depth : Nat) (inside : List Ancestor) (current : Ancestor) (s : σ)
    (entry : String × Node) : σ :=
  if walk.isOver s then s
  else
    match walk.turn (walk.volume s) inside current entry.1 entry.2 with
    | .pass => s
    | .visit visit => walk.visit visit s
    | .enter directory => walk.go depth (current :: inside) directory s

theorem go_succ (walk : Walk σ) (depth : Nat) (inside : List Ancestor) (current : Ancestor)
    (s : σ) : walk.go (depth + 1) inside current s =
      ((walk.volume s).entries current.place).foldl (walk.take depth inside current) s := rfl

/-- Walking on from a directory amounts to visiting these files below it, in this order. -/
def Visits (v : Volume) (depth : Nat) (path : String) (place : Place) (files : List Place) : Prop :=
  ∀ {σ : Type} (walk : Walk σ) (inv : σ → Prop) (inside : List Ancestor) (s : σ),
    walk.Keeps v path place inv → inv s →
      walk.go depth inside ⟨place, path⟩ s = files.foldl (walk.comeTo path) s

/-- Taking an entry of a directory amounts to visiting these files below the entry. -/
def Takes (v : Volume) (depth : Nat) (path : String) (place : Place) (name : String)
    (files : List Place) : Prop :=
  ∀ {σ : Type} (walk : Walk σ) (inv : σ → Prop) (inside : List Ancestor) (s : σ) (node : Node),
    walk.Keeps v path place inv → inv s → v.kind? (place ++ [name]) = some node.kind →
      walk.take depth inside ⟨place, path⟩ s (name, node) =
        files.foldl (walk.comeTo (Path.join path name)) s

theorem takes_file {depth : Nat} (h : v.kind? (place ++ [name]) = some .file) :
    Takes v depth path place name [[]] := by
  intro σ walk inv inside s node hkeeps hs hnode
  rw [h] at hnode
  cases node with
  | file content => rfl
  | directory _ | link _ => cases hnode

theorem takes_directory {depth : Nat} (h : v.hasDirectory (place ++ [name]))
    (hfault : Volume.pathFault? (Path.join path name) = none)
    (hvisits : Visits v depth (Path.join path name) (place ++ [name]) files) :
    Takes v depth path place name files := by
  intro σ walk inv inside s node hkeeps hs hnode
  obtain ⟨names, hnames⟩ := Volume.kind?_of_hasDirectory h
  rw [hnames] at hnode
  cases node with
  | file _ | link _ => cases hnode
  | directory entries =>
      unfold take
      split
      · next hover => exact (foldl_comeTo_of_isOver hover).symm
      · have hturn : walk.turn (walk.volume s) inside ⟨place, path⟩ name (.directory entries) =
            .enter ⟨place ++ [name], Path.join path name⟩ := by
          rw [turn, hfault]
        rw [hturn]
        exact hvisits walk inv (⟨place, path⟩ :: inside) s (hkeeps.inside name) hs

/-- Taking entries one after the other amounts to visiting the files of each. -/
theorem foldl_take {depth : Nat} {inside : List Ancestor} {entries : List (String × Node)}
    {filesOf : String → List Place} (hkeeps : walk.Keeps v path place inv) (hs : inv s)
    (hkind : ∀ entry ∈ entries, v.kind? (place ++ [entry.1]) = some entry.2.kind)
    (hfiles : ∀ entry ∈ entries, v.Lists (place ++ [entry.1]) (filesOf entry.1))
    (htakes : ∀ entry ∈ entries, Takes v depth path place entry.1 (filesOf entry.1)) :
    entries.foldl (walk.take depth inside ⟨place, path⟩) s =
      ((entries.map Prod.fst).flatMap fun name => (filesOf name).map (name :: ·)).foldl
        (walk.comeTo path) s := by
  induction entries generalizing s with
  | nil => rfl
  | cons entry entries ih =>
      obtain ⟨hnode, hkind⟩ := List.forall_mem_cons.1 hkind
      obtain ⟨hlists, hfiles⟩ := List.forall_mem_cons.1 hfiles
      obtain ⟨htake, htakes⟩ := List.forall_mem_cons.1 htakes
      have hfirst : walk.take depth inside ⟨place, path⟩ s entry =
          (filesOf entry.1).foldl (walk.comeTo (Path.join path entry.1)) s :=
        htake walk inv inside s entry.2 hkeeps hs hnode
      -- what is true of the state before an entry is true after it, so the next can be taken
      have hnext : inv (walk.take depth inside ⟨place, path⟩ s entry) := by
        rw [hfirst]
        exact (hkeeps.inside entry.1).foldl (fun rest => (hlists.mem rest).1) hs
      rw [List.foldl_cons, ih hnext hkind hfiles htakes, List.map_cons, List.flatMap_cons,
        List.foldl_append, List.foldl_map, hfirst]
      rfl

/-- Walking a directory amounts to visiting the files of its entries, in the order of the names. -/
theorem visits_flatMap {depth : Nat} {names : List String}
    (h : v.kind? place = some (.directory names)) (hnodup : names.Nodup)
    {filesOf : String → List Place}
    (hfiles : ∀ name ∈ names, v.Lists (place ++ [name]) (filesOf name))
    (htakes : ∀ name ∈ names, Takes v depth path place name (filesOf name)) :
    Visits v (depth + 1) path place ((names.mergeSort byteLe).flatMap fun name =>
      (filesOf name).map (name :: ·)) := by
  intro σ walk inv inside s hkeeps hs
  -- the volume of the state lists the same names as `v`, for only contents have changed
  have halike := hkeeps.alike s hs
  obtain ⟨hnames, hentries⟩ := Volume.entries_eq ((halike place).trans h) hnodup
  have hname (entry : String × Node) (hentry : entry ∈ (walk.volume s).entries place) :
      entry.1 ∈ names := by
    rw [← List.mem_mergeSort, ← hnames]
    exact List.mem_map_of_mem hentry
  rw [go_succ, ← hnames]
  refine foldl_take hkeeps hs ?_ (fun entry hentry => hfiles _ (hname entry hentry))
    fun entry hentry => htakes _ (hname entry hentry)
  intro entry hentry
  rw [← halike]
  exact hentries entry.1 entry.2 hentry

/-- A walk that may go on for as many levels as the path name of its directory can still grow
visits the files below the directory. -/
theorem exists_visits (hplain : v.Plain path place) (hplace : v.hasDirectory place) {depth : Nat}
    (hdepth : Path.lengthLimit < depth + path.utf8ByteSize) :
    ∃ files, v.Lists place files ∧ Visits v depth path place files := by
  induction depth generalizing path place with
  | zero =>
      -- the path name would be longer than path names may be
      have hsize := (hplain.bounds hplace).2
      omega
  | succ depth ih =>
      obtain ⟨names, hkind⟩ := Volume.kind?_of_hasDirectory hplace
      obtain ⟨hnodup, hproper⟩ := hplain.proper hkind
      have hexists : ∀ name ∈ names, ∃ files,
          v.Lists (place ++ [name]) files ∧ Takes v depth path place name files := by
        intro name hname
        rcases hplain.directory_or_file hkind hname with hdirectory | hfile
        · have hgrows := Path.utf8ByteSize_lt_join (hplain.bounds hplace).1 (hproper name hname)
          obtain ⟨files, hfiles, hvisits⟩ := ih (hplain.inside name) hdirectory (by omega)
          obtain ⟨inner, hinner⟩ := Volume.kind?_of_hasDirectory hdirectory
          have hfault := hplain.short [name] (.directory inner) hinner
          exact ⟨files, hfiles, takes_directory hdirectory hfault hvisits⟩
        · exact ⟨[[]], Volume.lists_of_file hfile, takes_file hfile⟩
      choose! filesOf hlists htakes using hexists
      exact ⟨_, Volume.lists_flatMap hkind hnodup hlists,
        visits_flatMap hkind hnodup hlists htakes⟩

/-- **A walk visits every file below its directory once, in order**, as long as it is not over. The
list of files depends on the volume only, not on what the walk does on its visits. -/
theorem exists_run {base : Place} {root : String} (h : v.Rooted base root place) :
    ∃ files, v.Lists place files ∧
      ∀ {σ : Type} (walk : Walk σ) (inv : σ → Prop) (s : σ), walk.base = base →
        walk.volume s = v → walk.Keeps v root place inv → inv s →
          walk.run root s = files.foldl (walk.comeTo root) s := by
  have hpos := Path.utf8ByteSize_pos (h.plain.bounds h.directory).1
  obtain ⟨files, hfiles, hvisits⟩ :=
    exists_visits h.plain h.directory (Nat.lt_add_of_pos_right hpos)
  refine ⟨files, hfiles, ?_⟩
  intro σ walk inv s hbase hvolume hkeeps hs
  unfold run
  rw [hvolume, hbase, h.find]
  exact hvisits walk inv [] s hkeeps hs

end Walk

end LateBinding
