import LateBinding.Files.Volume

set_option autoImplicit false

/-! # Walking a directory tree

A walk visits the files below a directory, each directory before what sorts after it, the
entries of a directory in ascending order of the bytes of their names. The files are named
by path names that extend the one the walk started from.

Links are passed over, or else followed: then a link to a file counts as a file and a link
to a directory as a directory. A followed link that leads nowhere, or to a directory that
the walk is inside of already, is visited as a problem, and so is a directory whose path
name leads nowhere because it is too long.

A visit may change the volume. What a directory holds is listed once, when the walk enters
it; where a link leads is looked up when its turn comes.
-/

namespace LateBinding

/-- Why a walk cannot go on at an entry. -/
inductive WalkProblem where
  | file (path : String) (error : FileError)
  /-- The link leads back to the directory that the walk knows as `ancestor`. -/
  | loop (path ancestor : String)
  deriving DecidableEq

/-- The problem in words. -/
def WalkProblem.message : WalkProblem → String
  | .file path error => s!"IO error for operation on {path}: {error.message}"
  | .loop path ancestor => s!"File system loop found: {path} points to an ancestor {ancestor}"

/-- What a walk comes across. -/
inductive Visit where
  | file (path : String)
  | problem (path : String) (problem : WalkProblem)
  deriving DecidableEq

/-- A directory that a walk is inside of: its place and the path name it is known by. -/
structure Ancestor where
  place : Place
  path : String
  deriving DecidableEq

/-- What an entry of a directory means to a walk. -/
inductive Turn where
  /-- The entry is a link, and links are passed over. -/
  | pass
  | visit (visit : Visit)
  | enter (directory : Ancestor)
  deriving DecidableEq

/-- A walk whose visits change a state of type `σ`. -/
structure Walk (σ : Type) where
  /-- The directory that path names are seen from. -/
  base : Place
  followLinks : Bool
  /-- The volume as a state has it. -/
  volume : σ → Volume
  /-- Whether the walk ends here. -/
  isOver : σ → Bool
  visit : Visit → σ → σ

namespace Walk

variable {σ : Type}

/-- What an entry listed in the innermost of the directories that the walk is in, `current`,
means to the walk. Only where a link leads is looked up. -/
def turn (walk : Walk σ) (v : Volume) (inside : List Ancestor) (current : Ancestor)
    (name : String) (node : Node) : Turn :=
  let path := Path.join current.path name
  match node with
  | .file _ => .visit (.file path)
  | .directory _ =>
    match Volume.pathFault? path with
    | some e => .visit (.problem path (.file path e))
    | none => .enter ⟨current.place ++ [name], path⟩
  | .link _ =>
    if walk.followLinks then
      match v.find walk.base path with
      | .error e => .visit (.problem path (.file path e))
      | .ok place =>
        if v.hasDirectory place then
          match (current :: inside).find? (·.place = place) with
          | some ancestor => .visit (.problem path (.loop path ancestor.path))
          | none => .enter ⟨place, path⟩
        else .visit (.file path)
    else .pass

/-- Walk the innermost of the directories that the walk is in, `current`, with at most `depth`
levels from it on. -/
def go (walk : Walk σ) : (depth : Nat) → (inside : List Ancestor) → Ancestor → σ → σ
  | 0, _, _, s => s
  | depth + 1, inside, current, s =>
    ((walk.volume s).entries current.place).foldl (fun s (name, node) =>
      if walk.isOver s then s
      else
        match walk.turn (walk.volume s) inside current name node with
        | .pass => s
        | .visit visit => walk.visit visit s
        | .enter directory => walk.go depth (current :: inside) directory s) s

/-- Walk the tree below the directory that `root` leads to. A path name grows with every
level, so its largest length bounds the depth. -/
def run (walk : Walk σ) (root : String) (s : σ) : σ :=
  match (walk.volume s).find walk.base root with
  | .error _ => s
  | .ok place => walk.go Path.lengthLimit [] ⟨place, root⟩ s

end Walk

end LateBinding
