import LateBinding.Codec.Bytes
import LateBinding.Error.Causes
import LateBinding.Files.Path
import LateBinding.Text.Utf8

set_option autoImplicit false

/-! # Volumes

A volume is a tree of directories with files and symbolic links in it. Everything in it is at
a place: the list of names that leads to it from the root. A path name leads to a place by
way of the links on it; `Volume.follow` says to which, and `Volume.find` to which that
something is at.

A file is changed in two ways. `Volume.write` writes through a link to the file it leads
to. `Volume.exchange` puts a new file where the path name says, in place of whatever was
there, a link included, as one action.
-/

namespace LateBinding

open Codec (Bytes)

/-- The names that lead to something from a directory. -/
abbrev Place := List String

/-- Something in a volume. -/
inductive Node where
  /-- A directory, and what is in it under which names. -/
  | directory (entries : List (String × Node))
  | file (content : Bytes)
  /-- A symbolic link to a path name. -/
  | link (target : String)
  deriving Inhabited

/-- Directories, files and links, below a root directory. -/
structure Volume where
  root : List (String × Node) := []
  deriving Inhabited

/-- Where a path name leads. -/
inductive Location where
  | found (place : Place)
  /-- To nothing, in a directory that is there. -/
  | vacant (directory : Place) (name : String)
  deriving DecidableEq

namespace Node

/-- Whether something is a directory. -/
def isDirectory : Node → Bool
  | directory _ => true
  | file _ | link _ => false

/-- Whether something is a file. -/
def isFile : Node → Bool
  | file _ => true
  | directory _ | link _ => false

/-- What is in something; only directories hold anything. -/
def entries : Node → List (String × Node)
  | directory entries => entries
  | file _ | link _ => []

/-- What is at a place, seen from `node`. -/
def at? (node : Node) : Place → Option Node
  | [] => some node
  | name :: rest =>
    match node.entries.lookup name with
    | some inner => inner.at? rest
    | none => none

/-- Entries with a node under a name, in place of what was there. -/
def setEntry (entries : List (String × Node)) (name : String) (node : Node) :
    List (String × Node) :=
  match entries with
  | [] => [(name, node)]
  | (other, old) :: rest =>
    if other = name then (name, node) :: rest else (other, old) :: setEntry rest name node

/-- Put something at a place below a directory that holds `entries`, in place of what was
there. Nothing is put where the directory above is missing. -/
def putIn (node : Node) (entries : List (String × Node)) : Place → List (String × Node)
  | [] => entries
  | [name] => setEntry entries name node
  | name :: rest =>
    match entries.lookup name with
    | some (directory inner) => setEntry entries name (directory (putIn node inner rest))
    | _ => entries

mutual

/-- All that is below something at `place`, each thing at its place and a directory before
what it holds. -/
def descendants (place : Place) : Node → List (Place × Node)
  | directory entries => descendantsIn place entries
  | file _ | link _ => []

/-- These entries of the directory at `place`, and all that is below them. -/
def descendantsIn (place : Place) : List (String × Node) → List (Place × Node)
  | [] => []
  | (name, node) :: rest =>
    let here := place ++ [name]
    (here, node) :: (node.descendants here ++ descendantsIn place rest)

end

end Node

namespace Volume

/-- What is at a place. -/
def node? (v : Volume) (place : Place) : Option Node := (Node.directory v.root).at? place

/-- Whether a directory is at a place. -/
def hasDirectory (v : Volume) (place : Place) : Bool := (v.node? place).any Node.isDirectory

/-- Put something at a place, in place of what was there. -/
def put (v : Volume) (place : Place) (node : Node) : Volume := ⟨node.putIn v.root place⟩

/-- What a directory holds under which names, in ascending order of the bytes of the names. -/
def entries (v : Volume) (directory : Place) : List (String × Node) :=
  (((v.node? directory).map Node.entries).getD []).mergeSort fun a b => Text.byteLe a.1 b.1

/-! ## Where path names lead -/

/-- The largest number of links that a path name may lead through. -/
def linkLimit : Nat := 40

/-- Why a path name leads nowhere, whatever the volume holds. -/
def pathFault? (path : String) : Option FileError :=
  if path = "" then some .notFound
  else if path.toList.contains '\x00' then some .nulInName
  else if Path.lengthLimit < path.utf8ByteSize then some .nameTooLong
  else none

/-- Follow the parts of a path name from a directory, through at most `links` links. Where a
file is to be written at the end, a slash after the last part is refused: it means a
directory. -/
def followParts (v : Volume) (writing : Bool) (links : Nat) (directory : Place) :
    List String → Except FileError Location
  | [] => .ok (.found directory)
  | part :: rest =>
    if Path.isDot part then v.followParts writing links directory rest
    else if part = ".." then v.followParts writing links directory.dropLast rest
    else if writing ∧ rest ≠ [] ∧ rest.all (· = "") then .error .isDirectory
    else if Path.partLimit < part.utf8ByteSize then .error .nameTooLong
    else
      match v.node? (directory ++ [part]) with
      | none => if rest = [] then .ok (.vacant directory part) else .error .notFound
      | some (.directory _) => v.followParts writing links (directory ++ [part]) rest
      | some (.file _) =>
        if rest = [] then .ok (.found (directory ++ [part])) else .error .notDirectory
      | some (.link target) =>
        match links with
        | 0 => .error .tooManyLinks
        | links + 1 =>
          v.followParts writing links (if Path.isAbsolute target then [] else directory)
            (Path.parts target ++ rest)
termination_by parts => (links, parts.length)

/-- The directory that the first part of a path name is looked up in. -/
def start (base : Place) (path : String) : Place := if Path.isAbsolute path then [] else base

/-- Where a path name leads, seen from the directory at `base`. -/
def follow (v : Volume) (base : Place) (path : String) (writing : Bool := false) :
    Except FileError Location :=
  match pathFault? path with
  | some e => .error e
  | none => v.followParts writing linkLimit (start base path) (Path.parts path)

/-- The place of what a path name leads to. -/
def find (v : Volume) (base : Place) (path : String) : Except FileError Place :=
  match v.follow base path with
  | .ok (.found place) => .ok place
  | .ok (.vacant _ _) => .error .notFound
  | .error e => .error e

/-- What a path name leads to. -/
def nodeAt? (v : Volume) (base : Place) (path : String) : Option Node :=
  match v.find base path with
  | .ok place => v.node? place
  | .error _ => none

/-- Whether a path name leads to anything. -/
def isThere (v : Volume) (base : Place) (path : String) : Bool := (v.nodeAt? base path).isSome

/-- Whether a path name leads to a directory. -/
def isDirectory (v : Volume) (base : Place) (path : String) : Bool :=
  (v.nodeAt? base path).any Node.isDirectory

/-- Whether a path name leads to a file. -/
def isFile (v : Volume) (base : Place) (path : String) : Bool :=
  (v.nodeAt? base path).any Node.isFile

/-! ## Reading and changing files -/

/-- The content of the file that a path name leads to. -/
def read (v : Volume) (base : Place) (path : String) : Except FileError Bytes :=
  match v.find base path with
  | .error e => .error e
  | .ok place =>
    match v.node? place with
    | some (.file content) => .ok content
    | some (.directory _) => .error .isDirectory
    | some (.link _) | none => .error .notFound

/-- Write a file through the links on the path name. -/
def write (v : Volume) (base : Place) (path : String) (content : Bytes) :
    Except FileError Volume :=
  match v.follow base path true with
  | .error e => .error e
  | .ok (.vacant directory name) => .ok (v.put (directory ++ [name]) (.file content))
  | .ok (.found place) =>
    if v.hasDirectory place then .error .isDirectory
    else .ok (v.put place (.file content))

/-- Put a new file where a path name says, in place of what was there. -/
def exchange (v : Volume) (base : Place) (path : String) (content : Bytes) :
    Except FileError Volume :=
  match Path.fileName? path with
  | none => .error .isDirectory
  | some name =>
    let parts := ((Path.parts path).filter (fun part => !Path.isDot part)).dropLast
    match v.followParts false linkLimit (start base path) parts with
    | .ok (.found directory) => .ok (v.put (directory ++ [name]) (.file content))
    | .ok (.vacant _ _) => .error .notFound
    | .error e => .error e

/-! ## Filling a volume -/

/-- Make the directories on a path that are not there, seen from a directory. -/
def makeParts (v : Volume) (directory : Place) : List String → Except FileError Volume
  | [] => .ok v
  | part :: rest =>
    match v.followParts false linkLimit directory [part] with
    | .error e => .error e
    | .ok (.found place) =>
      if v.hasDirectory place then v.makeParts place rest else .error .notDirectory
    | .ok (.vacant above name) =>
      if (v.node? (directory ++ [part])).isSome then .error .isThere
      else (v.put (above ++ [name]) (.directory [])).makeParts (above ++ [name]) rest

/-- Make the directories of a path name that are not there. -/
def makePath (v : Volume) (base : Place) (path : String) : Except FileError Volume :=
  if path = "" then .ok v
  else
    match pathFault? path with
    | some e => .error e
    | none => v.makeParts (start base path) (Path.parts path)

/-- Put a link where a path name says, in a directory that is there. -/
def link (v : Volume) (base : Place) (path target : String) : Except FileError Volume :=
  match v.follow base path with
  | .error e => .error e
  | .ok (.vacant directory name) => .ok (v.put (directory ++ [name]) (.link target))
  | .ok (.found _) => .error .isThere

/-- All files below a place by their path names from there, in ascending order of the bytes
of the path names. A file at the place itself has an empty path name. -/
def filesBelow (v : Volume) (place : Place) : List (String × Bytes) :=
  let all :=
    match v.node? place with
    | some node => ([], node) :: node.descendants []
    | none => []
  let files := all.filterMap fun (other, node) =>
    match node with
    | .file content => some ("/".intercalate other, content)
    | .directory _ | .link _ => none
  files.mergeSort fun a b => Text.byteLe a.1 b.1

end Volume

end LateBinding
