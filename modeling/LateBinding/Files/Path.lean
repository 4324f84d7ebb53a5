set_option autoImplicit false

/-! # Path names

A path name is a list of parts between slashes. Empty parts and single dots stand for the
directory they are in, two dots for the one above it.

The extension of a path name is what follows the last dot of its last part. A part has no
extension when its only dot comes first, and two dots alone are no name at all.
-/

namespace LateBinding.Path

/-- The parts between the slashes. -/
def splitChars : List Char → List (List Char)
  | [] => [[]]
  | c :: rest =>
    if c = '/' then [] :: splitChars rest
    else
      match splitChars rest with
      | [] => [[c]]
      | part :: parts => (c :: part) :: parts

/-- The parts of a path name. -/
def parts (path : String) : List String := (splitChars path.toList).map String.ofList

/-- Whether a path name starts at the root. -/
def isAbsolute (path : String) : Bool := path.toList.head? = some '/'

/-- Whether a path name ends in a slash. -/
def endsInSlash (path : String) : Bool := path.toList.getLast? = some '/'

/-- The largest number of bytes in a part of a path name. -/
def partLimit : Nat := 255

/-- The largest number of bytes in a path name. -/
def lengthLimit : Nat := 4095

/-- Whether a part stands for the directory it is in. -/
def isDot (part : String) : Bool := part = "" || part = "."

/-- The path name of `name` in the directory `base`. An absolute name stands for itself. -/
def join (base name : String) : String :=
  if isAbsolute name || base = "" then name
  else if endsInSlash base then base ++ name
  else base ++ "/" ++ name

/-- Parts without those at the end, the first part apart, that stand for the directory they
are in. -/
def dropDots (parts : List String) : List String :=
  match parts with
  | [] => []
  | first :: rest => first :: (rest.reverse.dropWhile isDot).reverse

/-- The path name of the directory that the last part of a path name is in, as the path name
spells it. -/
def parent (path : String) : String :=
  let above := "/".intercalate (dropDots (dropDots (parts path)).dropLast)
  if isAbsolute path && above = "" then "/" else above

/-- The last part of a path name that is the name of something. -/
def fileName? (path : String) : Option String :=
  match ((parts path).filter (fun part => !isDot part)).getLast? with
  | some name => if name = ".." then none else some name
  | none => none

/-- What stands before and after the last dot. -/
def splitLastDot (name : List Char) : Option (List Char × List Char) :=
  let backwards := name.reverse
  match backwards.dropWhile (· ≠ '.') with
  | [] => none
  | _ :: before => some (before.reverse, (backwards.takeWhile (· ≠ '.')).reverse)

/-- The extension of a file name. -/
def nameExtension? (name : String) : Option String :=
  match splitLastDot name.toList with
  | some (before, after) => if before = [] then none else some (String.ofList after)
  | none => none

/-- A file name without its extension. -/
def nameStem (name : String) : String :=
  match splitLastDot name.toList with
  | some (before, _) => if before = [] then name else String.ofList before
  | none => name

/-- The extension of a path name. -/
def extension? (path : String) : Option String := (fileName? path).bind nameExtension?

end LateBinding.Path
