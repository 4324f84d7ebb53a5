import LateBinding.CommandLine.Run

set_option autoImplicit false

/-! # The program

The outer layer: everything that touches the world stands here, and decides nothing. The
names of the files and directories that a run may see come on standard input, one on each
line, as a listing of a tree gives them; a name with a slash at its end is a directory. The
files are read, the command line is run on them, and the files that the run changed are
written back.
-/

namespace LateBinding.Main

/-- The lines of a stream. -/
def lines (input : IO.FS.Stream) : IO (List String) := do
  let mut found := #[]
  repeat
    let line ← input.getLine
    if line.isEmpty then break
    found := found.push (String.ofList (line.toList.filter (· ≠ '\n')))
  return found.toList

/-- The place of an absolute path name. -/
def placeOf (path : String) : Place := (Path.parts path).filter (!Path.isDot ·)

/-- Read the directories and files with these names. -/
def readVolume (here : Place) (names : List String) : IO Volume := do
  let mut volume : Volume := ((({} : Volume).makeParts [] here).toOption).getD {}
  for name in names do
    let directory := if Path.endsInSlash name then name else Path.parent name
    volume := ((volume.makePath here directory).toOption).getD volume
    unless Path.endsInSlash name do
      let content ← IO.FS.readBinFile name
      volume := ((volume.write here name content.toList).toOption).getD volume
  return volume

/-- Make the directories that are new, and write the files that differ from what they were. -/
def writeChanges (before after : Volume) : IO Unit := do
  for (place, node) in Node.descendantsIn [] after.root do
    if node.isDirectory && !before.hasDirectory place then
      IO.FS.createDirAll ("/" ++ "/".intercalate place)
  for (path, content) in after.filesBelow [] do
    unless (before.read [] path).toOption = some content do
      IO.FS.writeBinFile ("/" ++ path) ⟨content.toArray⟩

/-- The names of the variables that a run looks at. -/
def variableNames : List String :=
  ["HOME", "XDG_CONFIG_HOME", "REWIRE_LOGGING__LEVEL", "REWIRE_LOGGING__JSON_FORMAT",
    "REWIRE_LOGGING__FILE_OUTPUT", "REWIRE_REWRITER__EXTENSION",
    "REWIRE_REWRITER__INJECT_MARKER", "REWIRE_REWRITER__FAIL_FAST",
    "REWIRE_REWRITER__FOLLOW_LINKS"]

end LateBinding.Main

open LateBinding in
/-- Run the command line on the files that standard input names. -/
def main (arguments : List String) : IO UInt32 := do
  let environment ← Main.variableNames.filterMapM fun name => do
    return (← IO.getEnv name).map (name, ·)
  let directory := Main.placeOf ((← IO.getEnv "PWD").getD "/")
  let volume ← Main.readVolume directory (← Main.lines (← IO.getStdin))
  let (outcome, after) := CommandLine.run arguments ⟨volume, directory, environment⟩
  Main.writeChanges volume after.volume
  IO.print outcome.output
  IO.eprint outcome.complaint
  return outcome.status.code.toUInt32
