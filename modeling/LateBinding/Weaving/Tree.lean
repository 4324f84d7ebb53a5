import LateBinding.Files.Walk
import LateBinding.Settings.Basic
import LateBinding.Weaving.Report

set_option autoImplicit false

/-! # Weaving a directory tree

`Volume.weaveTree` weaves every module file below a directory, in the order of a walk. A
file is replaced only when a read in it was, and as one action. A failure is noted in the
report and the pass goes on, unless the settings say that the first failure ends it.
-/

namespace LateBinding

/-- Whether a path name has the extension of module files. -/
def WeaverSettings.isModuleFile (settings : WeaverSettings) (path : String) : Bool :=
  Path.extension? path = some settings.extension

namespace Volume

/-- Weave the module in one file, and replace the file when that changes the module. -/
def weaveFile (v : Volume) (base : Place) (settings : WeaverSettings) (path : String) :
    Except Error FileOutcome × Volume :=
  match v.read base path with
  | .error e => (.error (Error.inContext .io s!"Failed to read module {path}" e.message), v)
  | .ok content =>
    match Codec.weave settings.marker content with
    | .error e => (.error (Error.inContext .weaving path (Error.format e).message), v)
    | .ok (woven, summary) =>
      if summary.isModified then
        match v.exchange base path woven with
        | .ok v => (.ok (.woven summary), v)
        | .error e => (.error (Error.inContext .io s!"Failed to replace {path}" e.message), v)
      else (.ok (.unchanged summary), v)

/-- What a visit of the walk comes to; `none` for a file that is no module file. -/
def weaveVisit (v : Volume) (base : Place) (settings : WeaverSettings) :
    Visit → Option (FileReport × Volume)
  | .problem path problem =>
    let error := Error.io ("Failed to walk directory: " ++ problem.message)
    some (⟨path, .failed error⟩, v)
  | .file path =>
    if settings.isModuleFile path then
      match v.weaveFile base settings path with
      | (.ok outcome, v) => some (⟨path, outcome⟩, v)
      | (.error error, v) => some (⟨path, .failed error⟩, v)
    else none

end Volume

/-- How far a pass over a directory tree has come. -/
structure Pass where
  volume : Volume
  /-- What became of the files so far. -/
  files : Array FileReport := #[]
  /-- Whether a failure has ended the pass. -/
  aborted : Bool := false

/-- Go on with what the walk comes across. -/
def Pass.visit (base : Place) (settings : WeaverSettings) (visit : Visit) (pass : Pass) : Pass :=
  match pass.volume.weaveVisit base settings visit with
  | none => pass
  | some (file, volume) =>
    { volume, files := pass.files.push file
      aborted := settings.failFast && file.error?.isSome }

/-- The walk of a pass. -/
def Pass.walk (base : Place) (settings : WeaverSettings) : Walk Pass :=
  { base, followLinks := settings.followLinks, volume := Pass.volume, isOver := Pass.aborted
    visit := Pass.visit base settings }

/-- Weave every module file below the directory `root`. -/
def Volume.weaveTree (v : Volume) (base : Place) (settings : WeaverSettings) (root : String) :
    Except Error Report × Volume :=
  if v.isDirectory base root then
    let pass := (Pass.walk base settings).run root { volume := v }
    (.ok { root, files := pass.files.toList, aborted := pass.aborted }, pass.volume)
  else (.error (.io s!"Rewrite root is not a directory: {root}"), v)

end LateBinding
