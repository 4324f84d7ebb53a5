import LateBinding.Files.Volume
import LateBinding.Settings.Basic
import LateBinding.Settings.Environment
import LateBinding.Toml.Document

set_option autoImplicit false

/-! # Where settings come from

`Surroundings.load` finds the settings: what the environment says lies over what a settings
file says, and that over the defaults. Settings are handed out only when they pass their
check.

The settings file is the one that is asked for. When none is asked for, it is the first that
is there of four: in the current directory, in a directory of the program below it, in the
directory for the user's settings, and in one of the program in the user's home.
-/

namespace LateBinding

/-! ## Settings from data -/

/-- The settings for reports on progress that a datum says. -/
def LoggingSettings.ofDatum? (datum : Datum) : Option LoggingSettings := do
  let standard : LoggingSettings := {}
  let members ← datum.members? ["level", "json_format", "file_output"]
  return {
    level := ← Datum.memberOr members "level" Datum.text? standard.level
    jsonFormat := ← Datum.memberOr members "json_format" Datum.flag? standard.jsonFormat
    fileOutput := ← Datum.memberOr members "file_output" (fun d => d.text?.map some)
      standard.fileOutput }

/-- The settings for weaving that a datum says. -/
def WeaverSettings.ofDatum? (datum : Datum) : Option WeaverSettings := do
  let standard : WeaverSettings := {}
  let members ← datum.members? ["extension", "inject_marker", "fail_fast", "follow_links"]
  return {
    extension := ← Datum.memberOr members "extension" Datum.text? standard.extension
    marker := ← Datum.memberOr members "inject_marker" Datum.text? standard.marker
    failFast := ← Datum.memberOr members "fail_fast" Datum.flag? standard.failFast
    followLinks := ← Datum.memberOr members "follow_links" Datum.flag? standard.followLinks }

/-- The settings that a datum says, with defaults for what it does not say. -/
def Settings.ofDatum? (datum : Datum) : Option Settings := do
  let members ← datum.members? ["logging", "rewriter"]
  return {
    logging := ← Datum.memberOr members "logging" LoggingSettings.ofDatum? {}
    weaver := ← Datum.memberOr members "rewriter" WeaverSettings.ofDatum? {} }

/-! ## Finding settings -/

/-- Where the program runs. -/
structure Surroundings where
  volume : Volume
  /-- The current directory. -/
  directory : Place
  environment : Environment
  deriving Inhabited

/-- What to load settings from. -/
structure SettingsRequest where
  /-- The settings file that is asked for. -/
  path : Option String := none
  /-- How the names of variables open that set something, but for one underscore. -/
  opening : String := "REWIRE"
  deriving DecidableEq, Inhabited

/-- Name of settings files. -/
def settingsFile : String := "rewire.toml"

/-- Name of the directory of the program. -/
def settingsDirectory : String := "rewire"

namespace Surroundings

/-- The value of a variable, unless it is empty. -/
def value? (s : Surroundings) (name : String) : Option String :=
  (s.environment.lookup name).filter (· ≠ "")

/-- The directory for the user's settings. -/
def userSettings? (s : Surroundings) : Option String :=
  ((s.value? "XDG_CONFIG_HOME").filter Path.isAbsolute).or
    ((s.value? "HOME").map (Path.join · ".config"))

/-- The absolute path name of a place. -/
def pathName (place : Place) : String := "/" ++ "/".intercalate place

/-- The places where a settings file is looked for when none is asked for. -/
def usualFiles (s : Surroundings) : List String :=
  let here := pathName s.directory
  let below (directory name : String) : String :=
    Path.join (Path.join directory name) settingsFile
  [Path.join here settingsFile, below here settingsDirectory] ++
    (s.userSettings?.map (below · settingsDirectory)).toList ++
    ((s.value? "HOME").map (below · ("." ++ settingsDirectory))).toList

/-- The settings file to load, if there is one. -/
def settingsFile? (s : Surroundings) (path : Option String) : Option String :=
  let isThere := s.volume.isThere s.directory
  match path with
  | some path => some path |>.filter isThere
  | none => s.usualFiles.find? isThere

/-- The directories that a place is in, the innermost first. -/
def ancestors (place : Place) : List Place :=
  (List.range (place.length + 1)).map fun count => place.take (place.length - count)

/-- The content of a settings file. A relative path name is put after that of the current
directory and then after those of the directories around it, until it leads to a file. -/
def content? (s : Surroundings) (path : String) : Option Codec.Bytes :=
  (ancestors s.directory).findSome? fun place =>
    (s.volume.read [] (Path.join (pathName place) path)).toOption

/-- What the settings file says, if it can be read. -/
def fileDatum (s : Surroundings) (path : Option String) : Except SettingsError Datum :=
  match (s.settingsFile? path).bind s.content? with
  | none => .ok (.table [])
  | some content =>
    match ((Text.ofUtf8? content).bind Toml.read).bind Datum.settledFile? with
    | some datum => .ok datum
    | none => .error .unreadable

/-- What the environment says. -/
def environmentDatum (s : Surroundings) (opening : String) : Except SettingsError Datum :=
  match Environment.datum? s.environment (opening ++ "_") with
  | some datum => .ok datum
  | none => .error .cutCharacter

/-- Find the settings. -/
def load (s : Surroundings) (request : SettingsRequest) : Except SettingsError Settings := do
  let stated ← s.environmentDatum request.opening
  let filed ← s.fileDatum request.path
  match Settings.ofDatum? (filed.overlay stated) with
  | none => throw .unreadable
  | some settings => do
    settings.check
    return settings

end Surroundings

/-! ## Saving settings -/

/-- Settings as a settings file says them. -/
def Settings.toml (settings : Settings) : String :=
  let line (key value : String) : String := key ++ " = " ++ value ++ "\n"
  let text (key value : String) : String := line key (Toml.quote value)
  let flag (key : String) (value : Bool) : String := line key (toString value)
  let logging := settings.logging
  let weaver := settings.weaver
  "[logging]\n" ++ text "level" logging.level ++ flag "json_format" logging.jsonFormat ++
    ((logging.fileOutput.map (text "file_output")).getD "") ++
    "\n[rewriter]\n" ++ text "extension" weaver.extension ++
    text "inject_marker" weaver.marker ++ flag "fail_fast" weaver.failFast ++
    flag "follow_links" weaver.followLinks

/-- Save settings in a file. -/
def Surroundings.save (s : Surroundings) (settings : Settings) (path : String) :
    Except Error Surroundings :=
  match s.volume.write s.directory path (Text.utf8 settings.toml) with
  | .ok volume => .ok { s with volume }
  | .error e => .error (Error.inContext .io s!"Failed to write config file {path}" e.message)

end LateBinding
