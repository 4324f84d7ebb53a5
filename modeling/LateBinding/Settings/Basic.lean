import LateBinding.Error.Basic
import LateBinding.Text.Characters
import LateBinding.Weaving.InjectionPoint

set_option autoImplicit false

/-! # Settings

How to report and how to weave, with a default for everything. `Settings.check` accepts
settings whose level is known, whose extension is neither blank nor opens with a dot, and
whose marker is not blank, and reports the first of these that does not hold.
-/

namespace LateBinding

/-- How much is reported on the way. -/
inductive LogLevel where
  | trace
  | debug
  | info
  | warn
  | error
  deriving DecidableEq

/-- The level of a name, in which capitals do not matter. -/
def LogLevel.ofName? (name : String) : Option LogLevel :=
  match name.toLower with
  | "trace" => some trace
  | "debug" => some debug
  | "info" => some info
  | "warn" | "warning" => some warn
  | "error" => some error
  | _ => none

/-- The name of a level as messages show it. -/
def LogLevel.title : LogLevel → String
  | trace => "TRACE"
  | debug => "DEBUG"
  | info => "INFO"
  | warn => "WARN"
  | error => "ERROR"

/-- How progress is reported. -/
structure LoggingSettings where
  level : String := "info"
  /-- Whether messages are written as JSON. -/
  jsonFormat : Bool := false
  /-- The file to which messages go as well. -/
  fileOutput : Option String := none
  deriving DecidableEq, Inhabited

/-- The extension of module files where nothing else is said. -/
def moduleExtension : String := "rwm"

/-- How modules are woven. -/
structure WeaverSettings where
  /-- The extension of the files that are modules. -/
  extension : String := moduleExtension
  /-- The kind of marker that declares an injection point. -/
  marker : String := injectMarker
  /-- Whether the first failure ends the pass. -/
  failFast : Bool := false
  followLinks : Bool := false
  deriving DecidableEq, Inhabited

/-- All settings. -/
structure Settings where
  logging : LoggingSettings := {}
  weaver : WeaverSettings := {}
  deriving DecidableEq, Inhabited

/-- The level that the settings name. -/
def LoggingSettings.logLevel (logging : LoggingSettings) : Except SettingsError LogLevel :=
  match LogLevel.ofName? logging.level with
  | some level => .ok level
  | none => .error (.unknownLevel logging.level)

/-- Check the settings for weaving. -/
def WeaverSettings.check (weaver : WeaverSettings) : Except SettingsError Unit :=
  if Text.isAllBlank weaver.extension then .error .emptyExtension
  else if weaver.extension.toList.head? = some '.' then
    .error (.dottedExtension weaver.extension)
  else if Text.isAllBlank weaver.marker then .error .emptyMarker
  else .ok ()

/-- Check all settings. -/
def Settings.check (settings : Settings) : Except SettingsError Unit := do
  let _ ← settings.logging.logLevel
  settings.weaver.check

/-- Send messages where the settings say. That can be done once only: `taken` says that
messages already go somewhere. -/
def LoggingSettings.install (logging : LoggingSettings) (taken : Bool) :
    Except SettingsError LogLevel := do
  let level ← logging.logLevel
  if taken then throw .logTaken else return level

end LateBinding
