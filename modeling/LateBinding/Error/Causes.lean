import LateBinding.Module.Instruction
import LateBinding.Value

set_option autoImplicit false

/-! # Causes of failure outside the module format

What stops a method, what makes a configuration object unacceptable, what is wrong with
settings, and what an operation on files answers. Each cause has one wording, its
`message`.
-/

namespace LateBinding

/-- What stops a method at one of its instructions. -/
inductive Trap where
  /-- The invocation has executed `limit` instructions and would execute another. -/
  | stepLimit (limit : Nat)
  /-- There is no instruction left to execute. -/
  | fellOff
  | stackUnderflow
  | constantMissing (index : UInt16)
  | localMissing (slot : UInt8)
  | cannotAdd (left right : ValueSort)
  | overflow
  /-- A field is read from or written to an instance of another module. -/
  | foreignInstance (found expected : String)
  /-- A field is read from or written to something that is no instance. -/
  | notInstance (found : ValueSort)
  | siteMissing
  deriving DecidableEq

/-- The trap in words. -/
def Trap.message : Trap → String
  | .stepLimit limit => s!"step limit {limit} exceeded"
  | .fellOff => "fell off the end of the method"
  | .stackUnderflow => "stack underflow"
  | .constantMissing index => s!"constant #{index} missing"
  | .localMissing slot => s!"local {slot} missing"
  | .cannotAdd left right => s!"cannot add {left.title} and {right.title}"
  | .overflow => "integer overflow"
  | .foreignInstance found expected =>
    s!"field access on '{found}' instance, expected '{expected}'"
  | .notInstance found => s!"field access on {found.title} receiver"
  | .siteMissing => "call site not loaded"

/-- What makes an invocation or an access to an instance fail. -/
inductive RuntimeError where
  /-- An instance of `owner` has no slot `index`. -/
  | noSlot (index : Nat) (owner : String)
  | noMethod (method owner : String)
  | wrongArity (owner method : String) (expected given : Nat)
  | trapped (owner method : String) (pc : Nat) (trap : Trap)
  /-- A failure that was reported in words. -/
  | stated (text : String)
  deriving DecidableEq

/-- The failure in words. -/
def RuntimeError.message : RuntimeError → String
  | .noSlot index owner => s!"field index {index} out of range for '{owner}'"
  | .noMethod method owner => s!"no method '{method}' in module '{owner}'"
  | .wrongArity owner method expected given =>
    s!"{owner}.{method} expects {expected} argument(s), got {given}"
  | .trapped owner method pc trap => s!"{owner}.{method}[{pc}]: {trap.message}"
  | .stated text => text

/-- What makes a configuration object unacceptable. -/
inductive ConfigurationError where
  /-- A provider method declares parameters, for which nobody could supply arguments. -/
  | takesParameters (configuration method : String) (count : Nat) (provides : String)
  /-- A failure that was reported in words. -/
  | stated (text : String)
  deriving DecidableEq

/-- The failure in words. -/
def ConfigurationError.message : ConfigurationError → String
  | .takesParameters configuration method count provides =>
    "The provider method must be a no-args method: " ++
      s!"{configuration}::{method} declares {count} parameter(s) for '{provides}'"
  | .stated text => text

/-- What is wrong with settings. -/
inductive SettingsError where
  /-- The sources of the settings cannot be read as settings. -/
  | unreadable
  /-- Reading the environment broke off, because a text was cut inside a character. -/
  | cutCharacter
  | unknownLevel (level : String)
  | emptyExtension
  | dottedExtension (extension : String)
  | emptyMarker
  /-- Messages already go to another subscriber. -/
  | logTaken
  /-- A failure that was reported in words. -/
  | stated (text : String)
  deriving DecidableEq

/-- The failure in words. -/
def SettingsError.message : SettingsError → String
  | .unreadable => "Failed to extract configuration"
  | .cutCharacter => "a text was cut inside a character"
  | .unknownLevel level =>
    s!"Invalid log level: {level}. Use trace, debug, info, warn, or error"
  | .emptyExtension => "Rewriter file extension cannot be empty"
  | .dottedExtension extension =>
    s!"Rewriter file extension must not start with a dot: {extension}"
  | .emptyMarker => "Rewriter inject marker cannot be empty"
  | .logTaken =>
    "Failed to install log subscriber: " ++
      "a global default trace dispatcher has already been set"
  | .stated text => text

/-- What an operation on files answers in place of a result. -/
inductive FileError where
  | notFound
  | notDirectory
  | isDirectory
  | isThere
  /-- A path name, or the name of something on it, has too many bytes. -/
  | nameTooLong
  /-- A path leads through too many links. -/
  | tooManyLinks
  /-- A path name holds the character that ends one. -/
  | nulInName
  deriving DecidableEq

/-- The answer in words. -/
def FileError.message : FileError → String
  | .notFound => "No such file or directory (os error 2)"
  | .notDirectory => "Not a directory (os error 20)"
  | .isDirectory => "Is a directory (os error 21)"
  | .isThere => "File exists (os error 17)"
  | .nameTooLong => "File name too long (os error 36)"
  | .tooManyLinks => "Too many levels of symbolic links (os error 40)"
  | .nulInName => "file name contained an unexpected NUL byte"

end LateBinding
