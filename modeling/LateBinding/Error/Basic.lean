import LateBinding.Error.Causes
import LateBinding.Module.FormatError

set_option autoImplicit false

/-! # Errors

Everything that can go wrong, in classes. Where the class has causes of its own they stand
in the error; the other classes carry words. An error may also carry the text of the
failure that lies behind it, its `source`.

`Error.message` is the full text of an error, the heading of its class included.
-/

namespace LateBinding

/-- A failure. -/
inductive Error where
  /-- A bare failure of the file system. -/
  | file (text : String)
  | io (text : String) (source : Option String := none)
  | format (cause : FormatError)
  | configuration (cause : ConfigurationError) (source : Option String := none)
  | settings (cause : SettingsError)
  /-- No provider is known under `symbol`, which the field `slot` asks for. -/
  | linkage (symbol slot : String)
  /-- The provider called `name` did not give a value. -/
  | provider (name text : String)
  | runtime (cause : RuntimeError)
  | weaving (text : String) (source : Option String := none)
  | infrastructure (text : String) (source : Option String := none)
  | internal (text : String)
  deriving DecidableEq

namespace Error

/-- The full text of an error. -/
def message : Error → String
  | file text => s!"I/O error: {text}"
  | io text _ => s!"I/O error: {text}"
  | format cause => FormatError.heading ++ cause.message
  | configuration cause _ => s!"Configuration error: {cause.message}"
  | settings cause => s!"Settings error: {cause.message}"
  | linkage symbol slot =>
    "Linkage error: no provider found for the injection point named " ++
      s!"'{symbol}' (slot '{slot}')"
  | provider name text => s!"Provider '{name}' failed: {text}"
  | runtime cause => s!"Runtime error: {cause.message}"
  | weaving text _ => s!"Rewrite error: {text}"
  | infrastructure text _ => s!"Infrastructure error: {text}"
  | internal text => s!"Internal error: {text}"

/-- The text of the failure behind the error. -/
def source? : Error → Option String
  | file text => some text
  | io _ source | configuration _ source | weaving _ source | infrastructure _ source => source
  | format _ | settings _ | linkage _ _ | provider _ _ | runtime _ | internal _ => none

/-- Whether a provider was missing. -/
def isLinkage : Error → Bool
  | linkage _ _ => true
  | _ => false

/-! ## Putting a failure into context

A failure of some other part, known by its text, becomes an error that says what was being
done. -/

/-- What a failure is put into context as. -/
inductive Context where
  | general
  /-- As `general`, for a description that is made only when it is needed. -/
  | deferred
  | io
  | settings
  | weaving
  deriving DecidableEq

/-- The error for the failure `cause` of what `doing` describes. -/
def inContext (context : Context) (doing cause : String) : Error :=
  let text := s!"{doing}: {cause}"
  match context with
  | .general | .deferred => infrastructure text (some cause)
  | .io => io text (some cause)
  | .settings => settings (.stated text)
  | .weaving => weaving text (some cause)

/-- The outcome of an operation in context, and whether a deferred description was made. -/
def addContext {α : Type} (context : Context) (doing : String) (outcome : Except String α) :
    Except Error α × Bool :=
  match outcome with
  | .ok value => (.ok value, false)
  | .error cause => (.error (inContext context doing cause), context = .deferred)

end Error

end LateBinding
