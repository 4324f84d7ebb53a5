set_option autoImplicit false

/-! # Arguments of the command line

An argument is an operand or an option. The one operand is the directory to weave. An option
is asked for at most once, and the settings file comes with it, in the same argument or in
the next. After two hyphens alone every argument is an operand.

The arguments are read from left to right, and help or the version is given as soon as it
is asked for.
-/

namespace LateBinding.CommandLine

/-- What to weave, and how. -/
structure Job where
  root : String
  /-- The settings file that is asked for. -/
  settings : Option String := none
  failFast : Bool := false
  /-- Whether the report is written as JSON. -/
  json : Bool := false
  deriving DecidableEq, Inhabited

/-- What the arguments ask for. -/
inductive Command where
  | help
  | version
  | weave (job : Job)
  deriving DecidableEq

/-! ## Single arguments -/

/-- An argument on its own. -/
inductive Argument where
  | operand (text : String)
  /-- The end of the options. -/
  | ending
  | help
  | version
  | failFast
  | json
  /-- The option for the settings file, with its value if it is attached. -/
  | settings (value : Option String)
  | unknown
  deriving DecidableEq

/-- What an option of one letter is, with what is attached to it. -/
def Argument.ofLetter (letter : Char) (attached : List Char) : Argument :=
  if letter = 'h' then .help
  else if letter = 'V' then .version
  else if letter = 'c' then
    match attached with
    | [] => .settings none
    | '=' :: value | value => .settings (some (String.ofList value))
  else .unknown

/-- What an option of a whole word is, with the value that is attached to it. -/
def Argument.ofWord (word : String) (attached : Option String) : Argument :=
  match word, attached with
  | "help", none => .help
  | "version", none => .version
  | "fail-fast", none => .failFast
  | "json", none => .json
  | "config", value => .settings value
  | _, _ => .unknown

/-- What an argument is on its own. -/
def Argument.ofText (text : String) : Argument :=
  match text.toList with
  | ['-', '-'] => .ending
  | '-' :: '-' :: word =>
    let name := String.ofList (word.takeWhile (· ≠ '='))
    match word.dropWhile (· ≠ '=') with
    | [] => .ofWord name none
    | _ :: value => .ofWord name (some (String.ofList value))
  | '-' :: letter :: attached => .ofLetter letter attached
  | _ => .operand text

/-! ## All arguments -/

/-- What the arguments up to some point have asked for. -/
structure Draft where
  root : Option String := none
  settings : Option String := none
  failFast : Bool := false
  json : Bool := false

namespace Draft

/-- Take an operand. There is one only, and it is not empty. -/
def addRoot (draft : Draft) (text : String) : Option Draft :=
  if draft.root.isSome ∨ text = "" then none else some { draft with root := some text }

/-- Take the value for the settings file. There is one only, and it is not empty. -/
def addSettings (draft : Draft) (value : String) : Option Draft :=
  if draft.settings.isSome ∨ value = "" then none
  else some { draft with settings := some value }

/-- What all arguments ask for. -/
def command (draft : Draft) : Option Command :=
  draft.root.map fun root =>
    .weave { root, settings := draft.settings, failFast := draft.failFast, json := draft.json }

/-- Take the arguments that are left. -/
def read (draft : Draft) : List String → Option Command
  | [] => draft.command
  | text :: rest =>
    match Argument.ofText text with
    | .operand text => (draft.addRoot text).bind fun draft => draft.read rest
    | .ending => (rest.foldlM addRoot draft).bind command
    | .help => some .help
    | .version => some .version
    | .failFast => if draft.failFast then none else { draft with failFast := true }.read rest
    | .json => if draft.json then none else { draft with json := true }.read rest
    | .settings (some value) => (draft.addSettings value).bind fun draft => draft.read rest
    | .settings none =>
      match rest with
      | [] => none
      | value :: rest =>
        match Argument.ofText value with
        | .operand value => (draft.addSettings value).bind fun draft => draft.read rest
        | _ => none
    | .unknown => none

end Draft

/-- What the arguments ask for, if they can be understood. -/
def Command.ofArguments (arguments : List String) : Option Command :=
  Draft.read {} arguments

end LateBinding.CommandLine
