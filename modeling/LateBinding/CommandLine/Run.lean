import LateBinding.CommandLine.Arguments
import LateBinding.Settings.Sources
import LateBinding.Weaving.Tree

set_option autoImplicit false

/-! # Running the command line

A run weaves the modules below a directory and writes the report. It succeeds when the pass
does. It fails with an explanation when the settings cannot be found or the root is no
directory, and is refused when the arguments cannot be understood. A log file that cannot be
made, or a variable that cannot be read to its end, breaks the run off.
-/

namespace LateBinding.CommandLine

/-- How a run ends. -/
inductive Status where
  | success
  | failure
  /-- The arguments were not understood. -/
  | refused
  /-- The run broke off. -/
  | broken
  deriving DecidableEq

/-- The number by which the outside knows the end of a run. -/
def Status.code : Status → UInt8
  | .success => 0
  | .failure => 1
  | .refused => 2
  | .broken => 101

/-- What a run leaves to be seen, but for files. -/
structure Outcome where
  status : Status
  output : String := ""
  /-- What it says about its own failure. -/
  complaint : String := ""
  deriving DecidableEq

/-- The version of the program. -/
def versionText : String := "rewire 0.1.0\n"

/-- How the program is used, in a line. -/
def usageText : String := "Usage: rewire [OPTIONS] <ROOT>\n"

/-- How the program is used. -/
def helpText : String :=
  "rewire - Rewrite injection points in compiled modules\n\n" ++ usageText ++
    "\nArguments:\n" ++
    "  <ROOT>  Root directory containing the compiled modules\n" ++
    "\nOptions:\n" ++
    "  -c, --config <CONFIG>  Path to configuration file\n" ++
    "      --fail-fast        Stop at the first file that fails\n" ++
    "      --json             Print the report as JSON\n" ++
    "  -h, --help             Print help\n" ++
    "  -V, --version          Print version\n"

/-- The complaint about an error, which says what was being done. -/
def complaintText (doing : String) (error : Error) : String :=
  let cause := "\n    ".intercalate (error.message.splitOn "\n")
  s!"Error: {doing}\n\nCaused by:\n    {cause}\n"

/-- The name of the log file at a path name, which the date of the day ends. Any date will do
here, as all are of one length. -/
def logName (path : String) : String :=
  ((Path.fileName? path).map Path.nameStem).getD "rewire" ++ ".2000-01-01"

/-- Make the directory of the log file, and find the place for the file in it. The file itself
takes no part in a run. -/
def openLog (s : Surroundings) (logging : LoggingSettings) : Except FileError Surroundings :=
  match logging.fileOutput with
  | none => .ok s
  | some path => do
    let directory := Path.parent path
    let volume ← s.volume.makePath s.directory directory
    let _ ← volume.follow s.directory (Path.join directory (logName path))
    return { s with volume }

/-- The report as the job asks for it. -/
def Job.reportText (job : Job) (report : Report) : String :=
  if job.json then report.json.render 0 ++ "\n" else report.text

/-- Do a job. -/
def Job.run (job : Job) (s : Surroundings) : Outcome × Surroundings :=
  let failed (doing : String) (error : Error) : Outcome :=
    { status := .failure, complaint := complaintText doing error }
  match s.load { path := job.settings } with
  | .error .cutCharacter =>
    ({ status := .broken, complaint := SettingsError.cutCharacter.message ++ "\n" }, s)
  | .error e => (failed "Failed to load configuration" (.settings e), s)
  | .ok settings =>
    match openLog s settings.logging with
    | .error e => ({ status := .broken, complaint := e.message ++ "\n" }, s)
    | .ok s =>
      let weaver := { settings.weaver with failFast := job.failFast || settings.weaver.failFast }
      let (pass, volume) := s.volume.weaveTree s.directory weaver job.root
      let outcome :=
        match pass with
        | .error e => failed s!"Failed to rewrite {job.root}" e
        | .ok report =>
          { status := if report.isSuccess then .success else .failure,
            output := job.reportText report }
      (outcome, { s with volume })

/-- Do what the arguments ask for. -/
def run (arguments : List String) (s : Surroundings) : Outcome × Surroundings :=
  match Command.ofArguments arguments with
  | none => ({ status := .refused, complaint := usageText }, s)
  | some .help => ({ status := .success, output := helpText }, s)
  | some .version => ({ status := .success, output := versionText }, s)
  | some (.weave job) => job.run s

end LateBinding.CommandLine
