import LateBinding.Text.Printing
import LateBinding.Weaving.Weave
import LateBinding.Error.Basic

set_option autoImplicit false

/-! # Reports of a weaving pass

What became of each module file that a pass came across, in the order of the walk. A pass
that ended at a failure is marked as aborted.
-/

namespace LateBinding

/-- What became of a module file. -/
inductive FileOutcome where
  /-- At least one read was replaced, and the file with it. -/
  | woven (summary : WeaveSummary)
  /-- There was nothing to replace. -/
  | unchanged (summary : WeaveSummary)
  /-- The file could not be read, woven or replaced. -/
  | failed (error : Error)
  deriving DecidableEq

/-- What became of the file with this path name. -/
structure FileReport where
  path : String
  outcome : FileOutcome
  deriving DecidableEq

/-- What became of the files below a directory. -/
structure Report where
  root : String
  files : List FileReport := []
  aborted : Bool := false
  deriving DecidableEq

/-- Whether the file was replaced. -/
def FileReport.isWoven (file : FileReport) : Bool :=
  match file.outcome with
  | .woven _ => true
  | .unchanged _ | .failed _ => false

/-- Whether the file was left as it was, with nothing to replace. -/
def FileReport.isUnchanged (file : FileReport) : Bool :=
  match file.outcome with
  | .unchanged _ => true
  | .woven _ | .failed _ => false

/-- The error with which the file failed. -/
def FileReport.error? (file : FileReport) : Option Error :=
  match file.outcome with
  | .failed error => some error
  | .woven _ | .unchanged _ => none

/-- Number of reads replaced in the file. -/
def FileReport.sites (file : FileReport) : Nat :=
  match file.outcome with
  | .woven summary => summary.sites
  | .unchanged _ | .failed _ => 0

namespace Report

/-- The files that were replaced. -/
def woven (report : Report) : List FileReport := report.files.filter FileReport.isWoven

/-- Number of files replaced. -/
def wovenCount (report : Report) : Nat := report.woven.length

/-- Number of files with nothing to replace. -/
def unchangedCount (report : Report) : Nat := report.files.countP FileReport.isUnchanged

/-- The files that failed, with their errors. -/
def failures (report : Report) : List (String × Error) :=
  report.files.filterMap fun file => file.error?.map (file.path, ·)

/-- Number of files that failed. -/
def failureCount (report : Report) : Nat := report.failures.length

/-- Number of reads replaced in all files. -/
def sites (report : Report) : Nat := (report.files.map FileReport.sites).foldr (· + ·) 0

/-- Whether the pass came to its end without a failure. -/
def isSuccess (report : Report) : Bool := !report.aborted && report.failureCount == 0

/-- The report in words: a line of counts, and a line for each failure. -/
def text (report : Report) : String :=
  let ending := if report.aborted then ", aborted" else ""
  s!"{report.root}: {report.wovenCount} rewritten ({report.sites} sites), " ++
    s!"{report.unchangedCount} unchanged, {report.failureCount} failed{ending}\n" ++
    String.join (report.failures.map fun (path, error) => s!"  {path}: {error.message}\n")

end Report

/-! ## Reports as JSON -/

/-- An injection point as JSON. -/
def InjectionPoint.json (point : InjectionPoint) : Text.Json :=
  .record [("module", .text point.owner), ("field_index", .number point.fieldIndex.toNat),
    ("slot", .text point.slot), ("symbol", .text point.symbol)]

/-- The members of a summary as JSON. -/
def WeaveSummary.members (summary : WeaveSummary) : List (String × Text.Json) :=
  [("module", .text summary.owner),
    ("injection_points", .list (summary.points.map InjectionPoint.json)),
    ("rewritten_sites", .number summary.sites)]

/-- What became of a file as JSON. -/
def FileOutcome.json : FileOutcome → Text.Json
  | .woven summary => .record (("status", .text "rewritten") :: summary.members)
  | .unchanged summary => .record (("status", .text "unchanged") :: summary.members)
  | .failed error => .record [("status", .text "failed"), ("error", .text error.message)]

/-- A report as JSON. -/
def Report.json (report : Report) : Text.Json :=
  .record [("root", .text report.root),
    ("files", .list (report.files.map fun file =>
      .record [("path", .text file.path), ("outcome", file.outcome.json)])),
    ("aborted", .flag report.aborted)]

end LateBinding
