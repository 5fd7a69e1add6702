import EmbeddedStyles.Json.Printer
import EmbeddedStyles.Lint
import EmbeddedStyles.Source.Lines

namespace EmbeddedStyles.Report

open Lint (Severity Warning)

inductive Format where
  | human
  | humanVerbose
  | json
  | machine
  deriving DecidableEq, Repr

def label : Severity → String
  | .error => "Error"
  | .warning => "Warning"

def machineLabel : Severity → String
  | .error => "ERROR"
  | .warning => "WARNING"

def message (w : Warning) : String :=
  w.message?.getD ""

def rule (w : Warning) : String :=
  w.rule?.getD "unknown"

def place (path : String) (w : Warning) : String :=
  let line := w.line.toNat
  let column := w.column.toNat
  s!"{path}:{line}:{column}"

def heading (path : String) (w : Warning) : String :=
  let severity := label w.severity
  let message := message w
  let rule := rule w
  place path w ++ s!"\n{severity}: {message} ({rule})\n"

def spaces (n : Nat) : String :=
  String.ofList (List.replicate n ' ')

-- The line of the source and a pointer to the column under it.
def snippet (w : Warning) (line : String) : String :=
  let number := toString w.line.toNat
  let margin := spaces number.length
  let indent := spaces (w.column.toNat - 1)
  s!"  {number} | {line}\n  {margin} | {indent}^\n"

def human (path : String) (w : Warning) : String :=
  heading path w ++ "\n"

def humanVerbose (path : String) (source : Option String) (w : Warning) : String :=
  let line := source.bind fun source => (Source.LineIndex.ofText source).line? source w.line
  heading path w ++ (line.map (snippet w)).getD "" ++ "\n"

def machine (path : String) (w : Warning) : String :=
  let message := message w
  let rule := rule w
  machineLabel w.severity ++ " " ++ place path w ++ s!" {message} ({rule})\n"

def toJson (path : String) (w : Warning) : Json :=
  .object [
    ("type", .string (label w.severity)),
    ("filename", .string path),
    ("line", Source.natJson w.line.toNat),
    ("column", Source.natJson w.column.toNat),
    ("message", .string (message w)),
    ("rule", .string (rule w))]

-- The warnings of one file.
def format (f : Format) (warnings : List Warning) (path : String) (source : Option String) :
    String :=
  match f with
  | .human => String.join (warnings.map (human path))
  | .humanVerbose => String.join (warnings.map (humanVerbose path source))
  | .json => (Json.array (warnings.map (toJson path))).pretty
  | .machine => String.join (warnings.map (machine path))

end EmbeddedStyles.Report

namespace EmbeddedStyles

structure Summary where
  fileCount : Nat
  styledFileCount : Nat
  failedCount : Nat
  errorCount : Nat
  warningCount : Nat
  failOnWarnings : Bool
  deriving DecidableEq, Repr

namespace Summary

-- Whether the run is to end with an error.
def failed (s : Summary) : Bool :=
  0 < s.errorCount || 0 < s.warningCount && s.failOnWarnings

-- A count with its noun, which takes an `s` unless the count is one.
def counted (n : Nat) (noun : String) : String :=
  s!"{n} {noun}" ++ if n = 1 then "" else "s"

def text (s : Summary) : String :=
  let errors := counted s.errorCount "error"
  let warnings := counted s.warningCount "warning"
  let files := counted s.fileCount "file"
  let styled := s.styledFileCount
  let failed := counted s.failedCount "file"
  "====================================\n" ++
    s!"styled-lint-rs found {errors} and {warnings} in {files} ({styled} with styles)" ++
    if 0 < s.failedCount then s!"\n{failed} could not be compiled" else ""

end Summary

end EmbeddedStyles
