import EmbeddedStyles.Source.Json

namespace EmbeddedStyles.Lint

open Json (Decoder Record)

inductive Severity where
  | warning
  | error
  deriving DecidableEq, Repr

-- Entries that are kept without being looked at.
abbrev Extra := List (String × Json)

-- Entries are kept ordered by key, the last one for a key that is repeated.
def keep (key : String) (json : Json) (extra : Extra) : Extra :=
  Json.insertEntry key json.sorted extra

structure Warning where
  line : UInt32
  column : UInt32
  extra : Extra
  deriving Inhabited

namespace Warning

def text? (w : Warning) (key : String) : Option String :=
  (w.extra.lookup key).bind Json.asString?

-- Everything but an error is a warning.
def severity (w : Warning) : Severity :=
  if w.text? "severity" = some "error" then .error else .warning

def message? (w : Warning) : Option String :=
  w.text? "text"

def rule? (w : Warning) : Option String :=
  w.text? "rule"

section

variable {w : Warning} {key text : String}

theorem text?_eq_some_iff :
    w.text? key = some text ↔ w.extra.lookup key = some (.string text) := by
  simp only [text?, Option.bind_eq_some_iff, Json.asString?_eq_some_iff, exists_eq_right]

theorem severity_eq_error_iff :
    w.severity = .error ↔ w.extra.lookup "severity" = some (.string "error") := by
  rw [← text?_eq_some_iff, severity]
  split <;> simp_all

theorem message?_eq_some_iff :
    w.message? = some text ↔ w.extra.lookup "text" = some (.string text) :=
  text?_eq_some_iff

theorem rule?_eq_some_iff :
    w.rule? = some text ↔ w.extra.lookup "rule" = some (.string text) :=
  text?_eq_some_iff

end

structure Draft where
  line : Option UInt32
  column : Option UInt32
  extra : Extra

def record : Record Draft Warning where
  name := "Warning"
  fields := [
    ⟨"line", (·.line.isSome), Decoder.u32.map fun n s => { s with line := some n }, false⟩,
    ⟨"column", (·.column.isSome), Decoder.u32.map fun n s => { s with column := some n }, false⟩]
  start := ⟨none, none, []⟩
  extra := some fun key json s => { s with extra := keep key json s.extra }
  complete s := do
    let line ← Json.required "line" s.line
    let column ← Json.required "column" s.column
    return ⟨line, column, s.extra⟩

def decoder : Decoder Warning := record.decoder

def toJson (w : Warning) : Json :=
  .object (("line", Source.natJson w.line.toNat) :: ("column", Source.natJson w.column.toNat) ::
    w.extra)

end Warning

structure Result where
  source : Option String
  warnings : List Warning
  extra : Extra
  deriving Inhabited

namespace Result

structure Draft where
  source : Option (Option String)
  warnings : Option (List Warning)
  extra : Extra

def record : Record Draft Result where
  name := "LintResult"
  fields := [
    ⟨"source", (·.source.isSome),
      Decoder.string.optional.map fun x s => { s with source := some x }, true⟩,
    ⟨"warnings", (·.warnings.isSome),
      Warning.decoder.list.map fun x s => { s with warnings := some x }, true⟩]
  start := ⟨none, none, []⟩
  extra := some fun key json s => { s with extra := keep key json s.extra }
  complete s := .ok ⟨s.source.getD none, s.warnings.getD [], s.extra⟩

def decoder : Decoder Result := record.decoder

-- A missing source is left out.
def toJson (r : Result) : Json :=
  .object ((r.source.map fun source => ("source", Json.string source)).toList ++
    ("warnings", .array (r.warnings.map Warning.toJson)) :: r.extra)

-- Reads the linter's output, an array of results.
def parseMany (text : String) : Except Json.Failure (List Result) :=
  decoder.list.ofText text

end Result

end EmbeddedStyles.Lint
