import EmbeddedStyles.Source.Json

namespace EmbeddedStyles

open Source (Position Replacement Replacements)
open Json (Decoder Record)

-- A rule found in a tagged template. Its text has placeholders for the interpolations.
structure Rule where
  displayName : String
  cssText : String
  start : Option Position
  className : Option String
  deriving DecidableEq, Repr, Inhabited

namespace Rule

-- Where the text starts in the source, the origin if that is not known.
def startOrOrigin (r : Rule) : Position :=
  r.start.getD .origin

structure Draft where
  displayName : Option String
  cssText : Option String
  start : Option (Option Position)
  className : Option (Option String)

def record : Record Draft Rule where
  name := "Rule"
  fields := [
    ⟨"displayName", (·.displayName.isSome),
      Decoder.string.map fun x s => { s with displayName := some x }, false⟩,
    ⟨"cssText", (·.cssText.isSome),
      Decoder.string.map fun x s => { s with cssText := some x }, false⟩,
    ⟨"start", (·.start.isSome),
      Position.decoder.optional.map fun x s => { s with start := some x }, true⟩,
    ⟨"className", (·.className.isSome),
      Decoder.string.optional.map fun x s => { s with className := some x }, true⟩]
  start := ⟨none, none, none, none⟩
  extra := none
  complete s := do
    let displayName ← Json.required "displayName" s.displayName
    let cssText ← Json.required "cssText" s.cssText
    return ⟨displayName, cssText, s.start.getD none, s.className.getD none⟩

def decoder : Decoder Rule := record.decoder

-- A missing start is written as null and a missing class name not at all.
def toJson (r : Rule) : Json :=
  .object ([("displayName", .string r.displayName), ("cssText", .string r.cssText),
    ("start", (r.start.map Position.toJson).getD .null)] ++
    (r.className.map fun name => ("className", Json.string name)).toList)

end Rule

-- Rules by selector, no selector twice.
abbrev Rules := List (String × Rule)

namespace Rules

-- A selector that is there already keeps its place.
def put (selector : String) (rule : Rule) : Rules → Rules
  | [] => [(selector, rule)]
  | (s, r) :: rules =>
    if s = selector then (s, rule) :: rules else (s, r) :: put selector rule rules

def ofEntries (entries : List (String × Rule)) : Rules :=
  entries.foldl (fun rules entry => put entry.1 entry.2 rules) []

end Rules

structure Metadata where
  rules : Rules
  replacements : Replacements
  deriving DecidableEq, Repr, Inhabited

namespace Metadata

structure Draft where
  rules : Option Rules
  replacements : Option Replacements

def record : Record Draft Metadata where
  name := "StyleMetadata"
  fields := [
    ⟨"rules", (·.rules.isSome),
      Rule.decoder.entries.map fun x s => { s with rules := some (Rules.ofEntries x) }, true⟩,
    ⟨"replacements", (·.replacements.isSome),
      Replacement.decoder.list.map fun x s => { s with replacements := some x }, true⟩]
  start := ⟨none, none⟩
  extra := none
  complete s := .ok ⟨s.rules.getD [], s.replacements.getD []⟩

def decoder : Decoder Metadata := record.decoder

def toJson (m : Metadata) : Json :=
  .object [
    ("rules", .object (m.rules.map fun entry => (entry.1, entry.2.toJson))),
    ("replacements", .array (m.replacements.map Replacement.toJson))]

-- The rules in the order of the report.
def ruleList (m : Metadata) : List Rule :=
  m.rules.map Prod.snd

end Metadata

-- Why a file's styles could not be compiled.
inductive CompileError where
  | failed (filename message : String)
  | invalidMetadata (reason : String)
  | unavailable (reason : String)
  deriving DecidableEq, Repr

def CompileError.message : CompileError → String
  | .failed filename message => s!"failed to compile {filename}: {message}"
  | .invalidMetadata reason => s!"invalid style metadata: {reason}"
  | .unavailable reason => s!"style compiler unavailable: {reason}"

namespace Metadata

-- Reads a report, rules in the order of the text.
def ofText (text : String) : Except CompileError Metadata :=
  match decoder.ofText text with
  | .ok m => .ok m
  | .error failure => .error (.invalidMetadata (failure.message text.toList))

-- Reads a report from a document, whose objects are ordered by key.
def ofJson (json : Json) : Except CompileError Metadata :=
  match decoder.value json.sorted with
  | .ok m => .ok m
  | .error cause => .error (.invalidMetadata cause.message)

end Metadata

end EmbeddedStyles
