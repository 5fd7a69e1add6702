import EmbeddedStyles.Config.Comments
import EmbeddedStyles.Json.Decoder
import EmbeddedStyles.Session

namespace EmbeddedStyles

open Json (Decoder Record)

structure Config where
  extensions : List String := []
  exclude : List String := []
  ruleOrder : Option RuleOrder := none
  markerCheck : Option Bool := none
  node : Option Path := none

namespace Config

-- The file looked for in the workspace.
def fileName : String := "styled-lint.config.json"

def defaultExtensions : List String :=
  [".js", ".jsx", ".ts", ".tsx", ".mjs", ".cjs"]

structure Draft where
  extensions : Option (List String)
  exclude : Option (List String)
  ruleOrder : Option (Option RuleOrder)
  markerCheck : Option (Option Bool)
  node : Option (Option String)

def ruleOrders : List (String × RuleOrder) :=
  [("source", .source), ("compiler", .compiler)]

def record : Record Draft Config where
  name := "LintConfig"
  fields := [
    ⟨"extensions", (·.extensions.isSome),
      Decoder.string.list.map fun x s => { s with extensions := some x }, true⟩,
    ⟨"exclude", (·.exclude.isSome),
      Decoder.string.list.map fun x s => { s with exclude := some x }, true⟩,
    ⟨"ruleOrder", (·.ruleOrder.isSome),
      (Decoder.variant ruleOrders).optional.map fun x s => { s with ruleOrder := some x }, true⟩,
    ⟨"markerCheck", (·.markerCheck.isSome),
      Decoder.bool.optional.map fun x s => { s with markerCheck := some x }, true⟩,
    ⟨"node", (·.node.isSome),
      (Decoder.stringAs "a UTF-8 path string").optional.map fun x s => { s with node := some x },
      true⟩]
  start := ⟨none, none, none, none, none⟩
  extra := none
  complete s := .ok {
    extensions := s.extensions.getD []
    exclude := s.exclude.getD []
    ruleOrder := s.ruleOrder.getD none
    markerCheck := s.markerCheck.getD none
    node := (s.node.getD none).map Path.mk }

def decoder : Decoder Config := record.decoder

-- Reads a configuration. Places in messages are those in the text without comments.
def parse (text : String) : Except String Config :=
  let plain := stripComments text.toList
  match decoder.ofText (String.ofList plain) with
  | .ok config => .ok config
  | .error failure => .error (failure.message plain)

def fileExtensions (c : Config) : List String :=
  if c.extensions.isEmpty then defaultExtensions else c.extensions

-- A new session with what the configuration chooses.
def session (c : Config) : Session where
  ruleOrder := c.ruleOrder.getD .source
  markerCheck := c.markerCheck.getD true

inductive Error where
  | read (path : Path) (reason : String)
  | parse (path : Path) (reason : String)

def Error.message : Error → String
  | .read path reason => "failed to read " ++ path.text ++ ": " ++ reason
  | .parse path reason => "failed to parse " ++ path.text ++ ": " ++ reason

end Config

end EmbeddedStyles
