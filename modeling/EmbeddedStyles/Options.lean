import EmbeddedStyles.Report
import EmbeddedStyles.Session

namespace EmbeddedStyles

-- Which warnings are shown.
inductive Threshold where
  | error
  | warning
  deriving DecidableEq, Repr

structure Options where
  workspace : Path := ⟨"."⟩
  config : Option Path := none
  output : Report.Format := .human
  threshold : Threshold := .warning
  emitCss : Bool := false
  outDir : Option Path := none
  results : Option Path := none
  failOnWarnings : Bool := false
  ignore : List String := []
  node : Option Path := none
  ruleOrder : Option RuleOrder := none
  verbose : Bool := false
  deriving DecidableEq, Repr

namespace Options

inductive UsageError where
  | unknownArgument
  | invalidValue
  | conflict
  | tooManyValues
  -- Help and version end the reading of a command line as well.
  | help
  | version
  deriving DecidableEq, Repr

-- The options that take a value.
inductive Valued where
  | workspace
  | config
  | output
  | threshold
  | outDir
  | results
  | ignore
  | node
  | ruleOrder
  deriving DecidableEq, Repr

inductive Flag where
  | emitCss
  | failOnWarnings
  | verbose
  | help
  | version
  deriving DecidableEq, Repr

inductive Name where
  | valued (option : Valued)
  | flag (flag : Flag)
  deriving DecidableEq, Repr

def names : List (String × Name) := [
  ("workspace", .valued .workspace),
  ("config", .valued .config),
  ("output", .valued .output),
  ("threshold", .valued .threshold),
  ("out-dir", .valued .outDir),
  ("results", .valued .results),
  ("ignore", .valued .ignore),
  ("node", .valued .node),
  ("rule-order", .valued .ruleOrder),
  ("emit-css", .flag .emitCss),
  ("fail-on-warnings", .flag .failOnWarnings),
  ("verbose", .flag .verbose),
  ("help", .flag .help),
  ("version", .flag .version)]

def letters : List (Char × Flag) :=
  [('v', .verbose), ('h', .help), ('V', .version)]

def formats : List (String × Report.Format) :=
  [("human", .human), ("human-verbose", .humanVerbose), ("json", .json), ("machine", .machine)]

def thresholds : List (String × Threshold) :=
  [("error", .error), ("warning", .warning)]

def ruleOrders : List (String × RuleOrder) :=
  [("source", .source), ("compiler", .compiler)]

def choose {α : Type} (choices : List (String × α)) (value : String) : Except UsageError α :=
  match choices.lookup value with
  | some x => .ok x
  | none => .error .invalidValue

-- What was given so far, which of it, and the option that is not settled yet with the value that
-- came for it in an argument of its own. The next option or flag settles it, or the line's end.
structure Progress where
  options : Options := {}
  seen : List Name := []
  pending : Option (Valued × Option String) := none
  -- After two dashes nothing is an option.
  onlyOperands : Bool := false

-- Everything but an ignored pattern is given once at most.
def Progress.mark (p : Progress) (name : Name) : Except UsageError Progress :=
  if name ∈ p.seen && name ≠ .valued .ignore then .error .conflict
  else .ok { p with seen := name :: p.seen }

def setValue (o : Options) (option : Valued) (value : String) : Except UsageError Options :=
  match option with
  | .workspace => .ok { o with workspace := ⟨value⟩ }
  | .config => .ok { o with config := some ⟨value⟩ }
  | .output => do return { o with output := ← choose formats value }
  | .threshold => do return { o with threshold := ← choose thresholds value }
  | .outDir => .ok { o with outDir := some ⟨value⟩ }
  | .results => .ok { o with results := some ⟨value⟩ }
  | .ignore => .ok { o with ignore := o.ignore ++ [value] }
  | .node => .ok { o with node := some ⟨value⟩ }
  | .ruleOrder => do return { o with ruleOrder := some (← choose ruleOrders value) }

def Progress.give (p : Progress) (option : Valued) (value : String) :
    Except UsageError Progress := do
  let p ← p.mark (.valued option)
  return { p with options := ← setValue p.options option value }

def Progress.settle (p : Progress) : Except UsageError Progress :=
  match p.pending with
  | none => .ok p
  | some (_, none) => .error .invalidValue
  | some (option, some value) => { p with pending := none }.give option value

def Progress.raise (p : Progress) (flag : Flag) : Except UsageError Progress := do
  let p ← p.settle
  match flag with
  | .help => .error .help
  | .version => .error .version
  | .emitCss =>
    let p ← p.mark (.flag flag)
    return { p with options.emitCss := true }
  | .failOnWarnings =>
    let p ← p.mark (.flag flag)
    return { p with options.failOnWarnings := true }
  | .verbose =>
    let p ← p.mark (.flag flag)
    return { p with options.verbose := true }

-- An argument that starts with two dashes, without them.
def Progress.long (p : Progress) (cs : List Char) : Except UsageError Progress :=
  let name := cs.takeWhile (· ≠ '=')
  let value : Option String :=
    match cs.dropWhile (· ≠ '=') with
    | [] => none
    | _ :: value => some (String.ofList value)
  match names.lookup (String.ofList name), value with
  | none, _ => .error .unknownArgument
  | some (.flag _), some _ => .error .tooManyValues
  | some (.flag flag), none => p.raise flag
  | some (.valued option), some value => do (← p.settle).give option value
  | some (.valued option), none => do
    return { (← p.settle) with pending := some (option, none) }

-- Letters after one dash.
def Progress.short (p : Progress) : List Char → Except UsageError Progress
  | [] => .ok p
  | c :: cs =>
    match letters.lookup c with
    | none => .error .unknownArgument
    | some flag => do (← p.raise flag).short cs

-- The value of an option; there are no other operands.
def Progress.operand (p : Progress) (argument : String) : Except UsageError Progress :=
  match p.pending with
  | some (option, none) => .ok { p with pending := some (option, some argument) }
  | _ => .error .unknownArgument

def Progress.take (p : Progress) (argument : String) : Except UsageError Progress :=
  if p.onlyOperands then .error .unknownArgument
  else
    match argument.toList with
    | ['-', '-'] => .ok { p with onlyOperands := true }
    | '-' :: '-' :: cs => p.long cs
    | '-' :: c :: cs => p.short (c :: cs)
    | _ => p.operand argument

-- Reads a command line without the name of the program.
def parse (arguments : List String) : Except UsageError Options := do
  let p ← arguments.foldlM Progress.take {}
  return (← p.settle).options

end Options

end EmbeddedStyles
