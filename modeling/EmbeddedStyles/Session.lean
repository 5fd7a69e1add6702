import EmbeddedStyles.Lint
import EmbeddedStyles.Marker
import EmbeddedStyles.Path
import EmbeddedStyles.Stylesheet

namespace EmbeddedStyles

open Source (Position Replacements)

-- How the rules of a file are ordered in its stylesheet.
inductive RuleOrder where
  -- By where they start, rules that start at one place staying in the order of the report.
  | source
  -- As the compiler reports them.
  | compiler
  deriving DecidableEq, Repr

namespace RuleOrder

def arrange (order : RuleOrder) (rules : List Rule) : List Rule :=
  match order with
  | .source => rules.mergeSort fun a b => a.startOrOrigin.before b.startOrOrigin
  | .compiler => rules

end RuleOrder

-- A compiler with a state of its own. It may find nothing to report about a file.
abbrev Compiler (σ : Type) :=
  σ → (source : String) → (file : Path) → Except CompileError (Option Metadata) × σ

-- The same compiler, counting how often it is asked.
def Compiler.counted {σ : Type} (compiler : Compiler σ) : Compiler (σ × Nat) :=
  fun (s, calls) source file =>
    let (answer, s) := compiler s source file
    (answer, s, calls + 1)

-- What is extracted from a file.
inductive Extraction where
  | nothing
  | failed (error : CompileError)
  | styles (css : String) (ruleCount replacementCount : Nat)
  deriving DecidableEq, Repr

def Extraction.css : Extraction → String
  | .styles css _ _ => css
  | _ => ""

def Extraction.isStyles : Extraction → Bool
  | .styles _ _ _ => true
  | _ => false

-- Something with a line and a column that can be corrected.
class Located (α : Type) where
  line : α → UInt32
  column : α → UInt32
  withColumn : α → UInt32 → α

instance : Located Lint.Warning where
  line := (·.line)
  column := (·.column)
  withColumn w column := { w with column }

instance : Located Position where
  line := (·.line)
  column := (·.column)
  withColumn p column := { p with column }

def Located.correct {α : Type} [Located α] (rs : Replacements) (x : α) : α :=
  withColumn x (rs.correctColumn (line x) (column x))

theorem Located.correct_warning (rs : Replacements) : Located.correct rs =
    fun w : Lint.Warning => { w with column := rs.correctColumn w.line w.column } :=
  rfl

structure Session where
  ruleOrder : RuleOrder := .source
  -- Whether files without a marker are passed over without asking the compiler.
  markerCheck : Bool := true
  -- The replacements of each file, no file twice.
  memory : List (Path × Replacements) := []

namespace Session

def replacements? (s : Session) (file : Path) : Option Replacements :=
  (s.memory.find? (·.1.same file)).map Prod.snd

def forget (s : Session) (file : Path) : Session :=
  { s with memory := s.memory.filter (!·.1.same file) }

def remember (s : Session) (file : Path) (rs : Replacements) : Session :=
  { s with memory := (file, rs) :: (s.forget file).memory }

def clear (s : Session) : Session :=
  { s with memory := [] }

@[simp] theorem replacements?_clear (s : Session) (file : Path) :
    s.clear.replacements? file = none := rfl

theorem replacements?_forget (s : Session) (file other : Path) :
    (s.forget file).replacements? other =
      if file.same other then none else s.replacements? other := by
  have hp : (fun entry : Path × Replacements =>
      decide ((!entry.1.same file) = true ∧ entry.1.same other = true)) =
      fun entry => !file.same other && entry.1.same other := by
    funext entry
    grind [Path.same]
  simp only [replacements?, forget, List.find?_filter, hp]
  cases file.same other <;> simp

-- What is remembered last is what counts, and other files are left alone.
theorem replacements?_remember (s : Session) (file other : Path) (rs : Replacements) :
    (s.remember file rs).replacements? other =
      if file.same other then some rs else s.replacements? other := by
  have h := replacements?_forget s file other
  by_cases hs : file.same other = true
  · simp [replacements?, remember, hs]
  · simp_all [replacements?, remember]

-- Whether the compiler is asked about a source.
def asks (s : Session) (source : String) : Bool :=
  !s.markerCheck || Marker.hasMarker source

-- The stylesheet of a report.
def stylesheet (s : Session) (m : Metadata) : String :=
  Stylesheet.synthesize (s.ruleOrder.arrange m.ruleList)

-- What follows from the compiler's answer. Only a report changes what is remembered.
def settle (s : Session) (file : Path) :
    Except CompileError (Option Metadata) → Extraction × Session
  | .error error => (.failed error, s)
  | .ok none => (.nothing, s)
  | .ok (some m) =>
    (.styles (s.stylesheet m) m.rules.length m.replacements.length, s.remember file m.replacements)

def extract {σ : Type} (s : Session) (compiler : Compiler σ) (state : σ) (source : String)
    (file : Path) : Extraction × Session × σ :=
  if s.asks source then
    let (answer, state) := compiler state source file
    let (extraction, s) := s.settle file answer
    (extraction, s, state)
  else (.nothing, s, state)

-- Corrects the columns of what was found in a file, if its styles were extracted.
def correct? {α : Type} [Located α] (s : Session) (file : Path) (xs : List α) : Option (List α) :=
  (s.replacements? file).map fun rs => xs.map (Located.correct rs)

def correctResult? (s : Session) (file : Path) (r : Lint.Result) : Option Lint.Result :=
  (s.correct? file r.warnings).map fun warnings => { r with warnings }

end Session

-- The file a result is about. A path below the directory of the written stylesheets stands for the
-- file in the workspace whose stylesheet it is.
def sourcePath (source : String) (workspace : Path) (outDir : Option Path) : Path :=
  let path : Path := ⟨source⟩
  let path := if path.isAbsolute then path else workspace.join path
  match outDir.bind path.relativeTo? with
  | none => path
  | some relative =>
    let cs := relative.text.toList
    let ending := ['.', 'c', 's', 's']
    workspace.join
      ⟨String.ofList (if ending.isSuffixOf cs then cs.take (cs.length - ending.length) else cs)⟩

-- A result with its source and its warnings' columns set to those of the source file. Results
-- without a source have no place to go.
def Session.mapResult? (s : Session) (workspace : Path) (outDir : Option Path) (r : Lint.Result) :
    Option (Path × Lint.Result) :=
  r.source.map fun source =>
    let path := sourcePath source workspace outDir
    let corrected := (s.correctResult? path r).getD r
    (path, { corrected with source := some path.text })

def Session.mapResults (s : Session) (workspace : Path) (outDir : Option Path)
    (rs : List Lint.Result) : List (Path × Lint.Result) :=
  rs.filterMap (s.mapResult? workspace outDir)

end EmbeddedStyles
