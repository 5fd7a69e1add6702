import EmbeddedStyles.Config
import EmbeddedStyles.FileTree
import EmbeddedStyles.Glob
import EmbeddedStyles.Options
import EmbeddedStyles.Worker.Client

namespace EmbeddedStyles.Check

open Lint (Severity Warning)

inductive Error where
  | invalidGlob (error : Glob.Error)
  | config (error : Config.Error)
  | nodeNotFound
  | worker (error : Worker.Error)
  | readResults (path : Path) (reason : String)
  | writeFailed (path : Path) (reason : String)

def Error.message : Error → String
  | .invalidGlob error => "invalid glob pattern: " ++ error.message
  | .config error => error.message
  | .nodeNotFound => "node not found: install Node.js or pass --node"
  | .worker error => error.message
  | .readResults path reason => "failed to read lint results from " ++ path.text ++ ": " ++ reason
  | .writeFailed path reason => "failed to write " ++ path.text ++ ": " ++ reason

-- What a run leaves behind.
structure Outcome where
  result : Except Error Summary
  stdout : String
  stderr : String
  tree : FileTree

-- A character in the log. Those that could steer a terminal are shown by their codes.
def loggedChar (c : Char) : List Char :=
  let n := c.toNat
  if n = 7 || n = 8 || n = 12 || n = 27 || n = 127 then
    ['\\', 'x', Nat.digitChar (n / 16), Nat.digitChar (n % 16)]
  else if 0x80 ≤ n && n < 0xA0 then
    ['\\', 'u', '\x7b'] ++ Nat.toDigits 16 n ++ ['\x7d']
  else [c]

-- A line of the log.
def logged (message : String) : String :=
  " WARN " ++ String.ofList (message.toList.flatMap loggedChar) ++ "\n"

-- A file whose styles were extracted.
structure StyledFile where
  path : Path
  -- The path seen from the workspace.
  relative : Path
  source : String
  css : String

-- How far the extraction of a list of files has come.
structure Pass (σ : Type) where
  session : Session
  state : σ
  styled : List StyledFile := []
  failed : Nat := 0
  log : String := ""

-- Files that cannot be read or compiled are logged, and files without rules are left out.
def Pass.add {σ : Type} (p : Pass σ) (compiler : Compiler σ) (tree : FileTree)
    (workspace path : Path) : Pass σ :=
  match tree.readText path with
  | .error cause =>
    { p with log := p.log ++ logged ("failed to read " ++ path.text ++ ": " ++ cause.message) }
  | .ok source =>
    let (extraction, session, state) := p.session.extract compiler p.state source path
    let p := { p with session, state }
    match extraction with
    | .nothing => p
    | .failed error => { p with failed := p.failed + 1, log := p.log ++ logged error.message }
    | .styles css _ _ =>
      if css.isEmpty then p
      else { p with styled := p.styled ++ [⟨path, path.relativeTo workspace, source, css⟩] }

def extractFiles {σ : Type} (p : Pass σ) (compiler : Compiler σ) (tree : FileTree)
    (workspace : Path) (files : List Path) : Pass σ :=
  files.foldl (fun p path => p.add compiler tree workspace path) p

-- The stylesheets under headers with the names of their files.
def emittedCss (files : List StyledFile) : String :=
  String.join (files.map fun file => "/* " ++ file.relative.text ++ " */\n" ++ file.css ++ "\n\n")

-- Where the stylesheet of a file is written.
def cssPath (outDir : Path) (file : StyledFile) : Path :=
  outDir.join ⟨file.relative.text ++ ".css"⟩

-- Writes a stylesheet after its directory was made, or was not.
def writeInto (parent target : Path) (css : String) :
    Except FileError Unit × FileTree → Except Error Unit × FileTree
  | (.error cause, tree) => (.error (.writeFailed parent cause.message), tree)
  | (.ok (), tree) =>
    match tree.writeText target css with
    | .error cause => (.error (.writeFailed target cause.message), tree)
    | .ok tree => (.ok (), tree)

def writeFile (tree : FileTree) (outDir : Path) (file : StyledFile) :
    Except Error Unit × FileTree :=
  let target := cssPath outDir file
  let parent := target.parent?.getD ⟨""⟩
  writeInto parent target file.css (tree.addDirs parent)

-- A step on the files and another one after it, unless the first fails.
def followedBy (step : Except Error Unit × FileTree)
    (next : FileTree → Except Error Unit × FileTree) : Except Error Unit × FileTree :=
  match step with
  | (.error error, tree) => (.error error, tree)
  | (.ok (), tree) => next tree

-- Writes the stylesheets in turn, up to the first that cannot be written.
def writeCss (outDir : Path) : FileTree → List StyledFile → Except Error Unit × FileTree
  | tree, [] => (.ok (), tree)
  | tree, file :: files => followedBy (writeFile tree outDir file) (writeCss outDir · files)

def readResults (tree : FileTree) (path : Path) : Except Error (List Lint.Result) :=
  match tree.readText path with
  | .error cause => .error (.readResults path cause.message)
  | .ok text =>
    match Lint.Result.parseMany text with
    | .error failure => .error (.readResults path (failure.message text.toList))
    | .ok results => .ok results

def included (threshold : Threshold) (w : Warning) : Bool :=
  match threshold with
  | .error => w.severity = .error
  | .warning => true

-- The warnings to be shown for each file.
def shown (threshold : Threshold) (mapped : List (Path × Lint.Result)) :
    List (Path × List Warning) :=
  mapped.map fun (path, result) => (path, result.warnings.filter (included threshold))

def countSeverity (severity : Severity) (files : List (Path × List Warning)) : Nat :=
  files.foldr (fun file count => file.2.countP (·.severity = severity) + count) 0

def sourceOf (styled : List StyledFile) (path : Path) : Option String :=
  (styled.find? (·.path.same path)).map (·.source)

-- The report on the warnings, the summary included unless the report is JSON.
def reportText (format : Report.Format) (workspace : Path) (styled : List StyledFile)
    (files : List (Path × List Warning)) (summary : Summary) : String :=
  match format with
  | .json =>
    (Json.array (files.flatMap fun (path, warnings) =>
      warnings.map (Report.toJson (path.relativeTo workspace).text))).pretty ++ "\n"
  | format =>
    String.join (files.map fun (path, warnings) =>
      Report.format format warnings (path.relativeTo workspace).text (sourceOf styled path)) ++
      summary.text ++ "\n"

def sourcelessLog (results : List Lint.Result) : String :=
  String.join ((results.filter (·.source.isNone)).map fun _ =>
    logged "skipping lint result without a source path")

-- Where the stylesheets are written, if they are.
def outDir? (o : Options) (workspace : Path) : Option Path :=
  o.outDir.map workspace.join

-- Emits and writes the stylesheets of a pass, and maps and reports the results.
def conclude {σ : Type} (o : Options) (workspace : Path) (fileCount : Nat) (tree : FileTree)
    (p : Pass σ) : Outcome :=
  let summary : Summary := ⟨fileCount, p.styled.length, p.failed, 0, 0, o.failOnWarnings⟩
  let emitted := if o.emitCss then emittedCss p.styled else ""
  -- The array alone goes to the standard output.
  let asJson := o.output = .json
  let stdout := if asJson then "" else emitted
  let stderr := p.log ++ if asJson then emitted else ""
  let outDir := outDir? o workspace
  let (written, tree) : Except Error Unit × FileTree :=
    match outDir with
    | none => (.ok (), tree)
    | some outDir => writeCss outDir tree p.styled
  match written with
  | .error error => ⟨.error error, stdout, stderr, tree⟩
  | .ok () =>
    match o.results with
    | none => ⟨.ok summary, stdout ++ if asJson then "" else summary.text ++ "\n", stderr, tree⟩
    | some results =>
      match readResults tree (workspace.join results) with
      | .error error => ⟨.error error, stdout, stderr, tree⟩
      | .ok results =>
        let files := shown o.threshold (p.session.mapResults workspace outDir results)
        let summary := { summary with
          errorCount := countSeverity .error files
          warningCount := countSeverity .warning files }
        ⟨.ok summary, stdout ++ reportText o.output workspace p.styled files summary,
          stderr ++ sourcelessLog results, tree⟩

-- Checks files, and gives what became of the session and of the compiler.
def check {σ : Type} (o : Options) (workspace : Path) (files : List Path) (session : Session)
    (compiler : Compiler σ) (state : σ) (tree : FileTree) : Outcome × Session × σ :=
  let p := extractFiles { session, state } compiler tree workspace files
  (conclude o workspace files.length tree p, p.session, p.state)

end EmbeddedStyles.Check
