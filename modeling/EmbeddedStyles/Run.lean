import EmbeddedStyles.Check
import EmbeddedStyles.Worker.Script

namespace EmbeddedStyles.Run

-- The workspace as an absolute path, without links if it exists.
def resolveWorkspace (tree : FileTree) (workspace : Path) : Path :=
  let absolute :=
    if workspace.isAbsolute then workspace
    else (FileTree.pathOf tree.workingDir).join workspace
  match tree.canonical absolute with
  | .ok path => path
  | .error _ => absolute

def loadConfig (tree : FileTree) (path : Path) : Except Config.Error Config :=
  match tree.readText path with
  | .error cause => .error (.read path cause.message)
  | .ok text =>
    match Config.parse text with
    | .error reason => .error (.parse path reason)
    | .ok config => .ok config

-- The configuration in a directory, if there is one.
def findConfig (tree : FileTree) (dir : Path) : Except Config.Error Config :=
  let path := dir.join ⟨Config.fileName⟩
  if tree.has path then loadConfig tree path else .ok {}

-- Directories in which no sources are looked for.
def defaultIgnores : List String :=
  ["**/node_modules/**", "**/dist/**", "**/.styled-lint/**"]

def ignoreGlobs (exclude ignore : List String) : Except Glob.Error (List Glob) :=
  Glob.parseAll (exclude ++ ignore ++ defaultIgnores)

-- Whether a name ends with one of the extensions.
def hasExtension (extensions : List String) (name : String) : Bool :=
  extensions.any fun extension => extension.toList.isSuffixOf name.toList

def eligible (workspace : Path) (extensions : List String) (ignores : List Glob) (path : Path) :
    Bool :=
  hasExtension extensions (path.fileName?.getD "") &&
    !ignores.any (·.accepts (path.relativeTo workspace).text)

-- The files to check, in the order of their paths.
def discover (tree : FileTree) (workspace : Path) (extensions : List String) (ignores : List Glob) :
    List Path :=
  ((tree.filesBelow workspace).filter (eligible workspace extensions ignores)).mergeSort fun p q =>
    (p.compare q).isLE

-- What the surroundings of a run provide beside the file tree.
structure Environment where
  searchPath : List Path
  cacheDir : Path
  behaviour : Nat → Worker.Behaviour

-- The program that compiles styles, as the command line, the configuration or the system has it.
def chooseNode (o : Options) (config : Config) (env : Environment) (tree : FileTree)
    (workspace : Path) : Except Check.Error Path :=
  match o.node <|> config.node <|> Worker.findProgram tree env.searchPath (some workspace) with
  | some program => .ok program
  | none => .error .nodeNotFound

-- What a run needs before it can check files.
structure Plan where
  session : Session
  workspace : Path
  files : List Path
  launcher : Worker.Launcher
  tree : FileTree

def lift {ε α : Type} (wrap : ε → Check.Error) : Except ε α → Except Check.Error α
  | .ok x => .ok x
  | .error e => .error (wrap e)

def plan (o : Options) (env : Environment) (tree : FileTree) : Except Check.Error Plan := do
  let workspace := resolveWorkspace tree o.workspace
  let config ← lift .config
    (match o.config with
    | some path => loadConfig tree (workspace.join path)
    | none => findConfig tree workspace)
  let session := config.session
  let session := { session with ruleOrder := o.ruleOrder.getD session.ruleOrder }
  let ignores ← lift .invalidGlob (ignoreGlobs config.exclude o.ignore)
  let files := discover tree workspace config.fileExtensions ignores
  let program ← chooseNode o config env tree workspace
  let (launcher, tree) ← lift .worker
    (Worker.prepare tree env.searchPath program workspace env.cacheDir env.behaviour)
  return ⟨session, workspace, files, launcher, tree⟩

-- Runs the program and gives the requests that were sent, too.
def run (o : Options) (env : Environment) (tree : FileTree) :
    Check.Outcome × List Worker.Request :=
  match plan o env tree with
  | .error error => (⟨.error error, "", "", tree⟩, [])
  | .ok p =>
    let (outcome, _, client) :=
      Check.check o p.workspace p.files p.session (Worker.Client.compile p.launcher) {} p.tree
    (outcome, client.sent)

def version : String := "styled-lint-rs 0.3.1"

-- How a command ends: its exit status, what it prints, and the files it leaves. Nothing is said
-- here about wrong usage and help beyond the status.
structure Finish where
  status : UInt32
  stdout : String
  stderr : String
  tree : FileTree

def command (arguments : List String) (env : Environment) (tree : FileTree) : Finish :=
  match Options.parse arguments with
  | .error .version => ⟨0, version ++ "\n", "", tree⟩
  | .error .help => ⟨0, "", "", tree⟩
  | .error _ => ⟨2, "", "", tree⟩
  | .ok o =>
    let (outcome, _) := run o env tree
    match outcome.result with
    | .ok summary => ⟨if summary.failed then 1 else 0, outcome.stdout, outcome.stderr, outcome.tree⟩
    | .error error =>
      ⟨1, outcome.stdout, outcome.stderr ++ "Error: " ++ error.message ++ "\n", outcome.tree⟩

end EmbeddedStyles.Run
