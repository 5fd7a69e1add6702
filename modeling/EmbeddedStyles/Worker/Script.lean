import EmbeddedStyles.Worker.Client

namespace EmbeddedStyles.Worker

def scriptName : String := "node-style-compiler.mjs"

def scriptLines : List String := [
  "import \x7b createInterface \x7d from 'node:readline';",
  "import \x7b stdin, stdout \x7d from 'node:process';",
  "import \x7b createRequire \x7d from 'node:module';",
  "import \x7b pathToFileURL \x7d from 'node:url';",
  "",
  "let babel = null;",
  "try \x7b",
  "  const require = createRequire(pathToFileURL(process.cwd() + '/'));",
  "  babel = require('@babel/core');",
  "\x7d catch (err) \x7b",
  "  const message = err && err.message ? err.message : String(err);",
  "  console.error(`styled-lint-rs node runner failed to load @babel/core: $\x7bmessage\x7d`);",
  "  process.exit(2);",
  "\x7d",
  "",
  "stdout.write(JSON.stringify(\x7b ready: true \x7d) + '\\n');",
  "",
  "const rl = createInterface(\x7b input: stdin, crlfDelay: Infinity \x7d);",
  "",
  "for await (const line of rl) \x7b",
  "  if (!line.trim()) continue;",
  "",
  "  let req;",
  "  try \x7b",
  "    req = JSON.parse(line);",
  "  \x7d catch (err) \x7b",
  "    const message = err && err.message ? err.message : String(err);",
  "    stdout.write(JSON.stringify(\x7b id: null, protocolError: `invalid json: $\x7bmessage\x7d` \x7d) + '\\n');",
  "    continue;",
  "  \x7d",
  "",
  "  const id = req.id;",
  "",
  "  try \x7b",
  "    const result = babel.transformSync(req.source, \x7b filename: req.filename \x7d);",
  "    const styles = result && result.metadata ? result.metadata.linaria : null;",
  "    const metadata = styles",
  "      ? \x7b rules: styles.rules || \x7b\x7d, replacements: styles.replacements || [] \x7d",
  "      : null;",
  "    stdout.write(JSON.stringify(\x7b id, metadata \x7d) + '\\n');",
  "  \x7d catch (err) \x7b",
  "    const message = err && err.message ? err.message : String(err);",
  "    stdout.write(JSON.stringify(\x7b id, error: message \x7d) + '\\n');",
  "  \x7d",
  "\x7d",
  ""]

def script : String :=
  "\n".intercalate scriptLines

-- Makes sure that the script is in the directory. Another one that is there is replaced.
def prepareScript (t : FileTree) (cacheDir : Path) : Except Error FileTree :=
  match t.makeDirs cacheDir with
  | .error cause => .error (.scriptFailed ("failed to create cache dir: " ++ cause.message))
  | .ok t =>
    let path := cacheDir.join ⟨scriptName⟩
    let upToDate : Bool :=
      match t.readBytes path with
      | .ok content => content == script.toUTF8
      | .error _ => false
    if upToDate then .ok t
    else
      match t.writeText path script with
      | .error cause =>
        .error (.scriptFailed ("failed to write node runner script: " ++ cause.message))
      | .ok t => .ok t

-- Gets ready to start workers with a program, in a directory.
def prepare (t : FileTree) (searchPath : List Path) (program dir cacheDir : Path)
    (behaviour : Nat → Behaviour) : Except Error (Launcher × FileTree) :=
  if t.has program then do
    let t ← prepareScript t cacheDir
    let launcher : Launcher := fun attempt => do
      t.canStart searchPath program dir
      return behaviour attempt
    return (launcher, t)
  else .error (.notFound program)

-- The program to use: the one that comes with the workspace, or else the first on the search path.
def findProgram (t : FileTree) (searchPath : List Path) (workspace : Option Path) : Option Path :=
  let local? := workspace.map fun dir => (dir.join ⟨"node_modules/.bin"⟩).join ⟨"node"⟩
  match local?.filter t.has with
  | some program => some program
  | none => (searchPath.map (·.join ⟨"node"⟩)).find? t.isExecutable

end EmbeddedStyles.Worker
