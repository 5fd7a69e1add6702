import EmbeddedStyles.Path

namespace EmbeddedStyles

-- A name in a directory. It may be any bytes, also such as are no text.
structure FileName where
  bytes : ByteArray

namespace FileName

instance : DecidableEq FileName := fun ⟨⟨a⟩⟩ ⟨⟨b⟩⟩ =>
  decidable_of_decidable_of_iff (show a = b ↔ _ by simp)

def ofText (text : String) : FileName := ⟨text.toUTF8⟩

def text? (name : FileName) : Option String := String.fromUTF8? name.bytes

instance : Coe String FileName := ⟨ofText⟩

end FileName

inductive FileNode where
  | file (content : ByteArray) (executable : Bool)
  | link (target : String)
  | dir (entries : List (FileName × FileNode))

inductive FileError where
  | notFound
  | permissionDenied
  | alreadyExists
  | notDirectory
  | isDirectory
  | nameTooLong
  | tooManyLinks
  -- A pipe that nobody reads any more.
  | brokenPipe
  | notText
  -- A path, or what is handed to a program, with a character that no name can have.
  | nulInPath
  | nulInArgument
  deriving DecidableEq, Repr

def FileError.message : FileError → String
  | .notFound => "No such file or directory (os error 2)"
  | .permissionDenied => "Permission denied (os error 13)"
  | .alreadyExists => "File exists (os error 17)"
  | .notDirectory => "Not a directory (os error 20)"
  | .isDirectory => "Is a directory (os error 21)"
  | .nameTooLong => "File name too long (os error 36)"
  | .tooManyLinks => "Too many levels of symbolic links (os error 40)"
  | .brokenPipe => "Broken pipe (os error 32)"
  | .notText => "stream did not contain valid UTF-8"
  | .nulInPath => "file name contained an unexpected NUL byte"
  | .nulInArgument => "nul byte found in provided data"

namespace FileNode

def isDir : FileNode → Bool
  | .dir _ => true
  | _ => false

def child? (name : FileName) : FileNode → Option FileNode
  | .dir entries => (entries.find? (·.1 = name)).map Prod.snd
  | _ => none

-- The node at the end of a chain of names, links not followed.
def lookup? : FileNode → List FileName → Option FileNode
  | node, [] => some node
  | node, name :: names => (node.child? name).bind (·.lookup? names)

-- The node at the end of a chain of names that are texts, as they are in paths.
def get? (node : FileNode) (names : List String) : Option FileNode :=
  node.lookup? (names.map .ofText)

def putEntry (name : FileName) (node : FileNode) :
    List (FileName × FileNode) → List (FileName × FileNode)
  | [] => [(name, node)]
  | (n, old) :: entries =>
    if n = name then (name, node) :: entries else (n, old) :: putEntry name node entries

-- Puts a node at the end of a chain of names, making directories where the chain has none.
def put (old new : FileNode) : List String → FileNode
  | [] => new
  | name :: names =>
    let entries := match old with | .dir entries => entries | _ => []
    let inner := (old.child? name).getD (.dir [])
    .dir (putEntry name (inner.put new names) entries)

theorem child?_putEntry (name other : FileName) (node : FileNode)
    (entries : List (FileName × FileNode)) :
    child? other (.dir (putEntry name node entries)) =
      if name = other then some node else child? other (.dir entries) := by
  simp only [child?]
  induction entries with
  | nil => by_cases h : name = other <;> simp [putEntry, h]
  | cons e entries ih =>
    by_cases hn : e.1 = name <;> by_cases ho : e.1 = other <;> by_cases h : name = other <;>
      simp_all [putEntry]

-- What was put at the end of a chain is found there.
theorem get?_put (old new : FileNode) (names : List String) :
    (old.put new names).get? names = some new := by
  induction names generalizing old with
  | nil => simp [put, get?, lookup?]
  | cons name names ih => simpa [put, get?, lookup?, child?_putEntry] using ih _

mutual

-- The chains of names that lead to files.
def fileChains : FileNode → List (List FileName)
  | .file _ _ => [[]]
  | .link _ => []
  | .dir entries => entryChains entries

def entryChains : List (FileName × FileNode) → List (List FileName)
  | [] => []
  | (name, node) :: entries => node.fileChains.map (name :: ·) ++ entryChains entries

end

-- The chains of texts that lead to files, below a chain. A path through a name that is no text
-- is no text either.
def filesBelow (above : List String) (node : FileNode) : List (List String) :=
  node.fileChains.filterMap fun chain => (chain.mapM FileName.text?).map (above ++ ·)

end FileNode

-- A file system at rest. Every directory can be listed and every file read and written: a path is
-- refused only for its form, its length, or what it meets on its way from the root or from the
-- working directory, links included.
structure FileTree where
  root : FileNode
  -- The names that lead to the working directory.
  workingDir : List String

namespace FileTree

-- Where a path leads: to a node, or to a name that a directory does not have.
inductive Place where
  | found (names : List String)
  | missing (names : List String)

def segmentsOf (text : String) : List String :=
  (Path.segments text.toList).map String.ofList

-- How many bytes a name may have.
def maxName : Nat := 255

-- Follows segments from a node, which the names `above` lead to, the innermost first. A link hands
-- the names above it and its own segments with the rest to `follow`.
def walkSegments (root : FileNode)
    (follow : List String → List String → Except FileError Place) :
    (node : FileNode) → (above : List String) → List String → Except FileError Place
  | _, above, [] => .ok (.found above.reverse)
  | node, above, segment :: rest =>
    match node with
    | .dir entries =>
      if segment = "" || segment = "." then walkSegments root follow (.dir entries) above rest
      else if segment = ".." then
        match root.get? above.tail.reverse with
        | some node => walkSegments root follow node above.tail rest
        | none => .error .notFound
      else if maxName < segment.utf8ByteSize then .error .nameTooLong
      else
        match FileNode.child? segment (.dir entries) with
        | none =>
          if rest.isEmpty then .ok (.missing (segment :: above).reverse) else .error .notFound
        | some (.link target) =>
          follow (if target.toList.head? = some Path.separator then [] else above)
            (segmentsOf target ++ rest)
        | some node => walkSegments root follow node (segment :: above) rest
    | _ => .error .notDirectory

-- How many links a path may lead through.
def maxLinks : Nat := 40

-- Follows segments from the node that the names `above` lead to, the innermost first.
def walk (root : FileNode) : (links : Nat) → (above : List String) → List String →
    Except FileError Place
  | links, above, segments =>
    match root.get? above.reverse with
    | none => .error .notFound
    | some node =>
      match links with
      | 0 => walkSegments root (fun _ _ => .error .tooManyLinks) node above segments
      | links + 1 => walkSegments root (walk root links) node above segments

-- How many bytes a path may have.
def maxPath : Nat := 4095

-- Refuses paths that no file can have, before any file is looked at.
def checkPath (p : Path) : Except FileError Unit :=
  if p.text.toList.contains '\x00' then .error .nulInPath
  else if p.text = "" then .error .notFound
  else if maxPath < p.text.utf8ByteSize then .error .nameTooLong
  else .ok ()

-- Where segments lead, from the root or from the working directory as the path has it.
def follow (t : FileTree) (p : Path) (segments : List String) : Except FileError Place :=
  walk t.root maxLinks (if p.isAbsolute then [] else t.workingDir.reverse) segments

def place (t : FileTree) (p : Path) : Except FileError Place := do
  checkPath p
  t.follow p (segmentsOf p.text)

-- The names under which the node of a path is found without links.
def resolve (t : FileTree) (p : Path) : Except FileError (List String) := do
  match ← t.place p with
  | .found names => .ok names
  | .missing _ => .error .notFound

def node (t : FileTree) (p : Path) : Except FileError FileNode := do
  match t.root.get? (← t.resolve p) with
  | some node => .ok node
  | none => .error .notFound

def pathOf (names : List String) : Path :=
  ⟨"/" ++ "/".intercalate names⟩

-- The absolute path without links, dots or repeated separators.
def canonical (t : FileTree) (p : Path) : Except FileError Path := do
  return pathOf (← t.resolve p)

def has (t : FileTree) (p : Path) : Bool :=
  match t.node p with
  | .ok _ => true
  | .error _ => false

def isDir (t : FileTree) (p : Path) : Bool :=
  match t.node p with
  | .ok node => node.isDir
  | .error _ => false

def isExecutable (t : FileTree) (p : Path) : Bool :=
  match t.node p with
  | .ok (.file _ executable) => executable
  | _ => false

def readBytes (t : FileTree) (p : Path) : Except FileError ByteArray := do
  match ← t.node p with
  | .file content _ => .ok content
  | _ => .error .isDirectory

def readText (t : FileTree) (p : Path) : Except FileError String := do
  match String.fromUTF8? (← t.readBytes p) with
  | some text => .ok text
  | none => .error .notText

-- Writes a file, which is made if it is missing.
def writeText (t : FileTree) (p : Path) (text : String) : Except FileError FileTree := do
  match ← t.place p with
  | .found names =>
    match t.root.get? names with
    | some (.file _ executable) =>
      .ok { t with root := t.root.put (.file text.toUTF8 executable) names }
    | _ => .error .isDirectory
  | .missing names => .ok { t with root := t.root.put (.file text.toUTF8 false) names }

-- Makes one directory, whose name must not be taken, not even by a link.
def makeDir (t : FileTree) (p : Path) : Except FileError FileTree := do
  checkPath p
  match (segmentsOf p.text).reverse.dropWhile (· = "") with
  | [] => .error .alreadyExists
  | last :: above =>
    match ← t.follow p above.reverse with
    | .missing _ => .error .notFound
    | .found dir =>
      match t.root.get? dir with
      | some (.dir entries) =>
        if last = "." || last = ".." then .error .alreadyExists
        else if maxName < last.utf8ByteSize then .error .nameTooLong
        else if (FileNode.child? last (.dir entries)).isSome then .error .alreadyExists
        else .ok { t with root := t.root.put (.dir []) (dir ++ [last]) }
      | _ => .error .notDirectory

-- Makes a directory, if it is not there.
def addDir (t : FileTree) (p : Path) : Except FileError Unit × FileTree :=
  match t.makeDir p with
  | .ok t => (.ok (), t)
  | .error cause => (if t.isDir p then .ok () else .error cause, t)

-- Makes a directory after those above it that are missing. Those that were made stay if another
-- cannot be. A path has at most as many directories above it as components.
def addDirsBounded : (bound : Nat) → FileTree → Path → Except FileError Unit × FileTree
  | 0, t, _ => (.ok (), t)
  | bound + 1, t, p =>
    if p.components.isEmpty then (.ok (), t)
    else
      match t.makeDir p, p.parent? with
      | .error .notFound, none => (.error .notFound, t)
      | .error .notFound, some above =>
        match addDirsBounded bound t above with
        | (.error cause, t) => (.error cause, t)
        | (.ok (), t) => t.addDir p
      | _, _ => t.addDir p

def addDirs (t : FileTree) (p : Path) : Except FileError Unit × FileTree :=
  addDirsBounded (p.components.length + 1) t p

def makeDirs (t : FileTree) (p : Path) : Except FileError FileTree :=
  match t.addDirs p with
  | (.ok (), t) => .ok t
  | (.error cause, _) => .error cause

-- The files below a directory, links neither followed nor listed. The path of a file itself leads
-- to that file. A directory that cannot be opened would be passed over with all that is in it, but
-- below a directory that was found every other one is taken to be open, also where its own path is
-- longer than `maxPath`.
def filesBelow (t : FileTree) (p : Path) : List Path :=
  match t.node p with
  | .ok node =>
    (node.filesBelow []).map fun names =>
      if names.isEmpty then p else p.join ⟨"/".intercalate names⟩
  | .error _ => []

-- Whether a program can be started in a directory, the directory being looked at first. A name
-- alone is no path and is looked for in `searchPath`.
def canStart (t : FileTree) (searchPath : List Path) (program dir : Path) :
    Except FileError Unit := do
  if (program.text ++ dir.text).toList.contains '\x00' then throw .nulInArgument
  let names ← t.resolve dir
  match t.root.get? names with
  | some (.dir _) =>
    let inside : FileTree := { t with workingDir := names }
    if program.text.toList.contains Path.separator then
      match ← inside.node program with
      | .file _ true => .ok ()
      | _ => .error .permissionDenied
    else if searchPath.any fun entry => inside.isExecutable (entry.join program) then .ok ()
    else .error .notFound
  | _ => .error .notDirectory

end FileTree

end EmbeddedStyles
