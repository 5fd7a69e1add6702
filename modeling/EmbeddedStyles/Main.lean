import EmbeddedStyles.Run

namespace EmbeddedStyles.Command

def namesOf (path : String) : List String :=
  (FileTree.segmentsOf path).filter (· ≠ "")

-- A file or directory as it is on the disk, links left out.
partial def snapshot (path : String) : IO (Option FileNode) := do
  let here ← IO.currentDir
  let place := here / path
  match (← place.symlinkMetadata).type with
  | .dir =>
    let mut entries : List (FileName × FileNode) := []
    for entry in ← place.readDir do
      if let some node ← snapshot entry.path.toString then
        entries := (entry.fileName, node) :: entries
    return some (.dir entries)
  | .file => return some (.file (← IO.FS.readBinFile place) true)
  | _ => return none

def addSnapshot (root : FileNode) (path : String) : IO FileNode := do
  try
    match ← snapshot path with
    | some node => return root.put node (namesOf path)
    | none => return root
  catch _ => return root

-- What the options name, seen from the workspace, and the workspace and the working directory.
def named (here : Path) (o : Options) : List Path :=
  let workspace := here.join o.workspace
  here :: workspace ::
    ([o.config, o.results, o.outDir].filterMap id).map workspace.join ++
    (o.node.map here.join).toList

def cacheDir : IO Path := do
  let home := (← IO.getEnv "HOME").getD "/"
  let base := (← IO.getEnv "XDG_CACHE_HOME").map Path.mk |>.getD ((Path.mk home).join ⟨".cache"⟩)
  return base.join ⟨"styled-lint-rs"⟩

def readLines (input : IO.FS.Stream) : IO (List String) := do
  let text ← input.readToEnd
  return (text.splitOn "\n").filter (!·.isEmpty)

-- Workers are not started from here: what one prints comes in on the standard input, the line that
-- says it is ready first.
def worker (lines : List String) : Worker.Playlist where
  ready := lines.head?.map .text
  replies := (lines.drop 1).map .text
  exit := ⟨0, ""⟩

-- Writes the files that are new or different.
def writeBack (before after : FileNode) : IO Unit := do
  for names in after.filesBelow [] do
    if let some (.file content _) := after.get? names then
      let same := match before.get? names with
        | some (.file old _) => old == content
        | _ => false
      unless same do
        IO.FS.createDirAll (FileTree.pathOf names.dropLast).text
        IO.FS.writeBinFile (FileTree.pathOf names).text content

end EmbeddedStyles.Command

open EmbeddedStyles in
def main (arguments : List String) : IO UInt32 := do
  let here := (← IO.currentDir).toString
  let paths := match Options.parse arguments with
    | .ok o => (Command.named ⟨here⟩ o).map Path.text
    | .error _ => []
  let root ← paths.foldlM Command.addSnapshot (.dir [])
  let lines ← if paths.isEmpty then pure [] else Command.readLines (← IO.getStdin)
  let environment : Run.Environment :=
    ⟨[], ← Command.cacheDir, Worker.Playlist.supply [Command.worker lines]⟩
  let finish := Run.command arguments environment ⟨root, Command.namesOf here⟩
  Command.writeBack root finish.tree.root
  IO.print finish.stdout
  IO.eprint finish.stderr
  return finish.status
