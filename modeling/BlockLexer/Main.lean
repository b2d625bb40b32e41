import BlockLexer.Command.Run

/-!
# The command

The outer layer: it asks the disk for the files that a run may need, hands them to
`Command.run` as a file tree, and writes what the run leaves behind.
-/

namespace BlockLexer.Main

open Files Import Text

/-- A location as the system writes it. -/
def systemPath (location : Location) : String :=
  String.ofList ('/' :: joinWith ['/'] location)

/-- What the disk holds at a location. -/
def lookUp (location : Location) : BaseIO (Option Node) := do
  let path := systemPath location
  match ← (IO.FS.readBinFile path).toBaseIO, ← (IO.FS.realPath path).toBaseIO with
  | .ok content, _ => return some (.ofBytes content)
  | .error _, .ok _ => return some .directory
  | .error _, .error _ => return none

/-- The tree with what the disk holds along a path. -/
def withPath (tree : FileTree) (path : Path) : IO FileTree := do
  let mut entries := tree.entries
  for location in waypoints tree.workingDirectory path do
    unless entries.any fun entry => entry.1 = location do
      if let some node ← lookUp location then
        entries := (location, node) :: entries
  return { tree with entries }

/-- The paths of the targets of a file that may be followed. -/
def targets (config : Config) (path : Path) (text : List Char) : List Path :=
  if config.followImports then
    let directory := (Path.parent? path).getD ['.']
    (splitLines (normalizeNewlines text)).filterMap fun line =>
      (Directive.ofLine? line).map (Directive.path config directory)
  else []

/-- The tree with the files at some paths and all files that they lead to.  A file
whose targets are known already is not read again. -/
partial def load (config : Config) (tree : FileTree) (known : List Location) :
    List Path → IO FileTree
  | [] => return tree
  | path :: more => do
    if path.contains '\x00' then load config tree known more
    else
      let tree ← withPath tree path
      match tree.read path with
      | .error _ => load config tree known more
      | .ok (location, text) =>
        if known.contains location then load config tree known more
        else load config tree (location :: known) (targets config path text ++ more)

/-- The files that a run with these arguments may need. -/
def treeFor (arguments : List (List Char)) : IO FileTree := do
  let here := toString (← IO.currentDir)
  let tree : FileTree :=
    { workingDirectory := waypoints [] here.toList |>.getLast?.getD [], entries := [] }
  match Command.Request.read 0 arguments with
  | some (.run _ chosen) =>
    load chosen.config tree [] [Command.inputPath (chosen.path.getD [])]
  | _ => return tree

/-- The environment variable with the log directives. -/
def logVariable : String := "RUST_LOG"

end BlockLexer.Main

open BlockLexer in
/-- Runs the command and answers its status. -/
def main (arguments : List String) : IO UInt32 := do
  let arguments := arguments.map String.toList
  let tree ← Main.treeFor arguments
  let directives ← IO.getEnv Main.logVariable
  let output := Command.run tree (directives.map String.toList) arguments
  (← IO.getStdout).putStr output.stdout
  (← IO.getStderr).putStr output.stderr
  return UInt32.ofNat output.status
