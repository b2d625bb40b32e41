import BlockLexer.Import.Expansion

/-!
# Sources

A source is a flat text that is ready to be read, with its line table and with the
origin of every line.  `Source.locate` takes a fault that was found in the flat
text back to the file it came from.
-/

namespace BlockLexer

open Files Import

/-- A flat text with what is needed to read it. -/
structure Source where
  path : Path
  text : List Char
  table : LineTable
  /-- The origins of the lines, one for each. -/
  origins : List Origin

namespace Source

/-- The source of expanded lines. -/
def ofLines (config : Config) (path : Path) (lines : List FlatLine) : Source where
  path := path
  text := flatText lines
  table := .ofText config.tabWidth (flatText lines)
  origins := lines.map FlatLine.origin

/-- The source of a text that is said to come from a path. -/
def ofText (tree : FileTree) (config : Config) (text : List Char) (origin : Path) :
    Reported Source :=
  let importer : Importer := { tree, config }
  (importer.run text origin).2.map (ofLines config origin)

/-- The source of a file. -/
def ofFile (tree : FileTree) (config : Config) (path : Path) : Reported Source :=
  match tree.read path with
  | .error reason =>
    { outcome := .error { cause := .unreadableFile path reason, line := 0, column := 0, path } }
  | .ok (_, text) => ofText tree config text path

/-- The origin of a line of the flat text. -/
def origin? (source : Source) (line : Nat) : Option Origin :=
  if line = 0 then none else source.origins[line - 1]?

/-- A fault of the flat text at the place that it came from. -/
def locate (source : Source) (fault : Fault) : Fault :=
  match source.origin? fault.line with
  | none => { fault with path := source.path }
  | some origin =>
    { fault with
      path := origin.path
      line := origin.line
      column := max (fault.column - origin.shift) 1 }

end Source

end BlockLexer
