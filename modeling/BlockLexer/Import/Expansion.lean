import BlockLexer.Files.Tree
import BlockLexer.Import.Directive
import BlockLexer.Reported
import BlockLexer.Text.Newlines

/-!
# Expansion of imports

Every directive is replaced by the lines of its target, indented like the
directive, and every line keeps the place that it came from.

* `Origin` and `FlatLine` are a line of the result with its place;
* `expandLines` walks the lines of one file, and `expand` follows a directive into
  the file it names, as deep as the settings allow;
* `Importer.run` expands a text.
-/

namespace BlockLexer.Import

open Text Files

/-! ## Flat text -/

/-- Where a line of a flat text came from. -/
structure Origin where
  path : Path
  line : Nat
  /-- The bytes of indentation that were put in front of the line. -/
  shift : Nat := 0
deriving DecidableEq

/-- A line of a flat text. -/
structure FlatLine where
  chars : List Char
  origin : Origin
deriving DecidableEq

/-- A line with more indentation.  An empty line stays empty. -/
def FlatLine.indented (indentation : List Char) (line : FlatLine) : FlatLine :=
  if line.chars.isEmpty then line
  else
    { chars := indentation ++ line.chars
      origin := { line.origin with shift := line.origin.shift + byteSize indentation } }

/-- The characters of a flat text. -/
def flatText (lines : List FlatLine) : List Char :=
  unlines (lines.map FlatLine.chars)

/-! ## One file -/

/-- The file that is being expanded: its path as messages show it, the directory
from which its targets are seen, and the locations of the files that lead to it and
of itself. -/
structure Place where
  path : Path
  directory : Path
  chain : List Location

/-- A fault of a directive, at its keyword. -/
def directiveFault (place : Place) (line : Line) (directive : Directive) (cause : Cause) :
    Fault where
  cause := cause
  line := line.number
  column := directive.indentation.length + 1
  path := place.path

/-- The lines of one file.  `follow` gives the lines of the target of a directive. -/
def expandLines (config : Config) (path : Path) (table : LineTable)
    (follow : Line → Directive → Reported (List FlatLine)) :
    BodyMemory → List Line → Reported (List FlatLine)
  | _, [] => { outcome := .ok [] }
  | memory, line :: rest =>
    let (inBody, memory) := memory.pass table line
    let directive? :=
      if config.followImports && !inBody then Directive.ofLine? line.chars else none
    match directive? with
    | none =>
      (expandLines config path table follow memory rest).map
        ({ chars := line.chars, origin := { path, line := line.number } } :: ·)
    | some directive =>
      (follow line directive).andThen fun inner =>
        (expandLines config path table follow memory rest).map
          (inner.map (FlatLine.indented directive.indentation) ++ ·)

/-! ## Following directives -/

/-- The text of a file with all its imports in their places.  `levels` is how much
deeper imports may still be nested. -/
def expand (tree : FileTree) (config : Config) :
    (levels : Nat) → Place → List Char → Reported (List FlatLine)
  | levels, place, text =>
    let table := LineTable.ofText config.tabWidth text
    let follow (line : Line) (directive : Directive) : Reported (List FlatLine) :=
      let fault := directiveFault place line directive
      match levels with
      | 0 => { outcome := .error (fault (.importsTooDeep config.maxImportDepth)) }
      | levels + 1 =>
        let target := directive.path config place.directory
        match tree.read target with
        | .error reason => { outcome := .error (fault (.unreadableImport target reason)) }
        | .ok (location, content) =>
          if place.chain.contains location then
            { outcome := .error (fault (.circularImport target)) }
          else
            let inner : Place :=
              { path := target
                directory := (Path.parent? target).getD ['.']
                chain := place.chain ++ [location] }
            let expanded := expand tree config levels inner (normalizeNewlines content)
            { expanded with
              events := .importFound target place.path line.number :: expanded.events }
    expandLines config place.path table follow none table.lines

/-! ## Texts -/

/-- Expands texts, one after the other. -/
structure Importer where
  tree : FileTree
  config : Config
  /-- The locations of the files that are being expanded.  Between two runs there
  are none. -/
  chain : List Location := []

namespace Importer

/-- The place of a text that is said to come from a path.  A text without a file
sees its targets from the working directory. -/
def placeOf (importer : Importer) (origin : Path) : Place :=
  if origin = textOrigin then { path := origin, directory := ['.'], chain := importer.chain }
  else
    { path := origin
      directory := (Path.parent? origin).getD ['.']
      chain :=
        match importer.tree.locate origin with
        | .ok location => importer.chain ++ [location]
        | .error _ => importer.chain }

/-- Expands a text that is said to come from a path. -/
def run (importer : Importer) (text : List Char) (origin : Path) :
    Importer × Reported (List FlatLine) :=
  let { tree, config, .. } := importer
  ({ importer with chain := [] },
    expand tree config config.maxImportDepth (importer.placeOf origin) (normalizeNewlines text))

end Importer

end BlockLexer.Import
