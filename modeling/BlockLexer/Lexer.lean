import BlockLexer.Source
import BlockLexer.Stream

/-!
# The lexer

A lexer yields the tokens of a source one at a time, up to the end of the text or
to the first fault, and reports every fault at the place in the file that it came
from.

* `Lexer.next` is one pull, `Lexer.stage` the lexer as a stage;
* `tokenize` and `tokenizeFile` are all tokens of a text or a file.
-/

namespace BlockLexer

open Files Import

/-- A lexer on a source. -/
structure Lexer where
  source : Source
  stream : Stream

namespace Lexer

/-- A lexer at the beginning of a source. -/
def ofSource (source : Source) : Lexer where
  source := source
  stream :=
    let scan := (Scan.ofText source.text).report (.lexingStarted source.path source.table.size)
    { assembly := { scan } }

/-- The same lexer, started over on a source. -/
def reset (source : Source) (_ : Lexer) : Lexer :=
  ofSource source

/-- The number of blocks that are open. -/
def openBlocks (lexer : Lexer) : Nat :=
  lexer.stream.assembly.scan.blocks.length

/-- One pull. -/
def next (lexer : Lexer) : Lexer × Option (Except Fault Token) :=
  match lexer.stream.next lexer.source.table with
  | (stream, none) => ({ lexer with stream }, none)
  | (stream, some (.ok token)) => ({ lexer with stream }, some (.ok token))
  | (stream, some (.error fault)) =>
    ({ lexer with stream }, some (.error (lexer.source.locate fault)))

/-- A bound on the items that a lexer may still yield. -/
def remaining (lexer : Lexer) : Nat :=
  lexer.stream.remaining

/-- A pull that yields something comes nearer to the end. -/
theorem next_remaining_lt {lexer lexer' : Lexer} {item : Except Fault Token}
    (h : lexer.next = (lexer', some item)) : lexer'.remaining < lexer.remaining := by
  unfold next at h
  split at h
  · simp at h
  · next hpull =>
    simp only [Prod.mk.injEq] at h
    rw [← h.1]
    exact Stream.next_remaining_lt _ hpull
  · next hpull =>
    simp only [Prod.mk.injEq] at h
    rw [← h.1]
    exact Stream.next_remaining_lt _ hpull

/-- The lexer as a stage. -/
def stage : Stage Lexer Token where
  next := next
  remaining := remaining
  remaining_lt := next_remaining_lt

/-- All tokens of a source, or the fault that they end with. -/
def tokens (source : Source) : Except Fault (List Token) :=
  stage.collect (ofSource source)

/-- What happened up to the state of a lexer, the first event first. -/
def events (lexer : Lexer) : List Event :=
  lexer.stream.assembly.scan.events.reverse

end Lexer

/-- All tokens of a text that is said to come from a path. -/
def tokenize (tree : FileTree) (config : Config) (text : List Char) (origin : Path) :
    Except Fault (List Token) :=
  (Source.ofText tree config text origin).outcome.bind Lexer.tokens

/-- All tokens of a file. -/
def tokenizeFile (tree : FileTree) (config : Config) (path : Path) : Except Fault (List Token) :=
  (Source.ofFile tree config path).outcome.bind Lexer.tokens

end BlockLexer
