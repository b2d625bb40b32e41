import BlockLexer.Command.Arguments
import BlockLexer.Lexer
import BlockLexer.Log.Filter
import BlockLexer.Token.Listing

/-!
# Runs of the command

A run of the command as a function: from the files, the arguments and the log
directives of the surroundings to what is written and the exit status.

* `lexFile` is the stream of a file, with the events on the way to it;
* `run` is a whole run.
-/

namespace BlockLexer.Command

open Files Import Text

/-- What a run leaves behind. -/
structure Output where
  status : Nat
  stdout : String
  stderr : String
deriving DecidableEq

/-- The extension of a path that is given without one. -/
def defaultExtension : List Char := ['3', 'l', 'm']

/-- The file that is meant by a path. -/
def inputPath (path : Path) : Path :=
  Path.withExtension defaultExtension path

/-- All tokens of a source, or the fault that they end with, and the events of the
whole stream. -/
def lexSource (source : Source) : Reported (List Token) :=
  let (lexer, items) := Lexer.stage.items (Lexer.ofSource source)
  { outcome := Stage.gather items, events := lexer.events }

/-- All tokens of a file.  The last event says how many they are. -/
def lexFile (tree : FileTree) (config : Config) (path : Path) : Reported (List Token) :=
  (Source.ofFile tree config path).andThen fun source =>
    (lexSource source).andThen fun tokens =>
      { outcome := .ok tokens, events := [.lexingFinished path tokens.length] }

/-- Lines of text, each closed by a line feed. -/
def linesText (lines : List String) : String :=
  String.join (lines.map (· ++ "\n"))

/-- What `lex` writes for its tokens. -/
def listing (format : Format) (tokens : List Token) : String :=
  match format with
  | .text => linesText (tokens.map fun token => String.ofList token.line)
  | .json => String.ofList (Json.list (tokens.map Token.json)).pretty ++ "\n"

/-- A run of an action.  Nothing is written to the standard output unless the whole
file is read without a fault. -/
def perform (tree : FileTree) (filter : LogFilter) (arguments : Arguments) : Output :=
  let given := arguments.path.getD []
  let path := inputPath given
  if !tree.contains path then
    { status := 1
      stdout := ""
      stderr := linesText ["Error: file not found: " ++ String.ofList path] }
  else
    let lexed := lexFile tree arguments.config path
    let log := filter.lines lexed.events
    match lexed.outcome with
    | .error fault => { status := 1, stdout := "", stderr := linesText (log ++ [fault.message]) }
    | .ok tokens =>
      match arguments.action with
      | .lex =>
        { status := 0, stdout := listing arguments.chosenFormat tokens, stderr := linesText log }
      | .check =>
        { status := 0, stdout := "", stderr := linesText (log ++ ["OK: " ++ String.ofList given]) }

/-- The name and the version of the command. -/
def versionLine : String := "e3lm 0.7.0"

/-- How the command is called. -/
def usageLines : List String :=
  ["Usage: e3lm [-v]... lex [--format text|json] [--no-imports] [--tab-width N] PATH",
    "       e3lm [-v]... check [--no-imports] [--tab-width N] PATH",
    "       e3lm --version"]

/-- A whole run.  `directives` are the log directives of the surroundings, which take
the place of the `-v` flags.  The lines about what is no directive come first. -/
def run (tree : FileTree) (directives : Option (List Char)) (arguments : List (List Char)) :
    Output :=
  match Request.read 0 arguments with
  | none => { status := 2, stdout := "", stderr := linesText usageLines }
  | some .version => { status := 0, stdout := linesText [versionLine], stderr := "" }
  | some (.run verbosity arguments) =>
    let output := perform tree (directives.elim (.ofVerbosity verbosity) .ofText) arguments
    { output with stderr := linesText (directives.elim [] LogFilter.complaints) ++ output.stderr }

end BlockLexer.Command
