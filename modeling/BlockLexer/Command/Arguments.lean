import BlockLexer.Config
import BlockLexer.Decimal.Numeral

/-!
# Arguments of the command

The command has the actions `lex` and `check`, options of its own, and options of
the actions.  `Request.read` reads a list of arguments.
-/

namespace BlockLexer.Command

/-- How the tokens are written. -/
inductive Format where
  | text | json
deriving DecidableEq

/-- What the command is asked to do. -/
inductive Action where
  | lex | check
deriving DecidableEq

/-- The arguments of an action. -/
structure Arguments where
  action : Action
  path : Option (List Char) := none
  format : Option Format := none
  noImports : Bool := false
  tabWidth : Option Nat := none
  /-- The number of `-v` flags behind the action. -/
  verbosity : Nat := 0

/-- What a list of arguments asks for. -/
inductive Request where
  | version
  | run (verbosity : Nat) (arguments : Arguments)

/-- The number of flags in an argument that is `-v`, `-vv` and so on, or `--verbose`. -/
def verboseFlags? (argument : List Char) : Option Nat :=
  match argument with
  | '-' :: 'v' :: more => if more.all (· = 'v') then some (more.length + 1) else none
  | _ => if argument = "--verbose".toList then some 1 else none

/-- Whether an argument asks for the version: it is `--version`, or `V` stands behind
the `v` flags of a cluster such as `-vvV`. -/
def asksVersion (argument : List Char) : Bool :=
  match argument with
  | '-' :: more => (more.dropWhile (· = 'v')).head? = some 'V' || more = "-version".toList
  | _ => false

namespace Arguments

/-- The arguments with a format, unless there is one or the name is unknown. -/
def setFormat (arguments : Arguments) (name : List Char) : Option Arguments :=
  if arguments.action = .check || arguments.format.isSome then none
  else if name = "text".toList then some { arguments with format := some .text }
  else if name = "json".toList then some { arguments with format := some .json }
  else none

/-- The arguments with a tab width, unless there is one or it is no number. -/
def setTabWidth (arguments : Arguments) (digits : List Char) : Option Arguments :=
  if arguments.tabWidth.isSome then none
  else (Decimal.readNat? digits).map fun width => { arguments with tabWidth := some width }

/-- The arguments with a path, unless there is one. -/
def setPath (arguments : Arguments) (path : List Char) : Option Arguments :=
  if arguments.path.isSome then none else some { arguments with path := some path }

/-- What stands behind a beginning of an argument. -/
def after? (start argument : List Char) : Option (List Char) :=
  if start.isPrefixOf argument then some (argument.drop start.length) else none

/-- Reads the arguments behind the action.  `plain` holds behind `--`, where every
argument is a path. -/
def readMore : (plain : Bool) → Arguments → List (List Char) → Option Arguments
  | _, arguments, [] => some arguments
  | true, arguments, argument :: more =>
    (arguments.setPath argument).bind (readMore true · more)
  | false, arguments, [argument] =>
    if argument = "--".toList then some arguments
    else readOne arguments argument
  | false, arguments, argument :: value :: more =>
    if argument = "--".toList then readMore true arguments (value :: more)
    else if argument = "--format".toList then
      (arguments.setFormat value).bind (readMore false · more)
    else if argument = "--tab-width".toList then
      (arguments.setTabWidth value).bind (readMore false · more)
    else (readOne arguments argument).bind (readMore false · (value :: more))
where
  /-- Reads one argument that is complete in itself. -/
  readOne (arguments : Arguments) (argument : List Char) : Option Arguments :=
    match verboseFlags? argument with
    | some flags => some { arguments with verbosity := arguments.verbosity + flags }
    | none =>
      if argument = "--no-imports".toList then
        if arguments.noImports then none else some { arguments with noImports := true }
      else
        match after? "--format=".toList argument, after? "--tab-width=".toList argument with
        | some name, _ => arguments.setFormat name
        | _, some digits => arguments.setTabWidth digits
        | none, none =>
          if argument.head? = some '-' && argument.length ≠ 1 then none
          else arguments.setPath argument

/-- The settings that the arguments ask for. -/
def config (arguments : Arguments) : Config where
  tabWidth := arguments.tabWidth.getD 4
  followImports := !arguments.noImports

/-- The format that the arguments ask for. -/
def chosenFormat (arguments : Arguments) : Format :=
  arguments.format.getD .text

end Arguments

/-- Reads the arguments of the command from its first one on.  Flags behind the
action take the place of flags in front of it. -/
def Request.read (verbosity : Nat) : List (List Char) → Option Request
  | [] => none
  | argument :: more =>
    match verboseFlags? argument with
    | some flags => Request.read (verbosity + flags) more
    | none =>
      if asksVersion argument then some .version
      else
        let action? :=
          if argument = "lex".toList then some Action.lex
          else if argument = "check".toList then some Action.check
          else none
        match action? with
        | none => none
        | some action =>
          (Arguments.readMore false { action } more).bind fun arguments =>
            if arguments.path.isNone then none
            else
              let flags := if arguments.verbosity = 0 then verbosity else arguments.verbosity
              some (.run flags arguments)

end BlockLexer.Command
