import BlockLexer.Lexeme
import BlockLexer.Line
import BlockLexer.Config
import BlockLexer.Files.Path

/-!
# Import directives

A line is a directive if the pattern of directives takes all of it.  A line inside
a body never is one, so the lines of a file are walked with a memory of the body
that is open (`BodyMemory`).
-/

namespace BlockLexer.Import

open Text

/-- A directive: the blanks in front of it, and its target as written. -/
structure Directive where
  indentation : List Char
  target : List Char
deriving DecidableEq

/-- The directive on a line, if the line is one. -/
def Directive.ofLine? (cs : List Char) : Option Directive :=
  match Lexeme.directive cs with
  | some (_, []) =>
    some { indentation := cs.takeWhile isBlank, target := Lexeme.directiveTarget cs }
  | _ => none

/-- The path of a target, as seen from the directory of the file that names it. -/
def Directive.path (config : Config) (directory : Files.Path) (directive : Directive) :
    Files.Path :=
  Files.Path.join directory (Files.Path.appendExtension config.extension directive.target)

/-- The indentation of the body that is open, if one is. -/
abbrev BodyMemory := Option Nat

/-- Whether a line belongs to the body that is open, and the memory behind it.  The
marker that closes a body belongs to it, the one that opens it does not. -/
def BodyMemory.pass (table : LineTable) (memory : BodyMemory) (line : Line) :
    Bool × BodyMemory :=
  match memory with
  | some indent =>
    if line.isMarker then (true, none)
    else if line.isBlank || indent ≤ line.indent then (true, some indent)
    else (false, none)
  | none =>
    if line.isMarker then (false, some (table.bodyIndent line.number))
    else (false, none)

end BlockLexer.Import
