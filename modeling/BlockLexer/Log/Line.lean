import BlockLexer.Event
import BlockLexer.Log.Level
import BlockLexer.Text.Quoted

/-!
# Log lines

Every event has a level, a target, a message and named fields: `Event.level`,
`Event.target` and `Event.summary`.  `Event.line` writes them, and `Event.hasField`
knows the names of the fields, of which the message is one.
-/

namespace BlockLexer

open Text

/-- The part of the program that an event comes from. -/
inductive LogTarget where
  | imports | lexer | command
deriving DecidableEq

/-- The name of a target in log lines and directives. -/
def LogTarget.name : LogTarget → String
  | imports => "e3lm::preprocess"
  | lexer => "e3lm::lexer"
  | command => "e3lm::cli"

namespace Event

/-- The target of an event. -/
def target : Event → LogTarget
  | importFound _ _ _ => .imports
  | lexingFinished _ _ => .command
  | _ => .lexer

/-- The level from which on an event is shown. -/
def level : Event → LogLevel
  | lexingFinished _ _ => .info
  | importFound _ _ _ | lexingStarted _ _ | blockOpened _ _ _ | blockClosed _ _ _
  | bodyClosed _ _ _ => .debug
  | ruleMatched _ _ _ _ | modeEntered _ _ _ | modeLeft _ _ | stringJoined _ _ => .trace

/-- What happened, and the fields of an event in their order. -/
def summary : Event → String × List (String × String)
  | importFound target origin line =>
    ("inlining import",
      [("import", String.ofList target), ("from", String.ofList origin), ("line", toString line)])
  | lexingStarted path lines =>
    ("start lexing", [("path", String.ofList (quoted path)), ("lines", toString lines)])
  | ruleMatched rule mode line column =>
    ("match",
      [("rule", String.ofList (quoted rule.name.toList)), ("mode", mode.name),
        ("line", toString line), ("column", toString column)])
  | blockOpened owner line depth =>
    ("open block",
      [("owner", String.ofList owner), ("line", toString line), ("depth", toString depth)])
  | blockClosed owner line depth =>
    ("close block",
      [("owner", String.ofList owner), ("line", toString line), ("depth", toString depth)])
  | modeEntered source target line =>
    ("push mode", [("from", source.name), ("to", target.name), ("line", toString line)])
  | modeLeft target line => ("pop mode", [("to", target.name), ("line", toString line)])
  | bodyClosed startLine lastLine indent =>
    ("close body",
      [("start_line", toString startLine), ("end_line", toString lastLine),
        ("indent", toString indent)])
  | stringJoined line bytes => ("string", [("line", toString line), ("len", toString bytes)])
  | lexingFinished path tokens =>
    ("lexed", [("path", String.ofList path), ("tokens", toString tokens)])

/-- An event as a line of a log. -/
def line (event : Event) : String :=
  let (message, fields) := event.summary
  fields.foldl (fun text (name, value) => text ++ " " ++ name ++ "=" ++ value)
    (event.level.label ++ " " ++ event.target.name ++ ": " ++ message)

/-- Whether an event has a field of a name.  Every event has a message. -/
def hasField (event : Event) (name : List Char) : Bool :=
  name = "message".toList || event.summary.2.any fun field => field.1.toList = name

end Event

end BlockLexer
