import BlockLexer.Decimal.Numeral
import BlockLexer.Text.Basic

/-!
# Log levels

A level says how much a log shows.  It is written by its name or its number
(`LogLevel.ofText?`); `ofText?_name` says that a name is read back.
-/

namespace BlockLexer

open Text

/-- How much a log shows: each level shows what those before it show. -/
inductive LogLevel where
  | off | error | warn | info | debug | trace
deriving DecidableEq

namespace LogLevel

/-- The levels in their order. -/
def all : List LogLevel :=
  [off, error, warn, info, debug, trace]

/-- The place of a level in their order. -/
def rank : LogLevel → Nat
  | off => 0
  | error => 1
  | warn => 2
  | info => 3
  | debug => 4
  | trace => 5

/-- The name of a level. -/
def name : LogLevel → String
  | off => "off"
  | error => "error"
  | warn => "warn"
  | info => "info"
  | debug => "debug"
  | trace => "trace"

/-- The name of a level in log lines, five characters wide. -/
def label : LogLevel → String
  | off => "  OFF"
  | error => "ERROR"
  | warn => " WARN"
  | info => " INFO"
  | debug => "DEBUG"
  | trace => "TRACE"

/-- The level at a place of their order. -/
def ofRank? (rank : Nat) : Option LogLevel :=
  all[rank]?

/-- The level of a number, or of a name in any case. -/
def ofText? (cs : List Char) : Option LogLevel :=
  match Decimal.readNat? cs with
  | some rank => ofRank? rank
  | none => all.find? fun level => equalsCaseless level.name.toList cs

/-- A level stands at its place. -/
@[simp] theorem ofRank?_rank (level : LogLevel) : ofRank? level.rank = some level := by
  cases level <;> rfl

/-- The name of a level is read back. -/
@[simp] theorem ofText?_name (level : LogLevel) : ofText? level.name.toList = some level := by
  cases level <;> decide

end LogLevel

end BlockLexer
