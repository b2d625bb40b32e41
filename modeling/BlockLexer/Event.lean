import BlockLexer.Rule

/-!
# Events

What a run reports besides its result.  The stages collect events in their
states, the latest first, and leave it to the command which of them it shows.
-/

namespace BlockLexer

/-- Something that happened in a run. -/
inductive Event where
  /-- An import is about to be put in its place. -/
  | importFound (target origin : List Char) (line : Nat)
  | lexingStarted (path : List Char) (lines : Nat)
  | ruleMatched (rule : Rule) (mode : Mode) (line column : Nat)
  | blockOpened (owner : List Char) (line depth : Nat)
  | blockClosed (owner : List Char) (line depth : Nat)
  | modeEntered (source target : Mode) (line : Nat)
  /-- A mode is left, and `target` is in force again. -/
  | modeLeft (target : Mode) (line : Nat)
  | bodyClosed (startLine lastLine indent : Nat)
  | stringJoined (line bytes : Nat)
  | lexingFinished (path : List Char) (tokens : Nat)
deriving DecidableEq

end BlockLexer
