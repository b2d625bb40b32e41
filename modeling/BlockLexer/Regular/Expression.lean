import BlockLexer.Regular.CharacterClass
import BlockLexer.Text.AlphanumericCharacter

/-!
# Regular expressions

`Regular.fault?` says what keeps a text from being matched as a regular expression:
it is none, or it asks for boundaries of words in the sense of Unicode, which an
automaton over bytes cannot find.

The text is read part by part.  `Reading` is what is known of the parts that were
read: the groups that are open, the branch that is being read, and how what follows
is read.
-/

namespace BlockLexer.Regular

open Text

/-- What can be wrong with an expression. -/
inductive Fault where
  | malformed
  | unicodeWordBoundary
deriving DecidableEq

/-- The message of a fault. -/
def Fault.message : Fault → String
  | malformed => "error building NFA"
  | unicodeWordBoundary =>
    "unsupported regex feature for DFAs: cannot build DFAs for regexes with Unicode word " ++
      "boundaries; switch to ASCII word boundaries, or heuristically enable Unicode word " ++
      "boundaries or use a different regex engine"

/-! ## Groups -/

/-- A mark between the question mark and the end of the flags of a group. -/
inductive FlagMark where
  | minus
  | flag (c : Char)
deriving DecidableEq

/-- The letters of the flags. -/
def flagLetters : List Char :=
  ['i', 'm', 's', 'U', 'u', 'R', 'x']

/-- Reads a mark. -/
def FlagMark.ofChar? (c : Char) : Option FlagMark :=
  if c = '-' then some minus
  else if flagLetters.contains c then some (flag c)
  else none

/-- Reads marks.  None may stand there twice, and the minus sign not at the end. -/
def readMarks (cs : List Char) : Option (List FlagMark) :=
  (cs.mapM FlagMark.ofChar?).bind fun marks =>
    if marks.eraseDups = marks && marks.getLast? ≠ some .minus then some marks else none

/-- What a flag is set to: on before the minus sign, off behind it. -/
def flagState (marks : List FlagMark) (c : Char) : Option Bool :=
  if marks.contains (.flag c) then some ((marks.takeWhile (· ≠ .flag c)).all (· ≠ .minus))
  else none

/-- The setting behind some flags. -/
def Setting.apply (setting : Setting) (marks : List FlagMark) : Setting where
  unicode := (flagState marks 'u').getD setting.unicode
  spaced := (flagState marks 'x').getD setting.spaced

/-- A character that a name of a group may begin with. -/
def startsGroupName (c : Char) : Bool :=
  c = '_' || isAlphabetic c

/-- A character that may stand in a name of a group after its first character. -/
def continuesGroupName (c : Char) : Bool :=
  c = '_' || c = '.' || c = '[' || c = ']' || isAlphanumeric c

/-- What stands behind an opening parenthesis. -/
inductive Opening where
  /-- A group, whose name may be given. -/
  | group (name : Option (List Char))
  /-- A group with flags of its own. -/
  | groupWith (marks : List FlagMark)
  /-- Flags for what follows. -/
  | flags (marks : List FlagMark)

/-- Reads the name of a group and the angle bracket behind it. -/
def readGroupName (cs : List Char) : Option (Opening × List Char) :=
  let name := cs.takeWhile (· ≠ '>')
  match name, cs.dropWhile (· ≠ '>') with
  | c :: more, _ :: rest =>
    if startsGroupName c && more.all continuesGroupName then some (.group (some name), rest)
    else none
  | _, _ => none

/-- Reads flags and the sign behind them.  Flags for what follows may not be empty. -/
def readFlags (cs : List Char) : Option (Opening × List Char) :=
  let isMark := fun c : Char => c ≠ ':' && c ≠ ')'
  (readMarks (cs.takeWhile isMark)).bind fun marks =>
    match cs.dropWhile isMark with
    | ':' :: rest => some (.groupWith marks, rest)
    | _ :: rest => if marks.isEmpty then none else some (.flags marks, rest)
    | [] => none

/-- Reads what follows an opening parenthesis. -/
def readOpening (setting : Setting) (cs : List Char) : Option (Opening × List Char) :=
  match skip setting cs with
  | '?' :: 'P' :: '<' :: rest | '?' :: '<' :: rest => readGroupName rest
  | '?' :: rest => readFlags rest
  | rest => some (.group none, rest)

/-! ## Reading -/

/-- A part of a branch that was read. -/
structure Part where
  /-- How deep it is nested. -/
  depth : Nat := 0
  /-- Whether it only sets flags, so that it cannot be repeated. -/
  isFlags : Bool := false

/-- A branch that is being read. -/
structure Branch where
  /-- Its parts, the last one first. -/
  parts : List Part := []
  /-- How deep the branches before it are nested. -/
  earlier : List Nat := []

namespace Branch

/-- How deep a branch is nested. -/
def depth (branch : Branch) : Nat :=
  nesting (branch.parts.map Part.depth)

/-- How deep a branch and those before it are nested. -/
def fullDepth (branch : Branch) : Nat :=
  nesting (branch.depth :: branch.earlier)

/-- The branch with one part more. -/
def add (branch : Branch) (part : Part) : Branch :=
  { branch with parts := part :: branch.parts }

/-- The branch that follows. -/
def next (branch : Branch) : Branch where
  parts := []
  earlier := branch.depth :: branch.earlier

/-- The branch whose last part is repeated. -/
def repeatLast? (branch : Branch) : Option Branch :=
  match branch.parts with
  | [] => none
  | part :: parts =>
    if part.isFlags then none
    else some { branch with parts := { depth := part.depth + 1 } :: parts }

end Branch

/-- A group that is open: what was read of its surroundings, and how they are read. -/
structure OpenGroup where
  branch : Branch
  setting : Setting

/-- What was read of an expression. -/
structure Reading where
  setting : Setting := {}
  branch : Branch := {}
  groups : List OpenGroup := []
  /-- The names of the groups. -/
  names : List (List Char) := []
  /-- Whether words in the sense of Unicode decide about a place. -/
  asksForWords : Bool := false

namespace Reading

/-- The deepest nesting of an expression. -/
def maxDepth : Nat := 250

/-- One part more in the branch that is read. -/
def add (reading : Reading) (part : Part) : Reading :=
  { reading with branch := reading.branch.add part }

/-- A primitive as the next part. -/
def addPrimitive (reading : Reading) (primitive : Primitive) : Option Reading :=
  if !primitive.fits reading.setting then none
  else
    let asks := primitive = .assertion true && reading.setting.unicode
    some { reading.add {} with asksForWords := reading.asksForWords || asks }

/-- A group is opened. -/
def push (reading : Reading) (setting : Setting) : Reading :=
  { reading with
    setting, branch := {}
    groups := { branch := reading.branch, setting := reading.setting } :: reading.groups }

/-- What stands behind a parenthesis is opened or set.  No two groups have one name. -/
def enter (reading : Reading) : Opening → Option Reading
  | .group none => some (reading.push reading.setting)
  | .group (some name) =>
    if reading.names.contains name then none
    else some { reading.push reading.setting with names := name :: reading.names }
  | .groupWith marks => some (reading.push (reading.setting.apply marks))
  | .flags marks =>
    some { reading.add { isFlags := true } with setting := reading.setting.apply marks }

/-- The innermost group is closed: it is a part of its surroundings, which are read as
before. -/
def leave (reading : Reading) : Option Reading :=
  match reading.groups with
  | [] => none
  | group :: groups =>
    let branch := group.branch.add { depth := reading.branch.fullDepth + 1 }
    some { reading with setting := group.setting, branch, groups }

/-- Reads what begins with a character. -/
def step (reading : Reading) (c : Char) (cs : List Char) : Option (Reading × List Char) :=
  match c with
  | '(' =>
    (readOpening reading.setting cs).bind fun (opening, rest) =>
      (reading.enter opening).map (·, rest)
  | ')' => reading.leave.map (·, cs)
  | '|' => some ({ reading with branch := reading.branch.next }, cs)
  | '[' =>
    (readClass reading.setting cs).map fun (depth, rest) => (reading.add { depth }, rest)
  | '?' | '*' | '+' =>
    let rest := if cs.head? = some '?' then cs.drop 1 else cs
    reading.branch.repeatLast?.map fun branch => ({ reading with branch }, rest)
  | '\x7b' => none
  | '\\' =>
    (readEscape reading.setting cs).bind fun (primitive, rest) =>
      (reading.addPrimitive primitive).map (·, rest)
  | '.' => (reading.addPrimitive .any).map (·, cs)
  | '^' | '$' => (reading.addPrimitive (.assertion false)).map (·, cs)
  | _ => (reading.addPrimitive (.literal c false)).map (·, cs)

/-- Reads a text to its end.  No more than `fuel` parts are read. -/
def run : (fuel : Nat) → Reading → List Char → Option Reading
  | 0, _, _ => none
  | fuel + 1, reading, cs =>
    match skip reading.setting cs with
    | [] => some reading
    | c :: more => (reading.step c more).bind fun (reading, rest) => run fuel reading rest

/-- What is wrong with an expression that was read to its end. -/
def fault? (reading : Reading) : Option Fault :=
  if !reading.groups.isEmpty || maxDepth < reading.branch.fullDepth then some .malformed
  else if reading.asksForWords then some .unicodeWordBoundary
  else none

end Reading

/-- What keeps a text from being matched as a regular expression.  Every part has a
character of its own, so the length of the text bounds their number. -/
def fault? (cs : List Char) : Option Fault :=
  (Reading.run (cs.length + 1) {} cs).elim (some .malformed) Reading.fault?

/-- The empty text is an expression. -/
@[simp] theorem fault?_nil : fault? [] = none := rfl

end BlockLexer.Regular
