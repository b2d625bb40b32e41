import BlockLexer.Text.Basic

/-!
# Lines

Bodies and blocks look ahead of the place that is being read, so a text is cut
into lines before it is read.

* `Line` is one line with its place and its indentation.  `content` and
  `comment?` are its two parts, and `isMarker` and `isEnd` what the part in front
  of the comment begins with.
* `LineTable` holds the lines of a text, found by number from one, and answers
  the questions that look ahead.
-/

namespace BlockLexer

open Text

/-! ## One line -/

/-- A line of a text. -/
structure Line where
  /-- Lines count from one. -/
  number : Nat
  /-- The byte at which the line starts. -/
  start : Nat
  /-- The width of the blanks at its beginning. -/
  indent : Nat
  /-- Its characters, without the line feed. -/
  chars : List Char
deriving DecidableEq

/-- The columns that a blank takes. -/
def blankWidth (tabWidth : Nat) (c : Char) : Nat :=
  if c = '\t' then tabWidth else 1

/-- The width of the blanks at the beginning of a line. -/
def indentWidth (tabWidth : Nat) (cs : List Char) : Nat :=
  (cs.takeWhile isBlank).foldr (fun c width => blankWidth tabWidth c + width) 0

/-- The three dashes that open and close a body. -/
def bodyMarker : List Char := ['-', '-', '-']

namespace Line

/-- The byte behind the last character of a line. -/
def stop (line : Line) : Nat :=
  line.start + byteSize line.chars

/-- What stands between the indentation and the comment, without white space at its end. -/
def content (line : Line) : List Char :=
  trimEnd ((line.chars.dropWhile isBlank).takeWhile (· ≠ ';'))

/-- What stands behind the first semicolon, if there is one. -/
def comment? (line : Line) : Option (List Char) :=
  match line.chars.dropWhile (· ≠ ';') with
  | [] => none
  | _ :: cs => some cs

/-- Whether a line holds anything but blanks and a comment. -/
def hasContent (line : Line) : Bool :=
  !line.content.isEmpty

/-- A line with neither content nor comment. -/
def isBlank (line : Line) : Bool :=
  !line.hasContent && line.comment?.isNone

/-- A line that opens or closes a body. -/
def isMarker (line : Line) : Bool :=
  bodyMarker.isPrefixOf line.content

/-- A line that begins with the word `end` in any case. -/
def isEnd (line : Line) : Bool :=
  equalsCaseless (line.content.take 3) ['e', 'n', 'd'] &&
    match line.content.drop 3 with
    | [] => true
    | c :: _ => !continuesName c

end Line

/-! ## The table -/

/-- The lines of a text, with the width of a tab that their indentation was
measured by. -/
structure LineTable where
  tabWidth : Nat
  lines : List Line
deriving DecidableEq

namespace LineTable

/-- Lines with numbers and places, from a number and a place on. -/
def place (tabWidth : Nat) : Nat → Nat → List (List Char) → List Line
  | _, _, [] => []
  | number, start, cs :: more =>
    { number, start, indent := indentWidth tabWidth cs, chars := cs } ::
      place tabWidth (number + 1) (start + byteSize cs + 1) more

/-- The table of a text. -/
def ofText (tabWidth : Nat) (cs : List Char) : LineTable :=
  { tabWidth, lines := place tabWidth 1 0 (splitLines cs) }

variable (table : LineTable)

/-- The number of lines. -/
def size : Nat :=
  table.lines.length

/-- The line of a number. -/
def get? (number : Nat) : Option Line :=
  if number = 0 then none else table.lines[number - 1]?

/-- The indentation of the line of a number, or zero if there is no such line. -/
def indentOf (number : Nat) : Nat :=
  (table.get? number).elim 0 Line.indent

/-- The first line with content behind a line. -/
def nextContentAfter (number : Nat) : Option Line :=
  (table.lines.drop number).find? Line.hasContent

/-- The indentation of a body whose marker stands on a line: that of the first
line behind it that is not blank. -/
def bodyIndent (marker : Nat) : Nat :=
  ((table.lines.drop marker).find? fun line => !line.isBlank).elim 0 Line.indent

@[simp] theorem get?_zero : table.get? 0 = none := rfl

@[simp] theorem get?_succ (n : Nat) : table.get? (n + 1) = table.lines[n]? := by
  simp [get?]

end LineTable

@[simp] theorem LineTable.place_length (tabWidth number start : Nat) (ls : List (List Char)) :
    (LineTable.place tabWidth number start ls).length = ls.length := by
  induction ls generalizing number start with
  | nil => rfl
  | cons l ls ih => simp [LineTable.place, ih]

/-- A table has as many lines as its text. -/
@[simp] theorem LineTable.size_ofText (tabWidth : Nat) (cs : List Char) :
    (LineTable.ofText tabWidth cs).size = (splitLines cs).length := by
  simp [LineTable.size, LineTable.ofText]

end BlockLexer
