import BlockLexer.Line
import BlockLexer.Token

/-!
# Bodies

A body is literal text between two marker lines, or between a marker line and
the first line behind it that stands left of the body's first line.

* `OpenBody.ofMarker` opens a body;
* `OpenBody.step` says after each line whether the body ends with it;
* `dedent` takes the indentation of the body off its lines.
-/

namespace BlockLexer

open Text

/-! ## Taking indentation off -/

/-- A line without its leading blanks up to a width.  A tab that reaches beyond the
width is taken as a whole. -/
def dedentLine (tabWidth : Nat) : Nat → List Char → List Char
  | 0, cs => cs
  | width, ' ' :: cs => dedentLine tabWidth (width - 1) cs
  | width, '\t' :: cs => dedentLine tabWidth (width - tabWidth) cs
  | _, cs => cs

/-- Lines without their indentation up to a width, with line feeds between them. -/
def dedent (tabWidth width : Nat) (lines : List (List Char)) : List Char :=
  joinWith ['\n'] (lines.map (dedentLine tabWidth width))

/-- A text whose lines lose their indentation up to a width. -/
def dedentText (tabWidth width : Nat) (cs : List Char) : List Char :=
  dedent tabWidth width (splitBy '\n' cs)

/-! ## Open and closed bodies -/

/-- A body whose end is not found yet. -/
structure OpenBody where
  /-- The line of the marker. -/
  marker : Nat
  /-- The byte at which the text starts. -/
  start : Nat
  /-- The indentation of the first line that is not blank. -/
  indent : Nat
  /-- The names behind the marker. -/
  names : List (List Char)
deriving DecidableEq

/-- A body with its text and the bytes that it takes. -/
structure ClosedBody where
  text : BodyText
  start : Nat
  stop : Nat
  /-- The last line of the text, or the line of the marker if there is no text. -/
  lastLine : Nat
deriving DecidableEq

/-- The names behind a marker: what stands between commas, trimmed, if anything is left. -/
def bodyNames (content : List Char) : List (List Char) :=
  if bodyMarker.isPrefixOf content then
    ((splitBy ',' (content.drop bodyMarker.length)).map trim).filter (!·.isEmpty)
  else []

namespace OpenBody

/-- The body that a marker line opens. -/
def ofMarker (table : LineTable) (marker : Line) : OpenBody where
  marker := marker.number
  start := (table.get? (marker.number + 1)).elim (marker.stop + 1) Line.start
  indent := table.bodyIndent marker.number
  names := bodyNames marker.content

/-- The line on which the text of a body starts. -/
def startLine (body : OpenBody) : Nat :=
  body.marker + 1

/-- The body closed behind its line `last`, or without text if there is no such line. -/
def close (table : LineTable) (body : OpenBody) (last : Option Nat) : ClosedBody where
  text :=
    { startLine := body.startLine
      text := match last with
        | none => []
        | some number =>
          dedent table.tabWidth body.indent
            (((table.lines.drop body.marker).take (number - body.marker)).map Line.chars)
      names := body.names }
  start := body.start
  stop := (last.bind table.get?).elim body.start Line.stop
  lastLine := last.getD body.marker

/-- The last line up to a line that is behind the marker and not blank, or else the
line of the marker. -/
def lastFilled (table : LineTable) (marker : Nat) : Nat → Nat
  | 0 => 0
  | number + 1 =>
    if marker < number + 1 && (table.get? (number + 1)).any Line.isBlank then
      lastFilled table marker number
    else number + 1

/-- The body as it ends with the line `current`, if it does: before a marker line, or
before a line that stands left of the body.  In the second case blank lines at
its end do not belong to it. -/
def step (table : LineTable) (body : OpenBody) (current : Nat) : Option ClosedBody :=
  match table.get? (current + 1) with
  | none => none
  | some ahead =>
    let upTo (last : Nat) := body.close table (if body.marker < last then some last else none)
    if ahead.isMarker then some (upTo current)
    else if !ahead.isBlank && ahead.indent < body.indent then
      some (upTo (lastFilled table body.marker current))
    else none

end OpenBody

end BlockLexer
