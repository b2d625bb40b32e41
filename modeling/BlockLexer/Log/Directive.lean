import BlockLexer.Log.Field
import BlockLexer.Log.Line
import BlockLexer.Text.AlphanumericCharacter

/-!
# Log directives

A directive gives a level to the events that it speaks of:

* `level` alone speaks of all events;
* `target=level` speaks of the targets whose names begin with a text, and `target`
  alone shows everything of them;
* `target[span{field=value}]=level` narrows it to a span or a field.

`LogDirective.ofText` reads one.  The marks between its parts are looked for in the
text without the white space around it, but each part is cut out of the whole text,
at the byte offsets where the marks were found: white space in front of a directive
shifts all its parts.  `ofText_name` says that the name of a level is read as that
level for all events.
-/

namespace BlockLexer

open Text

/-- A level for some events. -/
structure LogDirective where
  /-- What the name of the target has to begin with. -/
  target : Option (List Char) := none
  /-- The span that the events have to stand in. -/
  span : Option (List Char) := none
  /-- The field that the events have to have. -/
  field : Option LogField := none
  level : LogLevel
deriving DecidableEq

/-- What can be wrong with the text of a directive. -/
inductive LogDirectiveFault where
  | malformed
  | field (fault : Regular.Fault)
  | unknownLevel
deriving DecidableEq

/-- The message of a fault. -/
def LogDirectiveFault.message : LogDirectiveFault → String
  | malformed => "invalid filter directive"
  | field fault => "invalid field filter: " ++ fault.message
  | unknownLevel =>
    "error parsing level filter: expected one of \"off\", \"error\", \"warn\", \"info\", " ++
      "\"debug\", \"trace\", or a number 0-5"

namespace LogDirective

/-! ## Reading -/

/-- A character that a directive may begin with, if it does not begin with a bracket. -/
def startsTarget (c : Char) : Bool :=
  c = '-' || c = ':' || c = '_' || isAlphanumeric c

/-- The directive with the level behind an equals sign.  If nothing stands there, it
keeps its own. -/
def setLevel (directive : LogDirective) (cs : List Char) : Except LogDirectiveFault LogDirective :=
  if cs.isEmpty then .ok directive
  else
    match LogLevel.ofText? cs with
    | some level => .ok { directive with level }
    | none => .error .unknownLevel

/-- Reads what follows the brackets: nothing, or an equals sign and a level.  `offset` is
where `rest` begins in the text `cs`, here and in what follows. -/
def readLevel (cs : List Char) (directive : LogDirective) (offset : Nat) (rest : List Char) :
    Except LogDirectiveFault LogDirective :=
  match rest with
  | [] => .ok directive
  | c :: _ =>
    if c = '=' then directive.setLevel (dropBytes (offset + 1) cs) else .error .malformed

/-- Reads what follows an opening brace: a field, both brackets and the level. -/
def readField (cs : List Char) (directive : LogDirective) (offset : Nat) (rest : List Char) :
    Except LogDirectiveFault LogDirective :=
  let inField := fun c : Char => c ≠ '\x7d'
  let stop := offset + byteSize (rest.takeWhile inField)
  let text := sliceBytes offset stop cs
  match rest.dropWhile inField with
  | [] => .error .malformed
  | _ :: more =>
    if text.isEmpty then .error .malformed
    else
      match LogField.ofText text, more with
      | .error fault, _ => .error (.field fault)
      | .ok field, ']' :: more =>
        readLevel cs { directive with field := some field } (stop + 2) more
      | .ok _, _ => .error .malformed

/-- Reads what follows an opening bracket: a span, perhaps a field, and the level. -/
def readSpan (cs : List Char) (directive : LogDirective) (offset : Nat) (rest : List Char) :
    Except LogDirectiveFault LogDirective :=
  let inSpan := fun c : Char => c ≠ ']' && c ≠ '\x7b'
  let stop := offset + byteSize (rest.takeWhile inSpan)
  let span := sliceBytes offset stop cs
  match rest.dropWhile inSpan with
  | [] => .error .malformed
  | c :: more =>
    if c = ']' then readLevel cs { directive with span := some span } (stop + 1) more
    else
      readField cs { directive with span := if span.isEmpty then none else some span }
        (stop + 1) more

/-- Reads a directive.  A text without marks is a level, or else a target. -/
def ofText (cs : List Char) : Except LogDirectiveFault LogDirective :=
  let all : LogDirective := { level := .trace }
  let inTarget := fun c : Char => c ≠ '=' && c ≠ '['
  match trim cs with
  | [] => .error .malformed
  | c :: more =>
    if c = '[' then readSpan cs all 1 more
    else if !startsTarget c then .error .malformed
    else
      let stop := byteSize ((c :: more).takeWhile inTarget)
      let directive := { all with target := some (takeBytes stop cs) }
      match (c :: more).dropWhile inTarget with
      | [] =>
        match LogLevel.ofText? cs with
        | some level => .ok { level }
        | none => .ok { all with target := some cs }
      | '=' :: _ => directive.setLevel (dropBytes (stop + 1) cs)
      | _ :: rest => readSpan cs directive (stop + 1) rest

/-- The name of a level is a directive for all events. -/
theorem ofText_name (level : LogLevel) : ofText level.name.toList = .ok { level } := by
  cases level <;> rfl

/-! ## Events -/

/-- Whether a directive speaks of an event.  Events stand in no span, and a directive
that asks for the value of a field speaks of spans only. -/
def applies (directive : LogDirective) (event : Event) : Bool :=
  directive.target.all (·.isPrefixOf event.target.name.toList) &&
    directive.span.isNone &&
    directive.field.all fun field => !field.hasValue && event.hasField field.name

/-- How much of a target a directive names: nothing, or a number of characters. -/
def targetSize (directive : LogDirective) : Nat :=
  directive.target.elim 0 fun target => target.length + 1

/-- The name of the field that a directive asks for. -/
def fieldName (directive : LogDirective) : Option (List Char) :=
  directive.field.map LogField.name

/-- Whether the field of one directive comes before that of another: no field comes
first, and fields go by their names. -/
def fieldBefore : Option (List Char) → Option (List Char) → Bool
  | _, none => false
  | none, some _ => true
  | some name, some other => name < other

/-- Whether a directive is less specific than another: it names less of the target,
or as much and its field comes before. -/
def lessSpecific (directive other : LogDirective) : Bool :=
  directive.targetSize < other.targetSize ||
    directive.targetSize = other.targetSize && fieldBefore directive.fieldName other.fieldName

end LogDirective

end BlockLexer
