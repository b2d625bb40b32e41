import BlockLexer.Log.Directive

/-!
# Log filters

A filter lets an event pass if the directive for it asks for its level.

* `LogFilter` is a list of directives, read from a text by `LogFilter.ofText` or
  chosen by the number of `-v` flags (`LogFilter.ofVerbosity`);
* `LogFilter.complaints` are the lines about what is no directive in a text;
* `LogFilter.lines` is what a log shows of some events.
-/

namespace BlockLexer

open Text

/-- The directives of a log. -/
abbrev LogFilter := List LogDirective

namespace LogFilter

/-- The level by the number of `-v` flags. -/
def ofVerbosity : Nat → LogFilter
  | 0 => [{ level := .warn }]
  | 1 => [{ level := .info }]
  | 2 => [{ level := .debug }]
  | _ => [{ level := .trace }]

/-! ## Reading -/

/-- The texts of the directives: the pieces between commas that are not empty. -/
def pieces (cs : List Char) : List (List Char) :=
  (splitBy ',' cs).filter (!·.isEmpty)

/-- Directives with commas between them.  What is no directive is passed over. -/
def ofText (cs : List Char) : LogFilter :=
  (pieces cs).filterMap fun piece => (LogDirective.ofText piece).toOption

/-- The line about a text that is no directive. -/
def complaint? (piece : List Char) : Option String :=
  match LogDirective.ofText piece with
  | .ok _ => none
  | .error fault => some ("ignoring \x60" ++ String.ofList piece ++ "\x60: " ++ fault.message)

/-- The lines about what is passed over, in its order. -/
def complaints (cs : List Char) : List String :=
  (pieces cs).filterMap complaint?

/-- Every piece between the commas is a directive, or there is a line about it. -/
theorem length_ofText_add_length_complaints (cs : List Char) :
    (ofText cs).length + (complaints cs).length = (pieces cs).length := by
  unfold ofText complaints
  induction pieces cs with
  | nil => rfl
  | cons piece pieces ih =>
    cases h : LogDirective.ofText piece <;>
      simp [complaint?, h, Except.toOption, ← ih] <;> omega

/-! ## Events -/

/-- The more specific of two directives, and the later one of two that are equally
specific. -/
def moreSpecific (best : Option LogDirective) (directive : LogDirective) : Option LogDirective :=
  match best with
  | none => some directive
  | some other => if directive.lessSpecific other then some other else some directive

/-- The level for an event: that of the most specific directive that speaks of it. -/
def levelOf (filter : LogFilter) (event : Event) : LogLevel :=
  (((filter.filter (·.applies event)).foldl moreSpecific none).map LogDirective.level).getD .off

/-- Whether an event is shown. -/
def passes (filter : LogFilter) (event : Event) : Bool :=
  event.level.rank ≤ (filter.levelOf event).rank

/-- The lines of the events that are shown. -/
def lines (filter : LogFilter) (events : List Event) : List String :=
  (events.filter filter.passes).map Event.line

end LogFilter

end BlockLexer
