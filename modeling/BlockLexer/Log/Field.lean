import BlockLexer.Decimal.Numeral
import BlockLexer.Regular.Expression

/-!
# Fields of log directives

A directive may ask for a field of an event, and for its value, too.  The value is
written as a number or as a regular expression.  `LogField.ofText` reads both, and
`ofText_of_not_mem` says that a text without an equals sign is a name.
-/

namespace BlockLexer

open Text Decimal

/-- A field that a directive asks for. -/
structure LogField where
  name : List Char
  /-- Whether the directive asks for a value of the field, too. -/
  hasValue : Bool
deriving DecidableEq

namespace LogField

/-- The names of numbers that have no digits. -/
def numberNames : List String :=
  ["inf", "infinity", "nan"]

/-- Whether a text is a number: a sign, which may be missing, and a numeral or a name. -/
def isNumber (cs : List Char) : Bool :=
  let unsigned := match cs with
    | '+' :: more | '-' :: more => more
    | more => more
  (readNumeral? unsigned).isSome ||
    numberNames.any fun name => equalsCaseless name.toList unsigned

/-- What is wrong with a value, which is a number or a regular expression. -/
def valueFault? (cs : List Char) : Option Regular.Fault :=
  if isNumber cs then none else Regular.fault? cs

/-- Reads a field: a name, which an equals sign and a value may follow.  Another equals
sign ends the value, and nothing behind it counts. -/
def ofText (cs : List Char) : Except Regular.Fault LogField :=
  let isName := fun c : Char => c ≠ '='
  let name := cs.takeWhile isName
  match cs.dropWhile isName with
  | [] => .ok { name, hasValue := false }
  | _ :: more =>
    match valueFault? (more.takeWhile isName) with
    | none => .ok { name, hasValue := true }
    | some fault => .error fault

/-- A text without an equals sign is the name of a field. -/
theorem ofText_of_not_mem (cs : List Char) (h : '=' ∉ cs) :
    ofText cs = .ok { name := cs, hasValue := false } := by
  have hcs : ∀ c ∈ cs, decide (c ≠ '=') = true := fun c hc =>
    decide_eq_true fun he => h (he ▸ hc)
  have htake : (cs ++ []).takeWhile _ = _ := List.takeWhile_append_of_pos hcs
  have hdrop : (cs ++ []).dropWhile _ = _ := List.dropWhile_append_of_pos hcs
  simp only [List.append_nil, List.takeWhile_nil, List.dropWhile_nil] at htake hdrop
  simp only [ofText, htake, hdrop]

end LogField

end BlockLexer
