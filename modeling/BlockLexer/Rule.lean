import BlockLexer.Lexeme
import BlockLexer.Mode

/-!
# Rules

Every mode has a table of rules.  They are tried in the order of the table, and
the first that matches wins, however long its match is, so the order is a part
of the notation.

* `Rule` names the rules, and `Mode.rules` is the table of each mode;
* `Rule.match?` tries one rule at the beginning of a text;
* `Mode.select` finds the rule that wins.
-/

namespace BlockLexer

open Text

/-- The rules of all modes. -/
inductive Rule where
  -- between blocks and in several modes
  | directive | comment | blanks | newline | strayEnd | className
  -- in a block
  | blockEnd | attributeName | bodyMarker | instanceName | headerNewline
  -- in an expression
  | continuation | openString (style : QuoteStyle)
  | imaginary | float | hex | octal | binary | integer
  | identifier | bracket | expressionNewline | operator
  -- in a body
  | bodyLine
  -- in a string
  | escape | closeString (style : QuoteStyle) | stringText (style : QuoteStyle)
  | loneQuote (style : QuoteStyle)
deriving DecidableEq

namespace Rule

/-- The name of a rule in log lines. -/
def name : Rule → String
  | directive => "import"
  | comment => "comment"
  | blanks => "ws"
  | newline | headerNewline | expressionNewline => "newline"
  | strayEnd => "stray_end"
  | className => "class"
  | blockEnd | closeString _ => "end"
  | attributeName => "attr"
  | bodyMarker => "body_marker"
  | instanceName => "name"
  | continuation => "continuation"
  | openString .tripleSingle => "string_triple_q1"
  | openString .tripleDouble => "string_triple_q2"
  | openString .single => "string_single_q1"
  | openString .double => "string_single_q2"
  | imaginary => "imaginary"
  | float => "float"
  | hex => "hex"
  | octal => "octal"
  | binary => "binary"
  | integer => "integer"
  | identifier => "identifier"
  | bracket => "bracket"
  | operator => "operator"
  | bodyLine => "body_line"
  | escape => "escape"
  | stringText _ => "text"
  | loneQuote _ => "lone_quote"

end Rule

/-! ## Matches -/

/-- What a rule found at the beginning of a text. -/
structure Match where
  /-- The characters that it takes. -/
  lexeme : List Char
  /-- The part of the lexeme that the rule sets apart, behind what stands in front of it. -/
  group : Option (List Char × List Char) := none
deriving DecidableEq

namespace Match

/-- What the rule sets apart, or nothing. -/
def groupText (m : Match) : List Char :=
  (m.group.map Prod.snd).getD []

/-- The match of a pattern that sets nothing apart. -/
def ofPattern (a : Pattern) (cs : List Char) : Option Match :=
  (a cs).map fun cut => { lexeme := cut.1 }

/-- The match of three patterns in a row that sets apart what the second takes. -/
def ofGroup (before group after : Pattern) (cs : List Char) : Option Match :=
  match before cs with
  | none => none
  | some (x, cs) =>
    match group cs with
    | none => none
    | some (y, cs) =>
      match after cs with
      | none => none
      | some (z, _) => some { lexeme := x ++ y ++ z, group := some (x, y) }

end Match

/-- A character of a string that is not its mark, no backslash, and no line feed
unless the string may run over several lines. -/
def isStringText (style : QuoteStyle) (c : Char) : Bool :=
  c ≠ style.mark && c ≠ '\\' && (style.isTriple || c ≠ '\n')

/-- A round, square or curly bracket. -/
def isBracket (c : Char) : Bool :=
  ['(', ')', '[', ']', '\x7b', '\x7d'].contains c

/-- An operator of expressions. -/
def isOperator (c : Char) : Bool :=
  ['-', '+', '*', '/', '&', '|', '!', ':', '.', ','].contains c

/-- Tries one rule at the beginning of a text. -/
def Rule.match? (rule : Rule) (cs : List Char) : Option Match :=
  match rule with
  | directive => Match.ofPattern Lexeme.directive cs
  | comment => Match.ofPattern Lexeme.comment cs
  | blanks => Match.ofPattern Lexeme.blanks cs
  | newline | headerNewline | expressionNewline => Match.ofPattern Lexeme.lineEnd cs
  | strayEnd => Match.ofPattern Lexeme.endWord cs
  | className => Match.ofPattern Lexeme.className cs
  | blockEnd => Match.ofGroup Lexeme.endWord (.many fun c => c ≠ ';' && c ≠ '\n') .nothing cs
  | attributeName => Match.ofGroup .nothing Lexeme.name Lexeme.assignment cs
  | bodyMarker => Match.ofPattern Lexeme.marker cs
  | instanceName | identifier => Match.ofPattern Lexeme.name cs
  | continuation => Match.ofPattern (.word ['\\', '\n']) cs
  | openString style =>
    Match.ofGroup .nothing (Pattern.optional (.one Char.isAlpha)) (.word style.quotes) cs
  | imaginary => Match.ofPattern Lexeme.imaginary cs
  | float => Match.ofPattern Lexeme.float cs
  | hex => Match.ofPattern Lexeme.hex cs
  | octal => Match.ofPattern Lexeme.octal cs
  | binary => Match.ofPattern Lexeme.binary cs
  | integer => Match.ofPattern Lexeme.integer cs
  | bracket => Match.ofPattern (.one isBracket) cs
  | operator => Match.ofPattern (.one isOperator) cs
  | bodyLine => Match.ofPattern (.seq (.many Lexeme.inLine) Lexeme.lineEnd) cs
  | escape => Match.ofPattern Lexeme.escape cs
  | closeString style => Match.ofPattern (.word style.quotes) cs
  | stringText style => Match.ofPattern (.many1 (isStringText style)) cs
  | loneQuote style => Match.ofPattern (.one (· = style.mark)) cs

/-! ## Tables -/

/-- The rules of a mode, in the order in which they are tried. -/
def Mode.rules : Mode → List Rule
  | default => [.directive, .comment, .blanks, .newline, .strayEnd, .className]
  | block =>
    [.directive, .comment, .blockEnd, .attributeName, .bodyMarker, .blanks, .className,
      .instanceName, .headerNewline]
  | expression =>
    [.comment, .continuation,
      .openString .tripleSingle, .openString .tripleDouble,
      .openString .single, .openString .double,
      .imaginary, .float, .hex, .octal, .binary, .integer,
      .identifier, .bracket, .expressionNewline, .blanks, .operator]
  | body => [.bodyLine]
  | string style =>
    if style.isTriple then
      [.escape, .closeString style, .stringText style, .loneQuote style]
    else [.escape, .closeString style, .stringText style]

/-- The match of a rule, if it takes at least one character. -/
def Rule.take? (cs : List Char) (rule : Rule) : Option (Rule × Match) :=
  match rule.match? cs with
  | none => none
  | some m => if m.lexeme.isEmpty then none else some (rule, m)

/-- The first rule of a mode that takes a character, and its match. -/
def Mode.select (mode : Mode) (cs : List Char) : Option (Rule × Match) :=
  mode.rules.findSome? (Rule.take? cs)

/-- The rule that is selected takes at least one character. -/
theorem Mode.select_lexeme_ne_nil {mode : Mode} {cs : List Char} {rule : Rule} {m : Match}
    (h : mode.select cs = some (rule, m)) : m.lexeme ≠ [] := by
  obtain ⟨r, _, hr⟩ := List.exists_of_findSome?_eq_some h
  unfold Rule.take? at hr
  split at hr
  · simp at hr
  · next m' _ =>
    simp only [Option.ite_none_left_eq_some, Option.some.injEq, Prod.mk.injEq] at hr
    obtain ⟨hne, _, rfl⟩ := hr
    simpa using hne

end BlockLexer
