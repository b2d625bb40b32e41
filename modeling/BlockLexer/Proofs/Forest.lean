import BlockLexer.Proofs.Grammar
import BlockLexer.Proofs.Words

/-!
# Forests of blocks and how they are written

What a text may hold besides bodies, strings, comments and imports, as trees, with the
text that is written for them and the tokens that are meant.

* `ClassName`, `InstanceName` and `FreeName` are names with what keeps them apart from
  the reserved words.
* `Term` is what stands between the spaces of an expression, `Expression` a row of terms
  that keeps to the grammar.
* `Members` are the members of a block, `TopBlock` is a block of its own, and a `Forest`
  is a row of them, with its text and its tokens.
-/

namespace BlockLexer

open Text Grammar

/-- The kind and the value of a token, without its place. -/
def Token.entry (token : Token) : Kind × Value :=
  (token.kind, token.value)

/-! ## Names -/

/-- The word that closes a block. -/
def endName : List Char := ['e', 'n', 'd']

/-- The name of a class, which is neither `end` nor `import` in any case. -/
structure ClassName where
  chars : List Char
  shape : isClassIdentifier chars = true
  notEnd : equalsCaseless chars endName = false
  notImport : equalsCaseless chars Lexeme.importWord = false

/-- The name of an instance, which is not `end` in any case. -/
structure InstanceName where
  chars : List Char
  shape : isIdentifier chars = true
  notEnd : equalsCaseless chars endName = false

/-- A name that is not reserved, as attributes and identifiers have. -/
structure FreeName where
  chars : List Char
  shape : isIdentifier chars = true
  free : isReserved chars = false

/-- A name that is not reserved is not `end`. -/
theorem not_endName_of_free {word : List Char} (h : isReserved word = false) :
    equalsCaseless word endName = false := by
  simp only [isReserved, reservedWords, List.contains_cons, Bool.or_eq_false_iff,
    beq_eq_false_iff_ne] at h
  exact decide_eq_false h.1

/-! ## Expressions -/

namespace Bracket

/-- The character that opens a bracket. -/
def openingChar : Bracket → Char
  | paren => '('
  | array => '['
  | dict => '\x7b'

/-- The character that closes a bracket. -/
def closingChar : Bracket → Char
  | paren => ')'
  | array => ']'
  | dict => '\x7d'

end Bracket

/-- The word for a truth value, in lower case. -/
def boolWord : Bool → List Char
  | true => ['t', 'r', 'u', 'e']
  | false => ['f', 'a', 'l', 's', 'e']

/-- What stands between the spaces of an expression.  The literal words may be written in
any case. -/
inductive Term where
  | operator (sign : Char) (hsign : isOperator sign = true)
  | opening (bracket : Bracket)
  | closing (bracket : Bracket)
  | identifier (name : FreeName)
  | bool (value : Bool) (word : List Char) (hword : word.map Char.toLower = boolWord value)
  | nothing (word : List Char) (hword : word.map Char.toLower = ['n', 'o', 'n', 'e'])
  | integer (zeros n : Nat) (hn : n < Scan.integerBound)

namespace Term

/-- How a term is written.  Zeros may stand in front of the decimal digits of an integer. -/
def text : Term → List Char
  | operator sign _ => [sign]
  | opening bracket => [bracket.openingChar]
  | closing bracket => [bracket.closingChar]
  | identifier name => name.chars
  | bool _ word _ | nothing word _ => word
  | integer zeros n _ => List.replicate zeros '0' ++ Nat.toDigits 10 n

/-- The token of a term. -/
def entry : Term → Kind × Value
  | operator sign _ => (operatorKind [sign], .nothing)
  | opening bracket => (bracket.opening, .nothing)
  | closing bracket => (bracket.closing, .nothing)
  | identifier name => (.identifier, .text name.chars)
  | bool value _ _ => (.bool, .bool value)
  | nothing _ _ => (.nothing, .nothing)
  | integer _ n _ => (.integer, .integer n)

end Term

/-- A row of terms that is an expression of the grammar. -/
structure Expression where
  terms : List Term
  shape : IsExpression (terms.map fun term => term.entry.1)

/-! ## Blocks -/

/-- An attribute. -/
structure Attribute where
  name : FreeName
  expression : Expression

/-- The header of a block. -/
structure Header where
  owner : ClassName
  name : Option InstanceName

/-- The members of a block, the first one first.  Those of a nested block stand `extra`
columns to the right of its header. -/
inductive Members where
  | none
  | assign (first : Attribute) (more : Members)
  | block (header : Header) (extra : Nat) (inner more : Members)

/-- A block between blocks, its header behind `indent` spaces and its members behind
`extra` spaces more. -/
structure TopBlock where
  indent : Nat
  header : Header
  extra : Nat
  members : Members

/-- Blocks in a row. -/
abbrev Forest := List TopBlock

/-! ## Writing -/

/-- The beginning of an indented line. -/
def indented (indent : Nat) (line : List Char) : List Char :=
  List.replicate indent ' ' ++ line

/-- A header, with the name of the instance behind a space. -/
def Header.text (header : Header) : List Char :=
  header.owner.chars ++ header.name.elim [] fun name => ' ' :: name.chars

/-- An attribute, with its terms between single spaces. -/
def Attribute.text (member : Attribute) : List Char :=
  member.name.chars ++ ' ' :: '=' :: ' ' :: joinWith [' '] (member.expression.terms.map Term.text)

/-- The lines of the members of a block. -/
def Members.lines (indent : Nat) : Members → List (List Char)
  | none => []
  | assign first more => indented indent first.text :: more.lines indent
  | block header extra inner more =>
    indented indent header.text ::
      (inner.lines (indent + extra) ++ indented indent endName :: more.lines indent)

/-- The lines of a block. -/
def TopBlock.lines (block : TopBlock) : List (List Char) :=
  indented block.indent block.header.text ::
    (block.members.lines (block.indent + block.extra) ++ [indented block.indent endName])

/-- The text of a forest: every header, attribute and end on a line of its own. -/
def Forest.text (forest : Forest) : List Char :=
  unlines (forest.flatMap TopBlock.lines)

/-! ## Tokens -/

/-- The tokens of a header. -/
def Header.entries (header : Header) : List (Kind × Value) :=
  (.className, .text header.owner.chars) ::
    header.name.elim [] fun name => [(.instanceName, .text name.chars)]

/-- The tokens of an attribute. -/
def Attribute.entries (member : Attribute) : List (Kind × Value) :=
  (.attributeName, .text member.name.chars) :: member.expression.terms.map Term.entry

/-- The tokens of the members of a block. -/
def Members.entries : Members → List (Kind × Value)
  | none => []
  | assign first more => first.entries ++ more.entries
  | block header _ inner more =>
    header.entries ++ (inner.entries ++ (.blockEnd, .nothing) :: more.entries)

/-- The tokens of a block. -/
def TopBlock.entries (block : TopBlock) : List (Kind × Value) :=
  block.header.entries ++ (block.members.entries ++ [(.blockEnd, .nothing)])

/-- The tokens of a forest in preorder, and the end of the text. -/
def Forest.entries (forest : Forest) : List (Kind × Value) :=
  forest.flatMap TopBlock.entries ++ [(.endOfText, .nothing)]

end BlockLexer
