import BlockLexer.Token
import BlockLexer.Text.Quoted
import BlockLexer.Files.Error

/-!
# Faults

Everything that can be wrong with a text, as causes.  A `Fault` is a cause with
the place where it was found.  The wording of every cause stands in
`Cause.message` and nowhere else.
-/

namespace BlockLexer

open Files (FileError)

/-- What faults have in common, as far as a caller may care. -/
inductive Family where
  /-- No rule takes the next character. -/
  | lexical
  /-- The structure of the text is broken. -/
  | structural
  /-- A line stands in the wrong column. -/
  | indentation
  /-- A file cannot be read. -/
  | input
deriving DecidableEq

/-- The name of a family in messages. -/
def Family.name : Family → String
  | lexical => "LexError"
  | structural => "SyntaxError"
  | indentation => "IndentationError"
  | input => "IOError"

/-- The numbers or kinds that belong to some faults. -/
inductive Detail where
  | indentation (required actual : Nat)
  | adjacency (previous next : Kind)
deriving DecidableEq

/-- What is wrong. -/
inductive Cause where
  /-- No rule of the mode takes this character. -/
  | illegalCharacter (c : Char)
  /-- A line ends inside a string that must end on it. -/
  | lineEndInString
  | textEndInString
  | textEndInBody
  | textEndInBracket
  /-- The text ends inside a block: the innermost class and the line of its header. -/
  | missingEnd (block : Option (List Char × Nat))
  /-- An `end` with nothing to close. -/
  | strayEnd
  | unexpectedName (name : List Char)
  /-- A reserved word in the place of a name. -/
  | reservedName (name : List Char)
  | endInExpression
  | invalidNumber (text : List Char)
  | integerOutOfRange (text : List Char)
  | bracketOutsideExpression
  /-- A closing bracket without an opening one of its kind. -/
  | closingBracket
  /-- A letter before a quote that says nothing about the string. -/
  | unknownQuoteLetter (letter : List Char)
  /-- A string of a code point that holds none. -/
  | invalidCodePoint (text : List Char)
  | strayFragment
  | adjacency (clash : Clash) (previous next : Kind)
  | misaligned (required actual : Nat)
  | importsTooDeep (limit : Nat)
  | unreadableImport (path : List Char) (reason : FileError)
  | circularImport (path : List Char)
  | unreadableFile (path : List Char) (reason : FileError)
  /-- A fault that a caller reports in words of its own. -/
  | reported (family : Family) (message : List Char) (detail : Option Detail)
deriving DecidableEq

namespace Cause

/-- The family of a cause. -/
def family : Cause → Family
  | illegalCharacter _ | bracketOutsideExpression => .lexical
  | misaligned _ _ => .indentation
  | unreadableImport _ _ | unreadableFile _ _ => .input
  | reported family _ _ => family
  | _ => .structural

/-- The detail of a cause. -/
def detail : Cause → Option Detail
  | adjacency _ previous next => some (.adjacency previous next)
  | misaligned required actual => some (.indentation required actual)
  | reported _ _ detail => detail
  | _ => none

/-- The wording of a clash. -/
def clashMessage : Clash → String
  | .literals => "Literals cannot be followed by other literals."
  | .identifiers => "IDs cannot be followed by other IDs."
  | .identifierLiteral => "IDs cannot be followed by a literal."
  | .literalIdentifier => "Literals cannot be followed by an ID."

/-- The wording of a cause. -/
def message : Cause → String
  | illegalCharacter c => "Illegal character " ++ String.ofList (Text.quotedSingle c)
  | lineEndInString => "EOL while scanning a string"
  | textEndInString => "EOF while scanning a string"
  | textEndInBody => "EOF while scanning a body"
  | textEndInBracket => "EOF while scanning an expression: unclosed bracket"
  | missingEnd none => "Insufficient Ends"
  | missingEnd (some (owner, line)) =>
    "Insufficient Ends for '" ++ String.ofList owner ++ "' opened at line " ++ toString line
  | strayEnd => "Unexpected end without an open block"
  | unexpectedName name => "Unexpected identifier '" ++ String.ofList name ++ "'"
  | reservedName name => "Encountered reserved keyword '" ++ String.ofList name ++ "'"
  | endInExpression => "Encountered reserved keyword 'end' inside an expression"
  | invalidNumber text => "Invalid number: '" ++ String.ofList text ++ "'"
  | integerOutOfRange text => "Integer literal out of range: '" ++ String.ofList text ++ "'"
  | bracketOutsideExpression => "Bracket outside an expression"
  | closingBracket => "Closing bracket error"
  | unknownQuoteLetter letter =>
    "Unknown string quote type: " ++ String.ofList (Text.quoted letter)
  | invalidCodePoint text =>
    "Invalid code point in u-string: " ++ String.ofList (Text.quoted text)
  | strayFragment => "String fragment outside a string"
  | adjacency clash _ _ => clashMessage clash
  | misaligned required actual =>
    "Expected " ++ toString required ++ " indents, got " ++ toString actual ++ "."
  | importsTooDeep limit => "Imports nested deeper than " ++ toString limit ++ " levels"
  | unreadableImport path reason =>
    "Cannot read import '" ++ String.ofList path ++ "': " ++ reason.message
  | circularImport path => "Circular import of '" ++ String.ofList path ++ "'"
  | unreadableFile path reason =>
    "Cannot read '" ++ String.ofList path ++ "': " ++ reason.message
  | reported _ message _ => String.ofList message

end Cause

/-- The path of a text that comes from no file. -/
def textOrigin : List Char :=
  ['<', 's', 't', 'r', 'i', 'n', 'g', '>']

/-- A cause and the place where it was found. -/
structure Fault where
  cause : Cause
  line : Nat
  column : Nat
  path : List Char := textOrigin
deriving DecidableEq

/-- The fault on one line, as a user sees it. -/
def Fault.message (fault : Fault) : String :=
  fault.cause.family.name ++ " in " ++ String.ofList fault.path ++
    " at line " ++ toString fault.line ++ ", column " ++ toString fault.column ++ ": " ++
    fault.cause.message

end BlockLexer
