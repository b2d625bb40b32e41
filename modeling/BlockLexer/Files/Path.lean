import BlockLexer.Text.Basic

/-!
# Paths

Paths as they are written, with `/` between their parts.  No operation changes
more of a path than it has to: doubled separators and `..` stay where they are, and
messages show the path as it was built.
-/

namespace BlockLexer.Files

open Text

/-- A path as it is written. -/
abbrev Path := List Char

namespace Path

/-- Whether a path starts at the root. -/
def isAbsolute (path : Path) : Bool :=
  path.head? = some '/'

/-- What a path begins with and what makes no part of its own: the root, or a dot
that stands for the working directory. -/
def lead (path : Path) : List Char :=
  match path with
  | '/' :: _ => ['/']
  | ['.'] => ['.']
  | '.' :: '/' :: _ => ['.']
  | _ => []

/-- A part that names nothing: an empty one or a dot. -/
def isVoid (part : List Char) : Bool :=
  part.isEmpty || part = ['.']

/-- The parts of a path behind its lead, the last one first, without the void ones
at the end of the path. -/
def partsFromEnd (path : Path) : List (List Char) :=
  (splitBy '/' (path.drop (lead path).length)).reverse.dropWhile isVoid

/-- The path with this lead and these parts, the last one first. -/
def ofPartsFromEnd (lead : List Char) (parts : List (List Char)) : Path :=
  lead ++ joinWith ['/'] parts.reverse

/-- The directory that a path lies in, if it has one. -/
def parent? (path : Path) : Option Path :=
  match partsFromEnd path with
  | _ :: parts => some (ofPartsFromEnd (lead path) (parts.dropWhile isVoid))
  | [] => if lead path = ['.'] then some [] else none

/-- The last part of a path, if it is the name of a file. -/
def fileName? (path : Path) : Option (List Char) :=
  match partsFromEnd path with
  | [] => none
  | part :: _ => if part = ['.', '.'] then none else some part

/-- Whether a path has an extension: a dot in its file name that does not lead it. -/
def hasExtension (path : Path) : Bool :=
  match fileName? path with
  | none => false
  | some name => (name.drop 1).contains '.'

/-- A path, seen from a directory. -/
def join (directory path : Path) : Path :=
  if isAbsolute path || directory.isEmpty then path
  else if directory.getLast? = some '/' then directory ++ path
  else directory ++ '/' :: path

/-- A path whose file name gets an extension if it has none.  What follows the file
name is dropped. -/
def withExtension (extension : List Char) (path : Path) : Path :=
  if hasExtension path || (fileName? path).isNone then path
  else ofPartsFromEnd (lead path) (partsFromEnd path) ++ '.' :: extension

/-- A path with an extension behind it if its file name has none. -/
def appendExtension (extension : List Char) (path : Path) : Path :=
  if hasExtension path then path else path ++ '.' :: extension

end Path

end BlockLexer.Files
