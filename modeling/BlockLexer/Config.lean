/-!
# Settings

What a caller may choose about the reading of a text.
-/

namespace BlockLexer

/-- The settings of a run. -/
structure Config where
  /-- The extension of an import that is written without one. -/
  extension : List Char := ['3', 'l', 'm']
  /-- The columns that a tab takes in indentation. -/
  tabWidth : Nat := 4
  /-- Whether imports are put in their place.  Otherwise they are passed over. -/
  followImports : Bool := true
  /-- How deep imports may be nested. -/
  maxImportDepth : Nat := 64
deriving DecidableEq

end BlockLexer
