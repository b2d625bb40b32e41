import BlockLexer.Fault

/-!
# Open blocks

One `Frame` for every block that is open, the innermost first.  The first member
of a block fixes the indentation of all its members, and the `end` of a block
stands where its header stands.

* `expectMembers` is called at the line end behind a bare header and fixes the
  indentation ahead of the first member;
* `checkMember` is called at every member;
* `close` is called at every `end`.
-/

namespace BlockLexer

/-- An open block. -/
structure Frame where
  /-- The class name of the header. -/
  owner : List Char
  /-- The line of the header. -/
  line : Nat
  /-- The indentation of the header's line. -/
  headerIndent : Nat
  /-- The indentation of the members, once it is fixed. -/
  required : Option Nat := none
  /-- Whether members left of the header are refused before anything else. -/
  bounded : Bool := false
deriving DecidableEq

/-- The open blocks, the innermost first. -/
abbrev BlockStack := List Frame

namespace BlockStack

/-- The members are about to begin: `next` is the indentation of the next line with
content and whether that line closes the block.  What is fixed already stays. -/
def expectMembers (next : Option (Nat × Bool)) : BlockStack → BlockStack
  | [] => []
  | frame :: outer =>
    if frame.required.isSome then frame :: outer
    else
      let required := match next with
        | some (indent, false) => some indent
        | _ => none
      { frame with required, bounded := true } :: outer

/-- The stack behind a member with this indentation, or why the member is refused.
The first member of a block is the measure of the others. -/
def checkMember (actual : Nat) : BlockStack → Except Cause BlockStack
  | [] => .ok []
  | frame :: outer =>
    if frame.bounded && actual < frame.headerIndent then
      .error (.misaligned frame.headerIndent actual)
    else match frame.required with
      | none => .ok ({ frame with required := some actual } :: outer)
      | some required =>
        if required = actual then .ok (frame :: outer)
        else .error (.misaligned required actual)

/-- The stack behind an `end` with this indentation, and the closed frame or why
the `end` is refused.  A frame whose `end` is misaligned is gone nevertheless. -/
def close (actual : Nat) : BlockStack → BlockStack × Except Cause Frame
  | [] => ([], .error .strayEnd)
  | frame :: outer =>
    (outer,
      if frame.headerIndent = actual then .ok frame
      else .error (.misaligned frame.headerIndent actual))

end BlockStack

end BlockLexer
