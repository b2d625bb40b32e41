import BlockLexer.Regular.Primitive

/-!
# Classes between brackets

A class is a union of characters, ranges and classes, and two marks such as `&&`
join what stands on both sides of them.  A class may stand in a class.  `readClass`
reads one from behind its opening bracket and says how deep it is nested.

Every class that is left open is a class being read: `Bracket` is what is known of
it.  `depth_start` says that an empty class is not nested.
-/

namespace BlockLexer.Regular

/-- A class whose closing bracket is still to come. -/
structure Bracket where
  /-- Whether only hyphens were read, so that a bracket does not close the class. -/
  isFresh : Bool := true
  /-- How deep the parts of the union are nested. -/
  parts : List Nat := []
  /-- How deep what stands before the last two marks is nested. -/
  left : Option Nat := none

namespace Bracket

/-- How deep the inside of the class is nested. -/
def depth (bracket : Bracket) : Nat :=
  match bracket.left with
  | none => nesting bracket.parts
  | some left => max left (nesting bracket.parts) + 1

/-- The class with one part more. -/
def add (bracket : Bracket) (depth : Nat) : Bracket :=
  { bracket with isFresh := false, parts := depth :: bracket.parts }

/-- The class behind two marks. -/
def join (bracket : Bracket) : Bracket :=
  { isFresh := false, parts := [], left := some bracket.depth }

@[simp] theorem depth_start : depth {} = 0 := rfl

end Bracket

/-- The names of classes that are written between colons. -/
def classNames : List String :=
  ["alnum", "alpha", "ascii", "blank", "cntrl", "digit", "graph", "lower", "print", "punct",
    "space", "upper", "word", "xdigit"]

/-- A class named between colons, from behind its opening bracket: whether it is
negated, and what follows it. -/
def readNamedClass? : List Char → Option (Bool × List Char)
  | ':' :: cs =>
    let (negated, cs) := match cs with
      | '^' :: more => (true, more)
      | more => (false, more)
    match cs.dropWhile (· ≠ ':') with
    | ':' :: ']' :: rest =>
      if classNames.contains (String.ofList (cs.takeWhile (· ≠ ':'))) then some (negated, rest)
      else none
    | _ => none
  | _ => none

/-- What follows the opening bracket of a class and perhaps the mark of its negation.
In bytes no class may be negated, for it would hold parts of characters. -/
def openClass (setting : Setting) (cs : List Char) : Option (List Char) :=
  match skip setting cs with
  | '^' :: more => if setting.unicode then some more else none
  | more => some more

/-- A primitive of a class. -/
def readClassPrimitive (setting : Setting) : List Char → Option (Primitive × List Char)
  | [] => none
  | c :: rest => if c = '\\' then readEscape setting rest else some (.literal c false, rest)

/-- The first character of a range is not behind the last one. -/
def isRange : Primitive → Primitive → Bool
  | .literal first _, .literal last _ => first ≤ last
  | _, _ => false

/-- Reads a primitive or a range of a class, and gives what follows. -/
def readClassPart (setting : Setting) (cs : List Char) : Option (List Char) :=
  (readClassPrimitive setting cs).bind fun (first, rest) =>
    if !first.fitsClass setting then none
    else
      match skip setting rest with
      | [] => none
      | c :: more =>
        let next := peek setting more
        if c ≠ '-' || next = some ']' || next = some '-' then some (c :: more)
        else
          (readClassPrimitive setting (skip setting more)).bind fun (last, rest) =>
            if last.fitsClass setting && isRange first last then some rest else none

/-- Reads up to the bracket that closes the outermost class.  No more than `fuel` parts
are read. -/
def readBrackets (setting : Setting) :
    (fuel : Nat) → Bracket → (outer : List Bracket) → List Char → Option (Nat × List Char)
  | 0, _, _, _ => none
  | fuel + 1, bracket, outer, cs =>
    match skip setting cs with
    | [] => none
    | c :: more =>
      if bracket.isFresh && c = '-' then
        readBrackets setting fuel { bracket with parts := 0 :: bracket.parts } outer more
      else if bracket.isFresh && bracket.parts.isEmpty && c = ']' then
        readBrackets setting fuel (bracket.add 0) outer more
      else if c = '[' then
        match readNamedClass? more with
        | some (negated, rest) =>
          if negated && !setting.unicode then none
          else readBrackets setting fuel (bracket.add 0) outer rest
        | none =>
          (openClass setting more).bind (readBrackets setting fuel {} (bracket :: outer))
      else if c = ']' then
        match outer with
        | [] => some (bracket.depth + 1, more)
        | parent :: outer => readBrackets setting fuel (parent.add (bracket.depth + 1)) outer more
      else if (c = '&' || c = '-' || c = '~') && more.head? = some c then
        readBrackets setting fuel bracket.join outer (more.drop 1)
      else
        (readClassPart setting (c :: more)).bind (readBrackets setting fuel (bracket.add 0) outer)

/-- Reads a class from behind its opening bracket: how deep it is nested, and what
follows it. -/
def readClass (setting : Setting) (cs : List Char) : Option (Nat × List Char) :=
  (openClass setting cs).bind (readBrackets setting (cs.length + 1) {} [])

end BlockLexer.Regular
