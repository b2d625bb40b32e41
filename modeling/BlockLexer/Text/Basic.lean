/-!
# Text as lists of characters

The library reads and writes text as `List Char`.  This module holds what every
other module needs of it, in this order:

* sizes and cuts: `byteSize`, `takeBytes`, `dropBytes`, `splitBy`, `joinWith`,
  `splitLines`, `unlines`;
* character classes of the notation, which are ASCII only: `isBlank`,
  `startsName`, `continuesName`, `equalsCaseless`;
* white space in the sense of Unicode, and trimming by it.

`splitLines_unlines` says that lines are found again, and `joinWith_splitBy` that
pieces make up the text they were cut from, as `takeBytes_append_dropBytes` does for a
cut at a byte.
-/

namespace BlockLexer.Text

/-! ## Sizes and cuts -/

/-- The length of the UTF-8 form of a text. -/
def byteSize (cs : List Char) : Nat :=
  cs.foldr (fun c size => c.utf8Size + size) 0

@[simp] theorem byteSize_nil : byteSize [] = 0 := rfl

@[simp] theorem byteSize_cons (c : Char) (cs : List Char) :
    byteSize (c :: cs) = c.utf8Size + byteSize cs := rfl

@[simp] theorem byteSize_append (cs ds : List Char) :
    byteSize (cs ++ ds) = byteSize cs + byteSize ds := by
  induction cs with
  | nil => simp
  | cons c cs ih => simp [ih, Nat.add_assoc]

/-- The characters of a text that end within its first `n` bytes. -/
def takeBytes (n : Nat) : List Char → List Char
  | [] => []
  | c :: cs => if c.utf8Size ≤ n then c :: takeBytes (n - c.utf8Size) cs else []

/-- The characters of a text that do not end within its first `n` bytes. -/
def dropBytes (n : Nat) : List Char → List Char
  | [] => []
  | c :: cs => if c.utf8Size ≤ n then dropBytes (n - c.utf8Size) cs else c :: cs

/-- The characters of a text between two byte offsets. -/
def sliceBytes (start stop : Nat) (cs : List Char) : List Char :=
  takeBytes (stop - start) (dropBytes start cs)

/-- The pieces of a text between the separators.  There is one piece more than
there are separators. -/
def splitBy (sep : Char) (cs : List Char) : List (List Char) :=
  cs.foldr (fun c pieces => if c = sep then [] :: pieces else pieces.modifyHead (c :: ·)) [[]]

/-- Pieces written one after the other with a separator between them. -/
def joinWith (sep : List Char) (pieces : List (List Char)) : List Char :=
  sep.intercalate pieces

/-- A character put in front of a text that is already cut into lines. -/
def consLine (c : Char) (lines : List (List Char)) : List (List Char) :=
  if c = '\n' then [] :: lines
  else match lines with
    | [] => [[c]]
    | line :: rest => (c :: line) :: rest

/-- The lines of a text without their line feeds.  What follows the last line
feed is a line only if it is not empty. -/
def splitLines (cs : List Char) : List (List Char) :=
  cs.foldr consLine []

/-- Lines written one after the other, each closed by a line feed. -/
def unlines (lines : List (List Char)) : List Char :=
  lines.flatMap (· ++ ['\n'])

/-! ### Cuts at bytes -/

/-- The two sides of a cut make up the text. -/
theorem takeBytes_append_dropBytes (n : Nat) (cs : List Char) :
    takeBytes n cs ++ dropBytes n cs = cs := by
  induction cs generalizing n with
  | nil => rfl
  | cons c cs ih => by_cases h : c.utf8Size ≤ n <;> simp [takeBytes, dropBytes, h, ih]

@[simp] theorem takeBytes_zero (cs : List Char) : takeBytes 0 cs = [] := by
  cases cs with
  | nil => rfl
  | cons c cs => simp [takeBytes, Nat.ne_of_gt c.utf8Size_pos]

@[simp] theorem dropBytes_zero (cs : List Char) : dropBytes 0 cs = cs := by
  cases cs with
  | nil => rfl
  | cons c cs => simp [dropBytes, Nat.ne_of_gt c.utf8Size_pos]

/-- A cut at the size of a text takes the text. -/
@[simp] theorem takeBytes_byteSize_append (cs ds : List Char) :
    takeBytes (byteSize cs) (cs ++ ds) = cs := by
  induction cs with
  | nil => simp
  | cons c cs ih => simp [takeBytes, ih]

/-- A cut at the size of a text leaves what stands behind it. -/
@[simp] theorem dropBytes_byteSize_append (cs ds : List Char) :
    dropBytes (byteSize cs) (cs ++ ds) = ds := by
  induction cs with
  | nil => simp
  | cons c cs ih => simp [dropBytes, ih]

/-! ### Pieces -/

@[simp] theorem splitBy_nil (sep : Char) : splitBy sep [] = [[]] := rfl

@[simp] theorem splitBy_cons (sep c : Char) (cs : List Char) :
    splitBy sep (c :: cs) =
      if c = sep then [] :: splitBy sep cs else (splitBy sep cs).modifyHead (c :: ·) := rfl

theorem splitBy_ne_nil (sep : Char) (cs : List Char) : splitBy sep cs ≠ [] := by
  induction cs with
  | nil => exact List.cons_ne_nil _ _
  | cons c cs ih =>
    rw [splitBy_cons]
    split
    · exact List.cons_ne_nil _ _
    · cases hl : splitBy sep cs with
      | nil => exact absurd hl ih
      | cons piece pieces => exact List.cons_ne_nil _ _

/-- The pieces between the separators make up the text. -/
theorem joinWith_splitBy (sep : Char) (cs : List Char) :
    joinWith [sep] (splitBy sep cs) = cs := by
  induction cs with
  | nil => rfl
  | cons c cs ih =>
    rw [splitBy_cons]
    cases hl : splitBy sep cs with
    | nil => exact absurd hl (splitBy_ne_nil sep cs)
    | cons piece pieces =>
      rw [hl] at ih
      split
      · next hc =>
        rw [hc, ← ih]
        simp [joinWith, List.intercalate]
      · rw [← ih]
        cases pieces <;> simp [joinWith, List.intercalate]

/-! ### Lines -/

@[simp] theorem splitLines_nil : splitLines [] = [] := rfl

@[simp] theorem splitLines_cons (c : Char) (cs : List Char) :
    splitLines (c :: cs) = consLine c (splitLines cs) := rfl

/-- No line holds a line feed. -/
theorem lineFeed_not_mem_of_mem_splitLines {cs line : List Char} (h : line ∈ splitLines cs) :
    '\n' ∉ line := by
  induction cs generalizing line with
  | nil => simp at h
  | cons c cs ih =>
    rw [splitLines_cons] at h
    unfold consLine at h
    split at h
    · rcases List.mem_cons.1 h with rfl | hmem
      · exact List.not_mem_nil
      · exact ih hmem
    · next hc =>
      split at h
      · obtain rfl := List.mem_singleton.1 h
        simpa using Ne.symm hc
      · next first rest hcs =>
        rcases List.mem_cons.1 h with rfl | hmem
        · simp [ih (hcs ▸ List.mem_cons_self), Ne.symm hc]
        · exact ih (hcs ▸ List.mem_cons_of_mem first hmem)

/-- What is closed by a line feed is the first line. -/
theorem splitLines_append_lineFeed (line rest : List Char) (h : '\n' ∉ line) :
    splitLines (line ++ '\n' :: rest) = line :: splitLines rest := by
  induction line with
  | nil => rfl
  | cons c cs ih =>
    have hc : c ≠ '\n' := fun he => h (he ▸ List.mem_cons_self)
    have hcs : '\n' ∉ cs := fun hm => h (List.mem_cons_of_mem c hm)
    rw [List.cons_append, splitLines_cons, ih hcs]
    simp [consLine, hc]

@[simp] theorem unlines_nil : unlines [] = [] := rfl

@[simp] theorem unlines_cons (line : List Char) (lines : List (List Char)) :
    unlines (line :: lines) = line ++ '\n' :: unlines lines := by
  simp [unlines]

/-- Lines without line feeds are found again. -/
theorem splitLines_unlines (lines : List (List Char)) (h : ∀ line ∈ lines, '\n' ∉ line) :
    splitLines (unlines lines) = lines := by
  induction lines with
  | nil => rfl
  | cons line lines ih =>
    rw [unlines_cons, splitLines_append_lineFeed line _ (h line List.mem_cons_self),
      ih fun other hmem => h other (List.mem_cons_of_mem line hmem)]

/-! ## Character classes of the notation -/

/-- A space or a tab: what indentation and the gaps between tokens are made of. -/
def isBlank (c : Char) : Bool :=
  c = ' ' || c = '\t'

/-- A character that may begin a name. -/
def startsName (c : Char) : Bool :=
  c = '_' || c.isAlpha

/-- A character that may stand in a name after its first character. -/
def continuesName (c : Char) : Bool :=
  c = '_' || c.isAlphanum

/-- Equality of two texts up to the case of ASCII letters. -/
def equalsCaseless (cs ds : List Char) : Bool :=
  cs.map Char.toLower = ds.map Char.toLower

/-! ## White space -/

/-- The characters with the Unicode property White_Space. -/
def isSpace (c : Char) : Bool :=
  let n := c.toNat
  (0x9 ≤ n && n ≤ 0xd) || n = 0x20 || n = 0x85 || n = 0xa0 || n = 0x1680 ||
    (0x2000 ≤ n && n ≤ 0x200a) || n = 0x2028 || n = 0x2029 || n = 0x202f || n = 0x205f ||
    n = 0x3000

/-- A text without the white space at its beginning. -/
def trimStart (cs : List Char) : List Char :=
  cs.dropWhile isSpace

/-- A text without the white space at its end. -/
def trimEnd (cs : List Char) : List Char :=
  (cs.reverse.dropWhile isSpace).reverse

/-- A text without the white space at both ends. -/
def trim (cs : List Char) : List Char :=
  trimEnd (trimStart cs)

/-- Every character that ends a line or separates words in ASCII is white space. -/
theorem isSpace_of_isWhitespace (c : Char) (h : c.isWhitespace = true) : isSpace c = true := by
  simp only [Char.isWhitespace, Bool.or_eq_true, decide_eq_true_eq] at h
  rcases h with ((rfl | rfl) | rfl) | rfl <;> decide

end BlockLexer.Text
