import BlockLexer.Files.Error
import BlockLexer.Files.Path

/-!
# File trees

A file tree as a value: what is known of the files of a system, and where in it a
run takes place.  Paths lead to locations, and a location is the same whichever
path leads to it.

* `FileTree.locate` follows a path;
* `FileTree.read` is the text of a file;
* `waypoints` are the locations that a path passes, for those who have to find out
  what is there;
* `FileTree.mem_entries_of_read` says that only files of the tree can be read.
-/

namespace BlockLexer.Files

open Text

/-- Where something is: the names from the root down. -/
abbrev Location := List (List Char)

/-- What is at a location. -/
inductive Node where
  /-- A file that holds a text. -/
  | text (chars : List Char)
  /-- A file whose bytes are no text. -/
  | binary
  | directory
deriving DecidableEq

/-- A file with these bytes.  They are a text if they are in UTF-8. -/
def Node.ofBytes (bytes : ByteArray) : Node :=
  match String.fromUTF8? bytes with
  | some decoded => .text decoded.toList
  | none => .binary

/-- The files and directories that are known.  What lies above one of them, or above
the place of the run, is a directory as well. -/
structure FileTree where
  /-- The directory from which relative paths start. -/
  workingDirectory : Location
  entries : List (Location × Node)

namespace FileTree

variable (tree : FileTree)

/-- Whether a location lies above something that is known, or is the place of the run. -/
def isAbove (location : Location) : Bool :=
  location.isPrefixOf tree.workingDirectory ||
    tree.entries.any fun entry => location.isPrefixOf entry.1

/-- What is at a location, if anything. -/
def node? (location : Location) : Option Node :=
  match tree.entries.find? fun entry => entry.1 = location with
  | some (_, node) => some node
  | none => if tree.isAbove location then some .directory else none

/-- The longest name that a file or directory may have, in bytes. -/
def longestName : Nat := 255

/-- The longest path, in bytes. -/
def longestPath : Nat := 4095

/-- From a location along one part of a path. -/
def enter (location : Location) (part : List Char) : Except FileError Location :=
  match tree.node? location with
  | some .directory =>
    if Path.isVoid part then .ok location
    else if part = ['.', '.'] then .ok location.dropLast
    else if longestName < byteSize part then .error .nameTooLong
    else
      let inner := location ++ [part]
      if (tree.node? inner).isSome then .ok inner else .error .notFound
  | some (.text _) | some .binary => .error .notDirectory
  | none => .error .notFound

/-- The location that a path leads to. -/
def locate (path : Path) : Except FileError Location :=
  if path.contains '\x00' then .error .nulByte
  else if path.isEmpty then .error .notFound
  else if longestPath < byteSize path then .error .nameTooLong
  else
    let start := if Path.isAbsolute path then [] else tree.workingDirectory
    (splitBy '/' path).foldlM tree.enter start

/-- The location that a path leads to, and what is there. -/
def find (path : Path) : Except FileError (Location × Node) :=
  match tree.locate path with
  | .error reason => .error reason
  | .ok location =>
    match tree.node? location with
    | none => .error .notFound
    | some node => .ok (location, node)

/-- The location that a path leads to, and the text of the file there. -/
def read (path : Path) : Except FileError (Location × List Char) :=
  match tree.find path with
  | .error reason => .error reason
  | .ok (_, .directory) => .error .isDirectory
  | .ok (_, .binary) => .error .notText
  | .ok (location, .text chars) => .ok (location, chars)

/-- Whether a path leads anywhere. -/
def contains (path : Path) : Bool :=
  match tree.find path with
  | .ok _ => true
  | .error _ => false

/-- What is at a location is an entry of the tree, or a directory that leads to one. -/
theorem mem_entries_of_node? {location : Location} {node : Node}
    (h : tree.node? location = some node) :
    (location, node) ∈ tree.entries ∨ node = .directory := by
  unfold node? at h
  split at h
  · next other found hfind =>
    simp only [Option.some.injEq] at h
    have hl := List.find?_some hfind
    simp only [decide_eq_true_eq] at hl
    rw [← hl, ← h]
    exact .inl (List.mem_of_find?_eq_some hfind)
  · simp only [Option.ite_none_right_eq_some, Option.some.injEq] at h
    exact .inr h.2.symm

/-- What is found is where the path leads to. -/
theorem found_of_find {path : Path} {location : Location} {node : Node}
    (h : tree.find path = .ok (location, node)) :
    tree.locate path = .ok location ∧ tree.node? location = some node := by
  unfold find at h
  split at h
  · cases h
  next location' hlocate =>
  split at h
  · cases h
  next node' hnode =>
  obtain ⟨rfl, rfl⟩ := Prod.mk.inj (Except.ok.inj h)
  exact ⟨hlocate, hnode⟩

/-- A file that can be read is where its path leads to, and its text is there. -/
theorem found_of_read {path : Path} {location : Location} {chars : List Char}
    (h : tree.read path = .ok (location, chars)) :
    tree.locate path = .ok location ∧ tree.node? location = some (.text chars) := by
  unfold read at h
  split at h
  · cases h
  · cases h
  · cases h
  next location' chars' hfind =>
  obtain ⟨rfl, rfl⟩ := Prod.mk.inj (Except.ok.inj h)
  exact tree.found_of_find hfind

/-- Only files of the tree can be read. -/
theorem mem_entries_of_read {path : Path} {location : Location} {chars : List Char}
    (h : tree.read path = .ok (location, chars)) :
    (location, Node.text chars) ∈ tree.entries := by
  rcases tree.mem_entries_of_node? (tree.found_of_read h).2 with hmem | hdir
  · exact hmem
  · cases hdir

end FileTree

/-- Where a part of a path leads if everything on the way is a directory. -/
def waypoint (location : Location) (part : List Char) : Location :=
  if Path.isVoid part then location
  else if part = ['.', '.'] then location.dropLast
  else location ++ [part]

/-- The locations that a path passes if everything on the way is a directory. -/
def waypoints (workingDirectory : Location) (path : Path) : List Location :=
  let start := if Path.isAbsolute path then [] else workingDirectory
  let step (passed : List Location × Location) (part : List Char) : List Location × Location :=
    let location := waypoint passed.2 part
    (passed.1 ++ [location], location)
  ((splitBy '/' path).foldl step ([], start)).1

end BlockLexer.Files
