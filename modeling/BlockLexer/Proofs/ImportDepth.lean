import BlockLexer.Proofs.SharedChain
import Mathlib.Data.List.Dedup
import Mathlib.Data.List.Perm.Subperm

/-!
# How deep imports are nested

A directive that leads to a file that is being expanded is refused, whichever way its path is
written.  So the files that are being expanded are as many as there are to read, at most, and an
expansion comes to its end without any limit on how deep imports may be nested.

* `FileTree.readable` are the locations of the files that can be read, and `FileTree.unread` are
  those that are not being expanded.
* `Import.Call.Under.chain_eq` says what is on the chain at a call: the locations of the files
  that lead to it.
* `Import.expandUnbounded` is the expansion without a limit, by recursion on the files that are not
  being expanded, and `Import.expand_eq_expandUnbounded` says when a limit has no effect.
* `Import.Importer.nesting_bounded` puts these together for runs.
-/

namespace BlockLexer

open Text Files

/-! ## Files that can be read -/

namespace Files.FileTree

variable (tree : FileTree)

/-- Whether there is a file with a text at a location. -/
def holdsText (location : Location) : Bool :=
  match tree.node? location with
  | some (.text _) => true
  | _ => false

/-- The locations of the files that can be read. -/
def readable : List Location :=
  ((tree.entries.map Prod.fst).filter tree.holdsText).dedup

/-- The locations of the files that can be read and are not on a chain. -/
def unread (chain : List Location) : List Location :=
  tree.readable.filter (· ∉ chain)

variable {tree}

theorem holdsText_iff {location : Location} :
    tree.holdsText location = true ↔ ∃ content, tree.node? location = some (.text content) := by
  unfold holdsText
  split
  · next content hnode => exact ⟨fun _ => ⟨content, hnode⟩, fun _ => rfl⟩
  · next hnode => exact ⟨nofun, fun ⟨content, h⟩ => absurd h (hnode content)⟩

/-- What is readable holds a text. -/
theorem mem_readable_iff {location : Location} :
    location ∈ tree.readable ↔ ∃ content, tree.node? location = some (.text content) := by
  unfold readable
  rw [List.mem_dedup, List.mem_filter, holdsText_iff]
  refine ⟨And.right, fun ⟨content, hnode⟩ => ⟨?_, content, hnode⟩⟩
  rcases tree.mem_entries_of_node? hnode with hentry | hnode
  · exact List.mem_map_of_mem hentry
  · cases hnode

theorem mem_readable_of_read {path : Path} {location : Location} {content : List Char}
    (h : tree.read path = .ok (location, content)) : location ∈ tree.readable :=
  mem_readable_iff.2 ⟨content, (tree.found_of_read h).2⟩

/-- One file more on the chain is one file less to be read. -/
theorem length_unread_lt {chain : List Location} {location : Location}
    (hreadable : location ∈ tree.readable) (hchain : location ∉ chain) :
    (tree.unread (chain ++ [location])).length < (tree.unread chain).length := by
  have hsplit : tree.unread (chain ++ [location]) = (tree.unread chain).filter (· ≠ location) := by
    unfold unread
    rw [List.filter_filter]
    refine List.filter_congr fun other _ => ?_
    rw [← Bool.decide_and]
    congr 1
    rw [List.mem_append, List.mem_singleton, not_or, and_comm]
  rw [hsplit, List.length_filter_lt_length_iff_exists]
  refine ⟨location, List.mem_filter.2 ⟨hreadable, decide_eq_true hchain⟩, by simp⟩

/-- All files that can be read are more than those that are not on a chain. -/
theorem length_unread_le (chain : List Location) :
    (tree.unread chain).length ≤ tree.readable.length :=
  List.length_filter_le _ _

end Files.FileTree

namespace Import

/-! ## The chain at a call -/

namespace Call.Under

variable {tree : FileTree} {levels : Nat} {own call : Call}

/-- The chain has the locations of the files that lead to a call, in their order. -/
theorem chain_eq (h : Call.Under tree levels own call) :
    ∃ targets locations, call.stack = own.stack ++ targets ∧
      call.chain = own.chain ++ locations ∧
      List.Forall₂ (fun target location => ∃ content, tree.read target = .ok (location, content))
        targets locations := by
  induction h with
  | refl levels call => exact ⟨[], [], by simp, by simp, .nil⟩
  | @inner levels outer call target location content hread hchain h ih =>
    obtain ⟨targets, locations, hstack, hlocations, hreads⟩ := ih
    refine ⟨target :: targets, location :: locations, ?_, ?_, .cons ⟨content, hread⟩ hreads⟩
    · rw [hstack, List.append_assoc, List.singleton_append]
    · rw [hlocations, List.append_assoc, List.singleton_append]

/-- No file comes on the chain twice. -/
theorem nodup (h : Call.Under tree levels own call) (hown : own.chain.Nodup) :
    call.chain.Nodup := by
  induction h with
  | refl levels call => exact hown
  | inner hread hchain h ih =>
    refine ih (List.nodup_append.2 ⟨hown, List.nodup_singleton _, fun a ha b hb => ?_⟩)
    obtain rfl := List.mem_singleton.1 hb
    exact ne_of_mem_of_not_mem ha hchain

end Call.Under

/-- Paths that lead to different files are as many as there are to read, at most. -/
theorem length_le_length_readable {tree : FileTree} {targets : List Path}
    {locations : List Location} (hlocations : locations.Nodup)
    (hreads : List.Forall₂
      (fun target location => ∃ content, tree.read target = .ok (location, content))
      targets locations) :
    targets.length ≤ tree.readable.length := by
  have hreadable : locations ⊆ tree.readable := by
    clear hlocations
    induction hreads with
    | nil => exact List.nil_subset _
    | cons hread hreads ih =>
      obtain ⟨content, hread⟩ := hread
      exact List.cons_subset.2 ⟨FileTree.mem_readable_of_read hread, ih⟩
  rw [hreads.length_eq]
  exact (List.subperm_of_subset hlocations hreadable).length_le

/-! ## Without a limit -/

/-- The text of a file with all its imports in their places, however deep they are nested. -/
def expandUnbounded (tree : FileTree) (config : Config) (place : Place) (text : List Char) :
    Reported (List FlatLine) :=
  let table := LineTable.ofText config.tabWidth text
  let follow (line : Line) (directive : Directive) : Reported (List FlatLine) :=
    let fault := directiveFault place line directive
    let target := directive.path config place.directory
    match hread : tree.read target with
    | .error reason => { outcome := .error (fault (.unreadableImport target reason)) }
    | .ok (location, content) =>
      if hchain : location ∈ place.chain then
        { outcome := .error (fault (.circularImport target)) }
      else
        have : (tree.unread (place.inner target location).chain).length <
            (tree.unread place.chain).length :=
          FileTree.length_unread_lt (FileTree.mem_readable_of_read hread) hchain
        let expanded :=
          expandUnbounded tree config (place.inner target location) (normalizeNewlines content)
        { expanded with
          events := .importFound target place.path line.number :: expanded.events }
  expandLines config place.path table follow none table.lines
-- A file that is followed goes on the chain, so there is one less to be read.
termination_by (tree.unread place.chain).length

/-- A walk over the lines of a file does not read the limit. -/
theorem expandLines_limit (config : Config) (limit : Nat) (path : Path) (table : LineTable)
    (follow : Line → Directive → Reported (List FlatLine)) (memory : BodyMemory)
    (lines : List Line) :
    expandLines { config with maxImportDepth := limit } path table follow memory lines =
      expandLines config path table follow memory lines := by
  induction lines generalizing memory with
  | nil => rfl
  | cons line lines ih =>
    unfold expandLines
    dsimp only
    rw [ih]

/-- A limit that is above the number of the files that are left to be read has no effect. -/
theorem expand_eq_expandUnbounded (tree : FileTree) (config : Config) (limit : Nat) {levels : Nat}
    {place : Place} (text : List Char) (hlevels : (tree.unread place.chain).length < levels) :
    expand tree { config with maxImportDepth := limit } levels place text =
      expandUnbounded tree config place text := by
  induction levels generalizing place text with
  | zero => exact absurd hlevels (Nat.not_lt_zero _)
  | succ levels ih =>
    rw [expand_eq, expandUnbounded, expandLines_limit]
    dsimp only
    congr 1
    funext line directive
    unfold follow
    dsimp only
    have hpath : directive.path { config with maxImportDepth := limit } place.directory =
      directive.path config place.directory := rfl
    rw [hpath]
    -- The walk without a limit keeps how its file was read, so the cases are those of its match.
    symm
    split
    · next reason hread => rw [hread]
    next location content hread =>
    rw [hread]
    dsimp only
    split
    · next hchain => rw [if_pos (List.contains_iff_mem.2 hchain)]
    next hchain =>
    have hlt : (tree.unread (place.chain ++ [location])).length <
        (tree.unread place.chain).length :=
      FileTree.length_unread_lt (FileTree.mem_readable_of_read hread) hchain
    have hinner : (tree.unread (place.inner (directive.path config place.directory)
        location).chain).length < levels :=
      Nat.lt_of_lt_of_le hlt (Nat.le_of_lt_succ hlevels)
    rw [if_neg (mt List.contains_iff_mem.1 hchain), ih (normalizeNewlines content) hinner]

/-! ## Runs -/

namespace Importer

/-- The location that a text comes from, if it comes from a path that leads anywhere. -/
def ownLocation? (importer : Importer) (origin : Path) : Option Location :=
  if origin = textOrigin then none else (importer.tree.locate origin).toOption

/-- The location that a text comes from is the first one on the chain. -/
theorem chain_placeOf (importer : Importer) (origin : Path) :
    (importer.placeOf origin).chain =
      importer.chain ++ (importer.ownLocation? origin).toList := by
  unfold placeOf ownLocation?
  split
  · exact (List.append_nil _).symm
  · cases importer.tree.locate origin with
    | ok location => rfl
    | error reason => exact (List.append_nil _).symm

/-- Imports are nested no deeper than there are files to read, whatever limit is set.  At every
call the chain has the locations of the files that are being expanded, the outermost first and
none of them twice: that of the text itself, if it comes from a path that leads anywhere, and then
those of the files that the directives on the way to the call lead to.  A limit above the number of
files has no effect, so that a run answers what an expansion without a limit answers. -/
theorem nesting_bounded (tree : FileTree) (config : Config) (text : List Char) (origin : Path) :
    let fresh : Importer := { tree, config }
    let (answer, left) := (fresh.runShared text origin).2
    answer = (fresh.run text origin).2 ∧
    (∀ call ∈ left.calls, ∃ targets locations, call.stack = origin :: targets ∧
      call.chain = (fresh.ownLocation? origin).toList ++ locations ∧
      List.Forall₂ (fun target location => ∃ content, tree.read target = .ok (location, content))
        targets locations ∧
      call.chain.Nodup ∧ targets.length ≤ tree.readable.length) ∧
    ∀ limit, tree.readable.length < limit →
      (run { tree, config := { config with maxImportDepth := limit } } text origin).2 =
        expandUnbounded tree config (fresh.placeOf origin) (normalizeNewlines text) := by
  intro fresh
  obtain ⟨more, hkeeps⟩ := fresh.exists_keeps_of_runShared text origin
  have hchain : (fresh.firstCall origin).chain = (fresh.ownLocation? origin).toList :=
    fresh.chain_placeOf origin
  refine ⟨hkeeps.result, fun call hcall => ?_, fun limit hlimit => ?_⟩
  · rw [hkeeps.calls, List.nil_append] at hcall
    have hunder : Call.Under tree config.maxImportDepth (fresh.firstCall origin) call :=
      hkeeps.made call hcall
    have hown : (fresh.firstCall origin).chain.Nodup := by
      rw [hchain]
      cases fresh.ownLocation? origin with
      | none => exact List.nodup_nil
      | some location => exact List.nodup_singleton location
    have hnodup := hunder.nodup hown
    obtain ⟨targets, locations, hstack, hlocations, hreads⟩ := hunder.chain_eq
    rw [hchain] at hlocations
    refine ⟨targets, locations, hstack, hlocations, hreads, hnodup, ?_⟩
    rw [hlocations] at hnodup
    exact length_le_length_readable hnodup.of_append_right hreads
  · exact expand_eq_expandUnbounded tree config limit _
      (Nat.lt_of_le_of_lt (FileTree.length_unread_le _) hlimit)

/-- Two files that import each other, by paths with detours, are nested twice and no deeper. -/
example :
    let file (name : Char) : List Char := [name, '.', '3', 'l', 'm']
    let tree : FileTree :=
      { workingDirectory := []
        entries :=
          [([file 'a'], .text "import d/../b".toList), ([file 'b'], .text "import ./a".toList),
            ([['d']], .directory)] }
    let (answer, left) := (runShared { tree, config := { maxImportDepth := 1000000 } }
      "import a".toList textOrigin).2
    left.calls.map Call.chain = [[], [[file 'a']], [[file 'a'], [file 'b']]] ∧
      answer.outcome.toOption = none ∧ tree.readable.length = 2 := by
  decide +kernel

end Importer

end Import

end BlockLexer
