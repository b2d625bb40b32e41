import BlockLexer.Proofs.Memory
import BlockLexer.Proofs.Plain
import Mathlib.Data.List.TakeWhile

/-!
# Expansion as a relation

An expansion walks the lines of a file, and begins anew in every file that an import leads
it to.  This module says the same as a relation, in which every line that comes out keeps
the file that it stands in.

* `Spot` is a line of a file with the blanks that all imports on the way to it put in
  front of it.  `Spot.flatLine` is the line that it becomes.
* `Expands` is the relation, with a constructor for each thing that a line can be: kept,
  or followed.
* `Expands.exists_of_expand` says that the walk is sound for the relation.
* `Expands.stands` and `Expands.source` say where the lines are found.
-/

namespace BlockLexer

open Text Files Import

/-! ## Spots -/

/-- A line of a file that stands in a flat text. -/
structure Spot where
  path : Path
  /-- The text of the file, with its line ends normal. -/
  text : List Char
  /-- The blanks that are put in front of the line. -/
  shift : List Char
  line : Line
deriving DecidableEq

namespace Spot

/-- The lines of the file. -/
def table (config : Config) (spot : Spot) : LineTable :=
  .ofText config.tabWidth spot.text

/-- The spot behind more blanks. -/
def indented (blanks : List Char) (spot : Spot) : Spot :=
  { spot with shift := blanks ++ spot.shift }

/-- The line that a spot becomes. -/
def flatLine (spot : Spot) : FlatLine :=
  FlatLine.indented spot.shift
    { chars := spot.line.chars, origin := { path := spot.path, line := spot.line.number } }

/-- The line of a spot is a line of its file that is no directive to follow, and only
blanks are put in front of it. -/
structure Stands (config : Config) (spot : Spot) : Prop where
  line : (spot.table config).get? spot.line.number = some spot.line
  kept : (spot.table config).followed? config spot.line.number = none
  shift : ∀ c ∈ spot.shift, isBlank c = true

/-- Without blanks in front of it a line stays what it is. -/
theorem flatLine_of_shift_nil (path : Path) (text : List Char) (line : Line) :
    ({ path, text, shift := [], line } : Spot).flatLine =
      { chars := line.chars, origin := { path, line := line.number } } := by
  unfold flatLine FlatLine.indented
  split <;> rfl

theorem chars_flatLine (spot : Spot) :
    spot.flatLine.chars =
      if spot.line.chars.isEmpty then spot.line.chars else spot.shift ++ spot.line.chars := by
  unfold flatLine FlatLine.indented
  split <;> rfl

theorem origin_flatLine (spot : Spot) :
    spot.flatLine.origin =
      { path := spot.path
        line := spot.line.number
        shift := if spot.line.chars.isEmpty then 0 else byteSize spot.shift } := by
  unfold flatLine FlatLine.indented
  split
  · rfl
  · simp

/-- Blanks are put in front of a spot as they are put in front of its line. -/
theorem flatLine_indented (blanks : List Char) (spot : Spot) :
    (spot.indented blanks).flatLine = spot.flatLine.indented blanks := by
  unfold flatLine FlatLine.indented indented
  by_cases hempty : spot.line.chars.isEmpty = true
  · simp only [hempty, if_true]
  · have happend : (spot.shift ++ spot.line.chars).isEmpty = false := by
      rw [List.isEmpty_eq_false_iff]
      exact List.append_ne_nil_of_right_ne_nil _ (mt List.isEmpty_iff.2 hempty)
    simp only [hempty, happend, Bool.false_eq_true, if_false, byteSize_append,
      List.append_assoc, FlatLine.mk.injEq, Origin.mk.injEq, true_and]
    omega

theorem Stands.indented {config : Config} {spot : Spot} {blanks : List Char}
    (h : spot.Stands config) (hblanks : ∀ c ∈ blanks, isBlank c = true) :
    (spot.indented blanks).Stands config := by
  refine ⟨h.line, h.kept, fun c hc => ?_⟩
  rcases List.mem_append.1 hc with hc | hc
  · exact hblanks c hc
  · exact h.shift c hc

end Spot

/-! ## The relation -/

/-- The place of a file that an import leads to. -/
def Import.Place.inner (place : Place) (target : Path) (location : Location) : Place where
  path := target
  directory := (Path.parent? target).getD ['.']
  chain := place.chain ++ [location]

/-- The lines of a text behind the first `passed` ones become these spots. -/
inductive Expands (tree : FileTree) (config : Config) :
    Place → List Char → Nat → List Spot → Prop
  | stop {place : Place} {text : List Char} {passed : Nat}
      (hsize : (LineTable.ofText config.tabWidth text).size ≤ passed) :
      Expands tree config place text passed []
  | kept {place : Place} {text : List Char} {passed : Nat} {line : Line} {spots : List Spot}
      (hline : (LineTable.ofText config.tabWidth text).get? (passed + 1) = some line)
      (hkept : (LineTable.ofText config.tabWidth text).followed? config (passed + 1) = none)
      (more : Expands tree config place text (passed + 1) spots) :
      Expands tree config place text passed
        ({ path := place.path, text, shift := [], line } :: spots)
  | followed {place : Place} {text content : List Char} {passed : Nat} {directive : Directive}
      {location : Location} {inside spots : List Spot}
      (hfollowed : (LineTable.ofText config.tabWidth text).followed? config (passed + 1) =
        some directive)
      (hread : tree.read (directive.path config place.directory) = .ok (location, content))
      (hchain : location ∉ place.chain)
      (hinside : Expands tree config (place.inner (directive.path config place.directory) location)
        (normalizeNewlines content) 0 inside)
      (more : Expands tree config place text (passed + 1) spots) :
      Expands tree config place text passed
        (inside.map (Spot.indented directive.indentation) ++ spots)

/-! ## The walk is sound -/

namespace Import

/-- What a directive leads to, as the walk over a file has it. -/
def follow (tree : FileTree) (config : Config) (levels : Nat) (place : Place) (line : Line)
    (directive : Directive) : Reported (List FlatLine) :=
  let fault := directiveFault place line directive
  match levels with
  | 0 => { outcome := .error (fault (.importsTooDeep config.maxImportDepth)) }
  | levels + 1 =>
    let target := directive.path config place.directory
    match tree.read target with
    | .error reason => { outcome := .error (fault (.unreadableImport target reason)) }
    | .ok (location, content) =>
      if place.chain.contains location then
        { outcome := .error (fault (.circularImport target)) }
      else
        let expanded :=
          expand tree config levels (place.inner target location) (normalizeNewlines content)
        { expanded with
          events := .importFound target place.path line.number :: expanded.events }

theorem expand_eq (tree : FileTree) (config : Config) (levels : Nat) (place : Place)
    (text : List Char) :
    expand tree config levels place text =
      expandLines config place.path (.ofText config.tabWidth text)
        (follow tree config levels place) none (LineTable.ofText config.tabWidth text).lines := by
  cases levels <;> rfl

/-- A directive that is followed without a fault leads to a file that is not being
expanded already, and to its expansion. -/
theorem exists_of_follow {tree : FileTree} {config : Config} {levels : Nat} {place : Place}
    {line : Line} {directive : Directive} {flat : List FlatLine}
    (h : (follow tree config levels place line directive).outcome = .ok flat) :
    ∃ levels' location content, levels = levels' + 1 ∧
      tree.read (directive.path config place.directory) = .ok (location, content) ∧
      location ∉ place.chain ∧
      (expand tree config levels' (place.inner (directive.path config place.directory) location)
        (normalizeNewlines content)).outcome = .ok flat := by
  unfold follow at h
  split at h
  · cases h
  next levels =>
  dsimp only at h
  split at h
  · cases h
  next location content hread =>
  split at h
  · cases h
  next hchain =>
  exact ⟨levels, location, content, rfl, hread, by simpa using hchain, h⟩

/-- The first of the lines that are walked is kept or followed, and the others are walked
behind it. -/
theorem expandLines_cons {config : Config} {table : LineTable} {line : Line} {passed : Nat}
    (path : Path) (follow : Line → Directive → Reported (List FlatLine)) (lines : List Line)
    (hline : table.get? (passed + 1) = some line) :
    expandLines config path table follow (table.memoryBehind passed) (line :: lines) =
      match table.followed? config (passed + 1) with
      | none =>
        (expandLines config path table follow (table.memoryBehind (passed + 1)) lines).map
          ({ chars := line.chars, origin := { path, line := line.number } } :: ·)
      | some directive =>
        (follow line directive).andThen fun inner =>
          (expandLines config path table follow (table.memoryBehind (passed + 1)) lines).map
            (inner.map (FlatLine.indented directive.indentation) ++ ·) := by
  rw [LineTable.memoryBehind_succ hline, LineTable.followed?_succ hline]
  rfl

end Import

namespace Expands

variable {tree : FileTree} {config : Config} {place : Place} {text : List Char} {passed : Nat}
  {spots : List Spot}

/-- The lines that are walked behind the first ones become the spots of an expansion, if
the files that are followed do. -/
theorem exists_of_expandLines {follow : Line → Directive → Reported (List FlatLine)}
    {flat : List FlatLine}
    (hfollow : ∀ line directive inner, (follow line directive).outcome = .ok inner →
      ∃ location content inside,
        tree.read (directive.path config place.directory) = .ok (location, content) ∧
        location ∉ place.chain ∧
        Expands tree config (place.inner (directive.path config place.directory) location)
          (normalizeNewlines content) 0 inside ∧
        inner = inside.map Spot.flatLine)
    (h : (expandLines config place.path (.ofText config.tabWidth text) follow
      ((LineTable.ofText config.tabWidth text).memoryBehind passed)
      ((LineTable.ofText config.tabWidth text).lines.drop passed)).outcome = .ok flat) :
    ∃ spots, Expands tree config place text passed spots ∧ flat = spots.map Spot.flatLine := by
  induction hlines : (LineTable.ofText config.tabWidth text).lines.drop passed
    generalizing passed flat with
  | nil =>
    rw [hlines] at h
    refine ⟨[], .stop (List.drop_eq_nil_iff.1 hlines), ?_⟩
    exact (Except.ok.inj h).symm
  | cons line lines ih =>
    obtain ⟨hline, hdrop⟩ := LineTable.get?_of_drop hlines
    rw [hlines, expandLines_cons _ _ _ hline, ← hdrop] at h
    cases hfollowed : (LineTable.ofText config.tabWidth text).followed? config (passed + 1) with
    | none =>
      rw [hfollowed] at h
      obtain ⟨more, hmore, rfl⟩ := exists_of_map_eq_ok h
      obtain ⟨spots, hspots, rfl⟩ := ih hmore hdrop
      refine ⟨_, .kept hline hfollowed hspots, ?_⟩
      rw [List.map_cons, Spot.flatLine_of_shift_nil]
    | some directive =>
      rw [hfollowed] at h
      dsimp only at h
      rw [Reported.outcome_andThen] at h
      obtain ⟨inner, hinner, hrest⟩ := exists_of_bind_eq_ok h
      obtain ⟨more, hmore, rfl⟩ := exists_of_map_eq_ok hrest
      obtain ⟨spots, hspots, rfl⟩ := ih hmore hdrop
      obtain ⟨location, content, inside, hread, hchain, hinside, rfl⟩ :=
        hfollow line directive inner hinner
      refine ⟨_, .followed hfollowed hread hchain hinside hspots, ?_⟩
      rw [List.map_append, List.map_map, List.map_map]
      congr 1
      exact List.map_congr_left fun spot _ => (spot.flatLine_indented _).symm

/-- An expansion without a fault becomes the lines of its spots. -/
theorem exists_of_expand {levels : Nat} {flat : List FlatLine}
    (h : (expand tree config levels place text).outcome = .ok flat) :
    ∃ spots, Expands tree config place text 0 spots ∧ flat = spots.map Spot.flatLine := by
  -- Every import that is followed takes one level.
  induction levels generalizing place text flat with
  | zero =>
    rw [expand_eq] at h
    refine exists_of_expandLines (fun line directive inner hinner => ?_) h
    obtain ⟨levels, -, -, hlevels, -⟩ := exists_of_follow hinner
    cases hlevels
  | succ levels ih =>
    rw [expand_eq] at h
    refine exists_of_expandLines (fun line directive inner hinner => ?_) h
    obtain ⟨levels', location, content, hlevels, hread, hchain, hexpand⟩ :=
      exists_of_follow hinner
    obtain rfl : levels = levels' := Nat.succ.inj hlevels
    obtain ⟨inside, hinside, rfl⟩ := ih hexpand
    exact ⟨location, content, inside, hread, hchain, hinside, rfl⟩

/-! ## Where the lines are found -/

/-- The blanks in front of a directive are blanks. -/
theorem isBlank_of_followed? {table : LineTable} {number : Nat} {directive : Directive}
    (h : table.followed? config number = some directive) :
    ∀ c ∈ directive.indentation, isBlank c = true := by
  unfold LineTable.followed? at h
  obtain ⟨line, -, hdirective⟩ := Option.bind_eq_some_iff.1 h
  obtain ⟨-, hline⟩ := Option.ite_none_right_eq_some.1 hdirective
  unfold Directive.ofLine? at hline
  split at hline
  · obtain rfl := Option.some.inj hline
    intro c hc
    exact List.mem_takeWhile_imp hc
  · cases hline

/-- Every spot stands in its file. -/
theorem stands (h : Expands tree config place text passed spots) :
    ∀ spot ∈ spots, spot.Stands config := by
  induction h with
  | stop hsize => simp
  | @kept place text passed line spots hline hkept more ih =>
    have hnumber : line.number = passed + 1 := LineTable.numbered_ofText _ _ _ _ hline
    refine List.forall_mem_cons.2 ⟨⟨?_, ?_, by simp⟩, ih⟩
    · rw [hnumber]
      exact hline
    · rw [hnumber]
      exact hkept
  | followed hfollowed hread hchain hinside more ih ih' =>
    intro spot hspot
    rcases List.mem_append.1 hspot with hspot | hspot
    · obtain ⟨inner, hinner, rfl⟩ := List.mem_map.1 hspot
      exact (ih inner hinner).indented (isBlank_of_followed? hfollowed)
    · exact ih' spot hspot

/-- Every spot stands in the text that is expanded, or in a file that an import leads to
and that is not being expanded already. -/
theorem source (h : Expands tree config place text passed spots) :
    ∀ spot ∈ spots, (spot.path = place.path ∧ spot.text = text) ∨
      ∃ location content directory target, tree.read spot.path = .ok (location, content) ∧
        spot.text = normalizeNewlines content ∧ location ∉ place.chain ∧
        spot.path = Path.join directory (Path.appendExtension config.extension target) := by
  induction h with
  | stop hsize => simp
  | kept hline hkept more ih => exact List.forall_mem_cons.2 ⟨.inl ⟨rfl, rfl⟩, ih⟩
  | @followed place text content passed directive location inside spots hfollowed hread hchain
      hinside more ih ih' =>
    intro spot hspot
    rcases List.mem_append.1 hspot with hspot | hspot
    · obtain ⟨inner, hinner, rfl⟩ := List.mem_map.1 hspot
      rcases ih inner hinner with ⟨hpath, htext⟩ | hdeeper
      · refine .inr ⟨location, content, place.directory, directive.target, ?_, htext, hchain, hpath⟩
        rw [← hread]
        exact congrArg tree.read hpath
      · obtain ⟨deeper, content', directory, target, hread', htext, hnot, hpath⟩ := hdeeper
        exact .inr ⟨deeper, content', directory, target, hread', htext,
          fun hmem => hnot (List.mem_append_left _ hmem), hpath⟩
    · exact ih' spot hspot

end Expands

end BlockLexer
