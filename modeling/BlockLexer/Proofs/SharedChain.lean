import BlockLexer.Proofs.Expansion

/-!
# The chain of an importer

The files that are being expanded may be kept in one chain that all expansions share: a directive
puts its file on the chain and takes it off again when the file is expanded.  A fault leaves the
chain as it is, and an importer clears it behind every run.  This module says the same of such an
importer as of one whose expansions get their chain from the file that they begin in.

* `Import.expandShared` is the expansion with a shared chain.  It keeps account of its calls.
* `Import.Call.Under` are the calls that a call leads to.
* `Import.Keeps` is what there is to say of the shared chain, and
  `Import.exists_keeps_of_expandShared` says it of every expansion: it answers what `Import.expand`
  answers, and puts the chain in order again unless there is a fault.
* `Import.Importer.session` are runs one after the other, and `Import.Importer.session_fresh` says
  that each of them answers what a new importer answers.
-/

namespace BlockLexer.Import

open Text Files

/-! ## Expansions with a shared chain -/

/-- The beginning of the expansion of a file: the paths of the files that are being expanded, the
outermost first, and what is on the chain. -/
structure Call where
  stack : List Path
  chain : List Location

/-- What expansions share: the chain, and the calls so far. -/
structure Shared where
  chain : List Location
  calls : List Call := []

/-- The lines of one file, as `expandLines` has them, with a shared chain. -/
def expandLinesShared (config : Config) (path : Path) (table : LineTable)
    (follow : Line → Directive → Shared → Reported (List FlatLine) × Shared) :
    BodyMemory → List Line → Shared → Reported (List FlatLine) × Shared
  | _, [], shared => ({ outcome := .ok [] }, shared)
  | memory, line :: rest, shared =>
    let (inBody, memory) := memory.pass table line
    let directive? :=
      if config.followImports && !inBody then Directive.ofLine? line.chars else none
    match directive? with
    | none =>
      let (more, shared) := expandLinesShared config path table follow memory rest shared
      (more.map ({ chars := line.chars, origin := { path, line := line.number } } :: ·), shared)
    | some directive =>
      let (inner, shared) := follow line directive shared
      match inner.outcome with
      | .error _ => (inner, shared)
      | .ok _ =>
        let (more, shared) := expandLinesShared config path table follow memory rest shared
        (inner.andThen fun lines =>
          more.map (lines.map (FlatLine.indented directive.indentation) ++ ·), shared)

/-- What a directive leads to.  `expand?` expands the file, unless imports may not be nested any
deeper. -/
def followShared (tree : FileTree) (config : Config) (path directory : Path)
    (expand? : Option (Path → Path → List Char → Shared → Reported (List FlatLine) × Shared))
    (line : Line) (directive : Directive) (shared : Shared) : Reported (List FlatLine) × Shared :=
  let fault := directiveFault { path, directory, chain := shared.chain } line directive
  match expand? with
  | none => ({ outcome := .error (fault (.importsTooDeep config.maxImportDepth)) }, shared)
  | some expand =>
    let target := directive.path config directory
    match tree.read target with
    | .error reason => ({ outcome := .error (fault (.unreadableImport target reason)) }, shared)
    | .ok (location, content) =>
      if shared.chain.contains location then
        ({ outcome := .error (fault (.circularImport target)) }, shared)
      else
        let (expanded, left) :=
          expand target ((Path.parent? target).getD ['.']) (normalizeNewlines content)
            { shared with chain := shared.chain ++ [location] }
        ({ expanded with events := .importFound target path line.number :: expanded.events },
          match expanded.outcome with
          | .ok _ => { left with chain := left.chain.dropLast }
          -- A fault leaves the file on the chain.
          | .error _ => left)

/-- The text of a file, as `expand` has it, with a shared chain.  `outer` are the files that lead
to it. -/
def expandShared (tree : FileTree) (config : Config) :
    (levels : Nat) → (outer : List Path) → (path directory : Path) → List Char → Shared →
      Reported (List FlatLine) × Shared
  | levels, outer, path, directory, text, shared =>
    let stack := outer ++ [path]
    let table := LineTable.ofText config.tabWidth text
    let expand? :=
      match levels with
      | 0 => none
      | levels + 1 => some (expandShared tree config levels stack)
    expandLinesShared config path table (followShared tree config path directory expand?) none
      table.lines { shared with calls := shared.calls ++ [{ stack, chain := shared.chain }] }

/-! ## Calls -/

/-- The calls that a call leads to, itself included.  `levels` is how much deeper they may be. -/
inductive Call.Under (tree : FileTree) : Nat → Call → Call → Prop
  | refl (levels : Nat) (call : Call) : Under tree levels call call
  | inner {levels : Nat} {outer call : Call} {target : Path} {location : Location}
      {content : List Char} (hread : tree.read target = .ok (location, content))
      (hchain : location ∉ outer.chain)
      (h : Under tree levels
        { stack := outer.stack ++ [target], chain := outer.chain ++ [location] } call) :
      Under tree (levels + 1) outer call

/-- What there is to say of the answer of an expansion with a shared chain, and of what it leaves,
as long as the file of the call `own` is expanded.  `more` are the calls that it makes. -/
structure Keeps (own : Call) (made : Call → Prop) (expected : Reported (List FlatLine))
    (before : Shared) (answer : Reported (List FlatLine) × Shared) (more : List Call) : Prop where
  result : answer.1 = expected
  restored : ∀ flat, answer.1.outcome = .ok flat → answer.2.chain = own.chain
  calls : answer.2.calls = before.calls ++ more
  made : ∀ call ∈ more, made call
  /-- A fault leaves on the chain what was there when its file was called for. -/
  failed : ∀ fault, answer.1.outcome = .error fault → ∃ call ∈ own :: more,
    answer.2.chain = call.chain ∧ call.stack.getLast? = some fault.path

section Lines

variable {config : Config} {path : Path} {table : LineTable} {made : Call → Prop}
  {follow : Line → Directive → Reported (List FlatLine)}
  {followShared : Line → Directive → Shared → Reported (List FlatLine) × Shared}

/-- A walk over the lines of a file keeps what is kept at its directives. -/
theorem exists_keeps_of_follow (own : Call)
    (hfollow : ∀ line directive before, before.chain = own.chain →
      ∃ more, Keeps own made (follow line directive) before
        (followShared line directive before) more)
    (memory : BodyMemory) (lines : List Line) (before : Shared)
    (hbefore : before.chain = own.chain) :
    ∃ more, Keeps own made (expandLines config path table follow memory lines) before
      (expandLinesShared config path table followShared memory lines before) more := by
  induction lines generalizing memory before with
  | nil =>
    refine ⟨[], rfl, fun _ _ => hbefore, (List.append_nil _).symm, by simp, ?_⟩
    rintro fault ⟨⟩
  | cons line lines ih =>
    unfold expandLines expandLinesShared
    dsimp only
    cases (if config.followImports && !(memory.pass table line).1 then
      Directive.ofLine? line.chars else none) with
    | none =>
      obtain ⟨more, hkeeps⟩ := ih (memory.pass table line).2 before hbefore
      refine ⟨more, ?_, fun flat h => ?_, hkeeps.calls, hkeeps.made, fun fault h => ?_⟩
      · rw [← hkeeps.result]
      · obtain ⟨flat', h', -⟩ := exists_of_map_eq_ok h
        exact hkeeps.restored flat' h'
      · exact hkeeps.failed fault (eq_error_of_map_eq_error h)
    | some directive =>
      dsimp only
      obtain ⟨inside, hinner⟩ := hfollow line directive before hbefore
      rcases hanswer : followShared line directive before with ⟨inner, shared⟩
      rw [hanswer] at hinner
      obtain rfl : inner = follow line directive := hinner.result
      dsimp only
      cases hinside : (follow line directive).outcome with
      | error fault =>
        -- The walk stops, with the chain as the file that failed leaves it.
        refine ⟨inside, ?_, hinner.restored, hinner.calls, hinner.made, hinner.failed⟩
        unfold Reported.andThen
        simp only [hinside]
        rw [← hinside]
      | ok flat =>
        obtain ⟨more, hmore⟩ := ih (memory.pass table line).2 _ (hinner.restored flat hinside)
        refine ⟨inside ++ more, ?_, fun flat' h => ?_, ?_, ?_, fun fault h => ?_⟩
        · rw [← hmore.result]
        · rw [Reported.outcome_andThen, hinside] at h
          obtain ⟨flat'', h', -⟩ := exists_of_map_eq_ok h
          exact hmore.restored flat'' h'
        · rw [hmore.calls, hinner.calls, List.append_assoc]
        · exact List.forall_mem_append.2 ⟨hinner.made, hmore.made⟩
        · rw [Reported.outcome_andThen, hinside] at h
          obtain ⟨call, hcall, hleft⟩ := hmore.failed fault (eq_error_of_map_eq_error h)
          refine ⟨call, ?_, hleft⟩
          rcases List.mem_cons.1 hcall with rfl | hcall
          · exact List.mem_cons_self
          · exact List.mem_cons_of_mem _ (List.mem_append_right _ hcall)

end Lines

namespace Keeps

variable {tree : FileTree} {own : Call} {made : Call → Prop} {before left : Shared}
  {expected expanded : Reported (List FlatLine)} {more : List Call}

/-- A directive that is refused leaves everything as it is. -/
theorem refused {fault : Fault} (hbefore : before.chain = own.chain)
    (hpath : own.stack.getLast? = some fault.path) :
    Keeps own made { outcome := .error fault } before ({ outcome := .error fault }, before) [] := by
  refine ⟨rfl, ?_, (List.append_nil _).symm, by simp, ?_⟩
  · rintro flat ⟨⟩
  · rintro fault ⟨⟩
    exact ⟨own, List.mem_cons_self, hbefore, hpath⟩

/-- A fault is found at one of the calls, if the first of them is counted in. -/
theorem exists_failed {answer : Reported (List FlatLine) × Shared} {fault : Fault}
    (h : Keeps own made expected before answer (own :: more))
    (herror : answer.1.outcome = .error fault) :
    ∃ call ∈ own :: more, answer.2.chain = call.chain ∧ call.stack.getLast? = some fault.path := by
  obtain ⟨call, hcall, hleft⟩ := h.failed fault herror
  refine ⟨call, ?_, hleft⟩
  rcases List.mem_cons.1 hcall with rfl | hcall
  · exact List.mem_cons_self
  · exact hcall

/-- A directive that is followed puts its file on the chain, and takes it off again unless there
is a fault. -/
theorem followed {levels : Nat} {target : Path} {location : Location} {content : List Char}
    (event : Event) (hread : tree.read target = .ok (location, content))
    (hchain : location ∉ own.chain)
    (h : Keeps { stack := own.stack ++ [target], chain := own.chain ++ [location] }
      (Call.Under tree levels { stack := own.stack ++ [target], chain := own.chain ++ [location] })
      expected { before with chain := own.chain ++ [location] } (expanded, left)
      ({ stack := own.stack ++ [target], chain := own.chain ++ [location] } :: more)) :
    Keeps own (Call.Under tree (levels + 1) own)
      { expected with events := event :: expected.events } before
      ({ expanded with events := event :: expanded.events },
        match expanded.outcome with
        | .ok _ => { left with chain := left.chain.dropLast }
        | .error _ => left)
      ({ stack := own.stack ++ [target], chain := own.chain ++ [location] } :: more) := by
  obtain rfl : expanded = expected := h.result
  refine ⟨rfl, fun flat hok => ?_, ?_, fun call hcall => .inner hread hchain (h.made call hcall),
    fun fault herror => ?_⟩
  · dsimp only at hok ⊢
    rw [hok]
    dsimp only
    rw [h.restored flat hok, List.dropLast_concat]
  · have hcalls : left.calls = before.calls ++ _ := h.calls
    cases houtcome : expanded.outcome <;> exact hcalls
  · dsimp only at herror ⊢
    rw [herror]
    obtain ⟨call, hcall, hleft⟩ := h.exists_failed herror
    exact ⟨call, List.mem_cons_of_mem _ hcall, hleft⟩

/-- The call that an expansion begins with is one of its calls. -/
theorem begun {levels : Nat} {answer : Reported (List FlatLine) × Shared}
    (h : Keeps own (Call.Under tree levels own) expected
      { before with calls := before.calls ++ [own] } answer more) :
    Keeps own (Call.Under tree levels own) expected before answer (own :: more) := by
  refine ⟨h.result, h.restored, ?_, List.forall_mem_cons.2 ⟨.refl levels own, h.made⟩,
    fun fault herror => ?_⟩
  · rw [h.calls, List.append_assoc]
    rfl
  · obtain ⟨call, hcall, hleft⟩ := h.failed fault herror
    exact ⟨call, List.mem_cons_of_mem _ hcall, hleft⟩

end Keeps

/-- What is kept at the directives of a file is kept by its expansion. -/
theorem exists_keeps_of_followShared {tree : FileTree} {config : Config} {levels : Nat}
    {own : Call} {path directory : Path}
    {expand? : Option (Path → Path → List Char → Shared → Reported (List FlatLine) × Shared)}
    (hfollow : ∀ line directive before, before.chain = own.chain →
      ∃ more, Keeps own (Call.Under tree levels own)
        (follow tree config levels { path, directory, chain := own.chain } line directive) before
        (followShared tree config path directory expand? line directive before) more)
    (table : LineTable) (before : Shared) (hbefore : before.chain = own.chain) :
    ∃ more, Keeps own (Call.Under tree levels own)
      (expandLines config path table
        (follow tree config levels { path, directory, chain := own.chain }) none table.lines) before
      (expandLinesShared config path table
        (followShared tree config path directory expand?) none table.lines
        { before with calls := before.calls ++ [own] }) (own :: more) := by
  obtain ⟨more, hkeeps⟩ := exists_keeps_of_follow own hfollow none table.lines
    { before with calls := before.calls ++ [own] } hbefore
  exact ⟨more, hkeeps.begun⟩

/-- An expansion with a shared chain answers what one with a chain of its own does. -/
theorem exists_keeps_of_expandShared (tree : FileTree) (config : Config) (levels : Nat)
    (outer : List Path) (path directory : Path) (text : List Char) (before : Shared) :
    ∃ more, Keeps { stack := outer ++ [path], chain := before.chain }
      (Call.Under tree levels { stack := outer ++ [path], chain := before.chain })
      (expand tree config levels { path, directory, chain := before.chain } text) before
      (expandShared tree config levels outer path directory text before)
      ({ stack := outer ++ [path], chain := before.chain } :: more) := by
  -- Every import that is followed takes one level.
  induction levels generalizing outer path directory text before with
  | zero =>
    rw [expand_eq]
    exact exists_keeps_of_followShared
      (fun _ _ _ hshared => ⟨[], .refused hshared List.getLast?_concat⟩) _ before rfl
  | succ levels ih =>
    rw [expand_eq]
    refine exists_keeps_of_followShared (fun line directive shared hshared => ?_) _ before rfl
    unfold follow followShared
    dsimp only at hshared ⊢
    cases hread : tree.read (directive.path config directory) with
    | error reason => exact ⟨[], .refused hshared List.getLast?_concat⟩
    | ok found =>
      obtain ⟨location, content⟩ := found
      dsimp only
      rw [hshared]
      split
      · exact ⟨[], .refused hshared List.getLast?_concat⟩
      next hchain =>
      obtain ⟨more, hinner⟩ := ih (outer ++ [path]) (directive.path config directory)
        ((Path.parent? (directive.path config directory)).getD ['.']) (normalizeNewlines content)
        { shared with chain := before.chain ++ [location] }
      exact ⟨_, hinner.followed _ hread (by simpa using hchain)⟩

/-! ## Runs -/

namespace Importer

/-- Expands a text as `run` does, with the chain of the importer for all the files.  The chain is
cleared behind the text, whether there is a fault or not. -/
def runShared (importer : Importer) (text : List Char) (origin : Path) :
    Importer × Reported (List FlatLine) × Shared :=
  let { tree, config, .. } := importer
  let place := importer.placeOf origin
  ({ importer with chain := [] },
    expandShared tree config config.maxImportDepth [] place.path place.directory
      (normalizeNewlines text) { chain := place.chain })

/-- The path of a text is the one that it is said to come from. -/
@[simp] theorem path_placeOf (importer : Importer) (origin : Path) :
    (importer.placeOf origin).path = origin := by
  unfold placeOf
  split <;> rfl

/-- The beginning of a run. -/
def firstCall (importer : Importer) (origin : Path) : Call where
  stack := [origin]
  chain := (importer.placeOf origin).chain

/-- A run with a shared chain answers what `run` answers. -/
theorem exists_keeps_of_runShared (importer : Importer) (text : List Char) (origin : Path) :
    ∃ more, Keeps (importer.firstCall origin)
      (Call.Under importer.tree importer.config.maxImportDepth (importer.firstCall origin))
      (importer.run text origin).2 { chain := (importer.placeOf origin).chain }
      (importer.runShared text origin).2 (importer.firstCall origin :: more) := by
  obtain ⟨more, h⟩ := exists_keeps_of_expandShared importer.tree importer.config
    importer.config.maxImportDepth [] (importer.placeOf origin).path
    (importer.placeOf origin).directory (normalizeNewlines text)
    { chain := (importer.placeOf origin).chain }
  have hfirst : importer.firstCall origin =
      { stack := [] ++ [(importer.placeOf origin).path]
        chain := (importer.placeOf origin).chain } := by
    rw [path_placeOf]
    rfl
  rw [hfirst]
  exact ⟨more, h⟩

/-- Runs one after the other, each of them with the importer that the one before it leaves. -/
def session {α : Type} (step : Importer → List Char → Path → Importer × α) :
    Importer → List (List Char × Path) → List α
  | _, [] => []
  | importer, (text, origin) :: runs =>
    let (importer, answer) := step importer text origin
    answer :: session step importer runs

/-- If a run leaves the importer as it is, then no run has an effect on another. -/
theorem session_eq_map {α : Type} {step : Importer → List Char → Path → Importer × α}
    {importer : Importer} (hstep : ∀ text origin, (step importer text origin).1 = importer)
    (runs : List (List Char × Path)) :
    session step importer runs = runs.map fun run => (step importer run.1 run.2).2 := by
  induction runs with
  | nil => rfl
  | cons run runs ih =>
    unfold session
    dsimp only
    rw [hstep, ih, List.map_cons]

/-- An importer can be used again: each of its runs answers what a new importer answers, whatever
becomes of the runs before it.  A run without a fault takes off the chain all that it has put
there.  One with a fault leaves there the files that are being expanded at the fault, until the
chain is cleared. -/
theorem session_fresh (tree : FileTree) (config : Config) (runs : List (List Char × Path)) :
    let fresh : Importer := { tree, config }
    session run fresh runs = runs.map (fun run => (fresh.run run.1 run.2).2) ∧
    session runShared fresh runs = runs.map (fun run => (fresh.runShared run.1 run.2).2) ∧
    ∀ text origin,
      let answer := (fresh.run text origin).2
      let shared := (fresh.runShared text origin).2
      shared.1 = answer ∧
      (∀ flat, answer.outcome = .ok flat → shared.2.chain = (fresh.placeOf origin).chain) ∧
      ∀ fault, answer.outcome = .error fault →
        ∃ call ∈ shared.2.calls, shared.2.chain = call.chain ∧
          call.stack.getLast? = some fault.path := by
  intro fresh
  refine ⟨session_eq_map (fun _ _ => rfl) runs, session_eq_map (fun _ _ => rfl) runs, ?_⟩
  intro text origin answer shared
  obtain ⟨more, h⟩ := fresh.exists_keeps_of_runShared text origin
  have hanswer : shared.1 = answer := h.result
  refine ⟨hanswer, fun flat hflat => h.restored flat (hanswer ▸ hflat), fun fault hfault => ?_⟩
  have hcalls : shared.2.calls = fresh.firstCall origin :: more := h.calls
  rw [hcalls]
  exact h.exists_failed (hanswer ▸ hfault)

/-- Without the clearing of the chain a run that fails could spoil one that does not. -/
example :
    let file (name : Char) : Path := [name, '.', '3', 'l', 'm']
    let tree : FileTree :=
      { workingDirectory := []
        entries :=
          [([file 'm'], .text "import a".toList), ([file 'a'], .text "import b".toList),
            ([file 'b'], .text "x".toList)] }
    let importer : Importer := { tree, config := { maxImportDepth := 2 } }
    let flat (importer : Importer) :=
      (importer.run "import a".toList textOrigin).2.outcome.toOption.map flatText
    let left := (importer.runShared "import m".toList textOrigin).2.2
    left.chain = [[file 'm'], [file 'a']] ∧ flat importer = some "x\n".toList ∧
      flat { importer with chain := left.chain } = none := by
  decide +kernel

end Importer

end BlockLexer.Import
