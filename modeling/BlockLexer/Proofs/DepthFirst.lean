import BlockLexer.Proofs.Expansion
import Mathlib.Data.List.Lex

/-!
# The order of an expansion

An expansion comes to the directives of a text one after the other: to those of a file from
top to bottom, and to those of the file that a directive leads to before the next one.  It
stops at the first directive that it refuses.

* `Import.Visit` is a file that is being expanded, and `Import.Visit.Follows` and
  `Import.Visit.Refuses` say what becomes of a directive in it.
* `Import.Visit.Reaches` gives an address to every file that is expanded: the lines of the
  directives that lead to it.  With the line of a directive behind it, the address of its
  file is the address of the directive, and a walk depth first is the lexicographic order.
* `Import.Visit.IsFirstRefused` is the directive that an expansion stops at, and
  `Import.Importer.outcome_run` says that an expansion fails there and nowhere else.
-/

namespace BlockLexer

open Text Files

namespace Import

/-! ## Files and directives -/

/-- A file that is being expanded. -/
structure Visit where
  /-- How many directives lead to it. -/
  depth : Nat
  place : Place
  /-- Its text, with its line ends normal. -/
  text : List Char

namespace Visit

/-- The directive on a line of a file that an import is followed for, if there is one. -/
def directive? (config : Config) (visit : Visit) (number : Nat) : Option Directive :=
  (LineTable.ofText config.tabWidth visit.text).followed? config number

/-- The path that a directive of a file leads to. -/
def target (config : Config) (visit : Visit) (directive : Directive) : Path :=
  directive.path config visit.place.directory

/-- A directive is followed into a file that can be read and is not being expanded. -/
inductive Follows (tree : FileTree) (config : Config) (visit : Visit) (directive : Directive) :
    Visit → Prop
  | intro {location : Location} {content : List Char} (hdepth : visit.depth < config.maxImportDepth)
      (hread : tree.read (visit.target config directive) = .ok (location, content))
      (hchain : location ∉ visit.place.chain) :
      Follows tree config visit directive
        { depth := visit.depth + 1
          place := visit.place.inner (visit.target config directive) location
          text := normalizeNewlines content }

/-- Why a directive is not followed.  Each reason excludes the ones in front of it. -/
inductive Refuses (tree : FileTree) (config : Config) (visit : Visit) (directive : Directive) :
    Cause → Prop
  | tooDeep (hdepth : config.maxImportDepth ≤ visit.depth) :
      Refuses tree config visit directive (.importsTooDeep config.maxImportDepth)
  | unreadable {reason : FileError} (hdepth : visit.depth < config.maxImportDepth)
      (hread : tree.read (visit.target config directive) = .error reason) :
      Refuses tree config visit directive
        (.unreadableImport (visit.target config directive) reason)
  | circular {location : Location} {content : List Char}
      (hdepth : visit.depth < config.maxImportDepth)
      (hread : tree.read (visit.target config directive) = .ok (location, content))
      (hchain : location ∈ visit.place.chain) :
      Refuses tree config visit directive (.circularImport (visit.target config directive))

/-- The fault of a directive, in its file and at its keyword. -/
def fault (visit : Visit) (number : Nat) (directive : Directive) (cause : Cause) : Fault where
  cause := cause
  line := number
  column := directive.indentation.length + 1
  path := visit.place.path

/-- The files that are expanded for a file, each with its address: the lines of the
directives that lead to it. -/
inductive Reaches (tree : FileTree) (config : Config) : Visit → List Nat → Visit → Prop
  | refl (visit : Visit) : Reaches tree config visit [] visit
  | cons {visit inner last : Visit} {number : Nat} {address : List Nat} {directive : Directive}
      (hdirective : visit.directive? config number = some directive)
      (hfollows : visit.Follows tree config directive inner)
      (hmore : Reaches tree config inner address last) :
      Reaches tree config visit (number :: address) last

/-- The first directive that is refused, depth first and from top to bottom. -/
structure IsFirstRefused (tree : FileTree) (config : Config) (top : Visit) (address : List Nat)
    (visit : Visit) (number : Nat) (directive : Directive) (cause : Cause) : Prop where
  reaches : top.Reaches tree config address visit
  stands : visit.directive? config number = some directive
  refuses : visit.Refuses tree config directive cause
  first : ∀ address' visit' number' directive' cause', top.Reaches tree config address' visit' →
    visit'.directive? config number' = some directive' →
    visit'.Refuses tree config directive' cause' →
    ¬ address' ++ [number'] < address ++ [number]

variable {tree : FileTree} {config : Config} {visit inner inner' last last' : Visit} {number : Nat}
  {address : List Nat} {directive : Directive} {cause cause' : Cause} {location : Location}

/-! ## What becomes of a directive -/

/-- A directive is followed into one file only. -/
theorem Follows.unique (h : visit.Follows tree config directive inner)
    (h' : visit.Follows tree config directive inner') : inner' = inner := by
  obtain ⟨-, hread, -⟩ := h
  obtain ⟨-, hread', -⟩ := h'
  obtain ⟨rfl, rfl⟩ := Prod.mk.inj (Except.ok.inj (hread.symm.trans hread'))
  rfl

/-- A directive that is followed is not refused. -/
theorem Follows.not_refuses (h : visit.Follows tree config directive inner) :
    ¬ visit.Refuses tree config directive cause := by
  obtain ⟨hdepth, hread, hchain⟩ := h
  intro hrefuses
  cases hrefuses with
  | tooDeep hdepth' => omega
  | unreadable _ hread' => cases hread.symm.trans hread'
  | circular _ hread' hchain' =>
    obtain ⟨rfl, -⟩ := Prod.mk.inj (Except.ok.inj (hread.symm.trans hread'))
    exact hchain hchain'

/-- A directive is refused for one reason only. -/
theorem Refuses.unique (h : visit.Refuses tree config directive cause)
    (h' : visit.Refuses tree config directive cause') : cause' = cause := by
  cases h with
  | tooDeep hdepth =>
    cases h' with
    | tooDeep => rfl
    | unreadable hdepth' | circular hdepth' => omega
  | unreadable hdepth hread =>
    cases h' with
    | tooDeep hdepth' => omega
    | unreadable _ hread' => rw [Except.error.inj (hread.symm.trans hread')]
    | circular _ hread' => cases hread.symm.trans hread'
  | circular hdepth hread =>
    cases h' with
    | tooDeep hdepth' => omega
    | unreadable _ hread' => cases hread.symm.trans hread'
    | circular => rfl

/-! ## Addresses -/

/-- An address leads to one file only. -/
theorem Reaches.unique (h : visit.Reaches tree config address last)
    (h' : visit.Reaches tree config address last') : last' = last := by
  induction h with
  | refl => cases h' with | refl => rfl
  | cons hdirective hfollows _ ih =>
    cases h' with
    | cons hdirective' hfollows' hmore' =>
      obtain rfl := Option.some.inj (hdirective.symm.trans hdirective')
      obtain rfl := hfollows.unique hfollows'
      exact ih hmore'

/-- The way to a file goes on from any file on it. -/
theorem Reaches.of_append {before after : List Nat} {passed : Visit}
    (hbefore : visit.Reaches tree config before passed)
    (h : visit.Reaches tree config (before ++ after) last) :
    passed.Reaches tree config after last := by
  induction hbefore with
  | refl => exact h
  | cons hdirective hfollows _ ih =>
    cases h with
    | cons hdirective' hfollows' hmore' =>
      obtain rfl := Option.some.inj (hdirective.symm.trans hdirective')
      obtain rfl := hfollows.unique hfollows'
      exact ih hmore'

/-- A file that is being expanded is so until all files in it are. -/
theorem Reaches.chain_subset (h : visit.Reaches tree config address last) :
    visit.place.chain ⊆ last.place.chain := by
  induction h with
  | refl => exact List.Subset.refl _
  | cons _ hfollows _ ih =>
    obtain ⟨-, -, -⟩ := hfollows
    exact List.Subset.trans (List.subset_append_left _ _) ih

/-- The files that are being expanded together with a file are those that were being
expanded at first and those that lie on the way to it. -/
theorem Reaches.mem_chain_iff (h : visit.Reaches tree config address last) :
    location ∈ last.place.chain ↔
      location ∈ visit.place.chain ∨ ∃ before after passed, address = before ++ after ∧
        before ≠ [] ∧ visit.Reaches tree config before passed ∧
        passed.place.chain.getLast? = some location := by
  constructor
  · intro hmem
    induction h with
    | refl => exact .inl hmem
    | @cons visit inner last number address directive hdirective hfollows hmore ih =>
      rcases ih hmem with hinner | ⟨before, after, passed, rfl, -, hbefore, hlast⟩
      · obtain ⟨hdepth, hread, hchain⟩ := hfollows
        rcases List.mem_append.1 hinner with hvisit | hown
        · exact .inl hvisit
        · obtain rfl := List.mem_singleton.1 hown
          exact .inr ⟨[number], address, _, rfl, List.cons_ne_nil _ _,
            .cons hdirective (.intro hdepth hread hchain) (.refl _), List.getLast?_concat⟩
      · exact .inr ⟨number :: before, after, passed, rfl, List.cons_ne_nil _ _,
          .cons hdirective hfollows hbefore, hlast⟩
  · rintro (hvisit | ⟨before, after, passed, rfl, -, hbefore, hlast⟩)
    · exact h.chain_subset hvisit
    · exact (hbefore.of_append h).chain_subset (List.mem_of_getLast? hlast)

/-- There is one first directive at most. -/
theorem IsFirstRefused.fault_unique {top visit' : Visit} {address' : List Nat} {number' : Nat}
    {directive' : Directive}
    (h : IsFirstRefused tree config top address visit number directive cause)
    (h' : IsFirstRefused tree config top address' visit' number' directive' cause') :
    visit'.fault number' directive' cause' = visit.fault number directive cause := by
  have hsame : address' ++ [number'] = address ++ [number] :=
    le_antisymm (not_lt.1 (h'.first _ _ _ _ _ h.reaches h.stands h.refuses))
      (not_lt.1 (h.first _ _ _ _ _ h'.reaches h'.stands h'.refuses))
  obtain ⟨rfl, hnumber⟩ := List.append_inj' hsame rfl
  obtain rfl : number' = number := by simpa using hnumber
  obtain rfl := h.reaches.unique h'.reaches
  obtain rfl := Option.some.inj (h.stands.symm.trans h'.stands)
  rw [h.refuses.unique h'.refuses]

end Visit

/-! ## The walk over one file -/

section Lines

variable {config : Config} {path : Path} {table : LineTable} {passed : Nat}
  {follow : Line → Directive → Reported (List FlatLine)} {flat : List FlatLine} {fault : Fault}

/-- Where a walk over the lines of a file succeeds, every directive on its way does. -/
theorem follow_of_expandLines (passed : Nat)
    (h : (expandLines config path table follow (table.memoryBehind passed)
      (table.lines.drop passed)).outcome = .ok flat)
    {number : Nat} {line : Line} {directive : Directive} (hnumber : passed < number)
    (hline : table.get? number = some line)
    (hdirective : table.followed? config number = some directive) :
    ∃ inner, (follow line directive).outcome = .ok inner := by
  induction hlines : table.lines.drop passed generalizing passed flat with
  | nil =>
    have hsize : number ≤ table.size := LineTable.le_size_of_get? hline
    have hlength : table.lines.length ≤ passed := List.drop_eq_nil_iff.1 hlines
    exact absurd (hsize.trans hlength) (by omega)
  | cons first lines ih =>
    obtain ⟨hfirst, hdrop⟩ := LineTable.get?_of_drop hlines
    rw [hlines, expandLines_cons _ _ _ hfirst, ← hdrop] at h
    rcases Nat.eq_or_lt_of_le (Nat.succ_le_of_lt hnumber) with rfl | hlater
    · rw [hdirective] at h
      dsimp only at h
      rw [Reported.outcome_andThen] at h
      obtain ⟨inner, hinner, -⟩ := exists_of_bind_eq_ok h
      obtain rfl := Option.some.inj (hfirst.symm.trans hline)
      exact ⟨inner, hinner⟩
    · cases hfollowed : table.followed? config (passed + 1) with
      | none =>
        rw [hfollowed] at h
        obtain ⟨more, hmore, -⟩ := exists_of_map_eq_ok h
        exact ih _ hmore hlater hdrop
      | some other =>
        rw [hfollowed] at h
        dsimp only at h
        rw [Reported.outcome_andThen] at h
        obtain ⟨inner, -, hrest⟩ := exists_of_bind_eq_ok h
        obtain ⟨more, hmore, -⟩ := exists_of_map_eq_ok hrest
        exact ih _ hmore hlater hdrop

/-- The first directive behind some lines that fails. -/
structure FailsFirst (config : Config) (table : LineTable)
    (follow : Line → Directive → Reported (List FlatLine)) (passed : Nat) (fault : Fault)
    (number : Nat) (line : Line) (directive : Directive) : Prop where
  behind : passed < number
  found : table.get? number = some line
  followed : table.followed? config number = some directive
  fails : (follow line directive).outcome = .error fault
  first : ∀ number' line' directive', passed < number' → number' < number →
    table.get? number' = some line' → table.followed? config number' = some directive' →
    ∃ inner, (follow line' directive').outcome = .ok inner

/-- Where a walk over the lines of a file fails, the first directive that fails is the
cause. -/
theorem exists_failsFirst_of_expandLines (passed : Nat)
    (h : (expandLines config path table follow (table.memoryBehind passed)
      (table.lines.drop passed)).outcome = .error fault) :
    ∃ number line directive,
      FailsFirst config table follow passed fault number line directive := by
  induction hlines : table.lines.drop passed generalizing passed with
  | nil =>
    rw [hlines] at h
    cases h
  | cons here lines ih =>
    obtain ⟨hhere, hdrop⟩ := LineTable.get?_of_drop hlines
    rw [hlines, expandLines_cons _ _ _ hhere, ← hdrop] at h
    -- A failure further down counts if the first line is no cause of one.
    have further (hmore : (expandLines config path table follow (table.memoryBehind (passed + 1))
          (table.lines.drop (passed + 1))).outcome = .error fault)
        (hsucceeds : ∀ directive, table.followed? config (passed + 1) = some directive →
          ∃ inner, (follow here directive).outcome = .ok inner) :
        ∃ number line directive,
          FailsFirst config table follow passed fault number line directive := by
      obtain ⟨number, line, directive, hfails⟩ := ih _ hmore hdrop
      refine ⟨number, line, directive, Nat.lt_of_succ_lt hfails.behind, hfails.found,
        hfails.followed, hfails.fails, fun number' line' directive' hlower hupper hline' hnext => ?_⟩
      rcases Nat.eq_or_lt_of_le (Nat.succ_le_of_lt hlower) with rfl | hlater
      · obtain rfl := Option.some.inj (hhere.symm.trans hline')
        exact hsucceeds directive' hnext
      · exact hfails.first number' line' directive' hlater hupper hline' hnext
    cases hfollowed : table.followed? config (passed + 1) with
    | none =>
      rw [hfollowed] at h
      refine further (eq_error_of_map_eq_error h) fun directive hdirective => ?_
      cases hfollowed.symm.trans hdirective
    | some directive =>
      rw [hfollowed] at h
      dsimp only at h
      rw [Reported.outcome_andThen] at h
      rcases error_or_of_bind_eq_error h with hfault | ⟨inner, hinner, hrest⟩
      · exact ⟨passed + 1, here, directive, Nat.lt_succ_self passed, hhere, hfollowed, hfault,
          fun number' _ _ hlower hupper => by omega⟩
      · refine further (eq_error_of_map_eq_error hrest) fun other hother => ?_
        obtain rfl := Option.some.inj (hfollowed.symm.trans hother)
        exact ⟨inner, hinner⟩

end Lines

/-! ## The walk over all files -/

section Files

variable {tree : FileTree} {config : Config} {visit last : Visit} {levels number : Nat}
  {line : Line} {directive : Directive} {cause : Cause} {address : List Nat}
  {flat : List FlatLine} {fault : Fault}

/-- A directive that succeeds is followed, and its file can be expanded. -/
theorem exists_follows_of_follow (hlevels : visit.depth + levels = config.maxImportDepth)
    (h : (follow tree config levels visit.place line directive).outcome = .ok flat) :
    ∃ levels' inner, levels = levels' + 1 ∧ visit.Follows tree config directive inner ∧
      (expand tree config levels' inner.place inner.text).outcome = .ok flat := by
  obtain ⟨levels', location, content, rfl, hread, hchain, hexpand⟩ := exists_of_follow h
  exact ⟨levels', _, rfl, .intro (by omega) hread hchain, hexpand⟩

/-- A directive that fails is refused, or it is followed and its file cannot be expanded. -/
theorem refuses_or_follows_of_follow (hlevels : visit.depth + levels = config.maxImportDepth)
    (h : (follow tree config levels visit.place line directive).outcome = .error fault) :
    (∃ cause, visit.Refuses tree config directive cause ∧
      fault = visit.fault line.number directive cause) ∨
    ∃ levels' inner, levels = levels' + 1 ∧ visit.Follows tree config directive inner ∧
      (expand tree config levels' inner.place inner.text).outcome = .error fault := by
  unfold follow at h
  split at h
  · exact .inl ⟨_, .tooDeep (by omega), (Except.error.inj h).symm⟩
  next levels =>
  have hdepth : visit.depth < config.maxImportDepth := by omega
  dsimp only at h
  split at h
  · next reason hread => exact .inl ⟨_, .unreadable hdepth hread, (Except.error.inj h).symm⟩
  next location content hread =>
  split at h
  · next hchain =>
    exact .inl ⟨_, .circular hdepth hread (by simpa using hchain), (Except.error.inj h).symm⟩
  · next hchain =>
    exact .inr ⟨levels, _, rfl, .intro hdepth hread (by simpa using hchain), h⟩

/-- Where an expansion succeeds, every directive of the file is followed. -/
theorem exists_follows_of_expand (hlevels : visit.depth + levels = config.maxImportDepth)
    (h : (expand tree config levels visit.place visit.text).outcome = .ok flat)
    (hdirective : visit.directive? config number = some directive) :
    ∃ levels' inner flat', levels = levels' + 1 ∧ visit.Follows tree config directive inner ∧
      (expand tree config levels' inner.place inner.text).outcome = .ok flat' := by
  rw [expand_eq] at h
  obtain ⟨line, hline, -⟩ := Option.bind_eq_some_iff.1 hdirective
  obtain ⟨flat', hfollow⟩ := follow_of_expandLines 0 h (LineTable.pos_of_get? hline) hline
    hdirective
  obtain ⟨levels', inner, hsucc, hfollows, hexpand⟩ := exists_follows_of_follow hlevels hfollow
  exact ⟨levels', inner, flat', hsucc, hfollows, hexpand⟩

theorem Visit.Follows.depth_eq {inner : Visit} (h : visit.Follows tree config directive inner) :
    inner.depth = visit.depth + 1 := by
  cases h
  rfl

/-- Where an expansion succeeds, no directive is refused, however deep it is nested. -/
theorem not_refuses_of_expand (hlevels : visit.depth + levels = config.maxImportDepth)
    (h : (expand tree config levels visit.place visit.text).outcome = .ok flat)
    (hreaches : visit.Reaches tree config address last)
    (hdirective : last.directive? config number = some directive) :
    ¬ last.Refuses tree config directive cause := by
  induction hreaches generalizing levels flat with
  | refl visit =>
    obtain ⟨_, _, _, _, hfollows, _⟩ := exists_follows_of_expand hlevels h hdirective
    exact hfollows.not_refuses
  | cons hnext hfollows _ ih =>
    obtain ⟨levels', inner, flat', rfl, hfollows', hexpand⟩ :=
      exists_follows_of_expand hlevels h hnext
    obtain rfl := hfollows.unique hfollows'
    have hdepth := hfollows.depth_eq
    exact ih (by omega) hexpand hdirective

/-- What is refused in front of the first directive of a file that fails, or at it, is this
directive itself, or stands in the file that it leads to. -/
theorem refuses_or_reaches_of_lt {line : Line} {tail : List Nat} {number' : Nat}
    {directive' : Directive} (hlevels : visit.depth + levels = config.maxImportDepth)
    (hfails : FailsFirst config (.ofText config.tabWidth visit.text)
      (follow tree config levels visit.place) 0 fault number line directive)
    (hreaches : visit.Reaches tree config address last)
    (hdirective : last.directive? config number' = some directive')
    (hrefuses : last.Refuses tree config directive' cause)
    (hlt : address ++ [number'] < number :: tail) :
    (visit.Refuses tree config directive cause ∧ [] < tail) ∨
    ∃ inner below, visit.Follows tree config directive inner ∧
      inner.Reaches tree config below last ∧ below ++ [number'] < tail := by
  -- The directives further up succeed.
  have succeeds {number' : Nat} {directive' : Directive}
      (hnext : visit.directive? config number' = some directive') (hlt : number' < number) :
      ∃ levels' inner flat, levels = levels' + 1 ∧ visit.Follows tree config directive' inner ∧
        (expand tree config levels' inner.place inner.text).outcome = .ok flat := by
    obtain ⟨line', hline', -⟩ := Option.bind_eq_some_iff.1 hnext
    obtain ⟨flat, hfollow⟩ :=
      hfails.first number' line' directive' (LineTable.pos_of_get? hline') hlt hline' hnext
    obtain ⟨levels', inner, hsucc, hfollows, hexpand⟩ := exists_follows_of_follow hlevels hfollow
    exact ⟨levels', inner, flat, hsucc, hfollows, hexpand⟩
  cases hreaches with
  | refl =>
    rw [List.nil_append, List.cons_lt_cons_iff] at hlt
    rcases hlt with hlt | ⟨rfl, htail⟩
    · obtain ⟨_, _, _, _, hfollows, _⟩ := succeeds hdirective hlt
      exact absurd hrefuses hfollows.not_refuses
    · obtain rfl := Option.some.inj (hfails.followed.symm.trans hdirective)
      exact .inl ⟨hrefuses, htail⟩
  | @cons _ inner _ head below _ hnext hfollows hmore =>
    rw [List.cons_append, List.cons_lt_cons_iff] at hlt
    rcases hlt with hlt | ⟨rfl, htail⟩
    · obtain ⟨levels', inner', flat, rfl, hfollows', hexpand⟩ := succeeds hnext hlt
      obtain rfl := hfollows.unique hfollows'
      have hdepth := hfollows.depth_eq
      exact absurd hrefuses (not_refuses_of_expand (by omega) hexpand hmore hdirective)
    · obtain rfl := Option.some.inj (hfails.followed.symm.trans hnext)
      exact .inr ⟨inner, below, hfollows, hmore, htail⟩

/-- Where an expansion fails, the first directive that is refused is the cause. -/
theorem exists_isFirstRefused_of_expand (visit : Visit)
    (hlevels : visit.depth + levels = config.maxImportDepth)
    (h : (expand tree config levels visit.place visit.text).outcome = .error fault) :
    ∃ address last number directive cause,
      visit.IsFirstRefused tree config address last number directive cause ∧
      fault = last.fault number directive cause := by
  -- Every directive that is followed takes one level.
  induction levels using Nat.strong_induction_on generalizing visit with
  | h levels ih =>
    rw [expand_eq] at h
    obtain ⟨number, line, directive, hfails⟩ := exists_failsFirst_of_expandLines 0 h
    have hnumber : line.number = number :=
      LineTable.numbered_ofText _ _ _ _ hfails.found
    rcases refuses_or_follows_of_follow hlevels hfails.fails with
      ⟨cause, hrefuses, hfault⟩ | ⟨levels', inner, rfl, hfollows, hexpand⟩
    · refine ⟨[], visit, number, directive, cause,
        ⟨.refl visit, hfails.followed, hrefuses, ?_⟩, hnumber ▸ hfault⟩
      intro address' visit' number' directive' cause' hreaches' hstands' hrefuses' hlt
      rcases refuses_or_reaches_of_lt hlevels hfails hreaches' hstands' hrefuses' hlt with
        ⟨_, hnil⟩ | ⟨_, _, _, _, hnil⟩
      · exact List.not_lt_nil _ hnil
      · exact List.not_lt_nil _ hnil
    · have hdepth := hfollows.depth_eq
      obtain ⟨address, last, number₁, directive₁, cause, hfirst, hfault⟩ :=
        ih levels' (Nat.lt_succ_self levels') inner (by omega) hexpand
      refine ⟨number :: address, last, number₁, directive₁, cause,
        ⟨.cons hfails.followed hfollows hfirst.reaches, hfirst.stands, hfirst.refuses, ?_⟩, hfault⟩
      intro address' visit' number' directive' cause' hreaches' hstands' hrefuses' hlt
      rcases refuses_or_reaches_of_lt hlevels hfails hreaches' hstands' hrefuses' hlt with
        ⟨hown, -⟩ | ⟨inner', below, hfollows', hbelow, hlt'⟩
      · exact hfollows.not_refuses hown
      · obtain rfl := hfollows.unique hfollows'
        exact hfirst.first _ _ _ _ _ hbelow hstands' hrefuses' hlt'

end Files

/-! ## The expansion of a text -/

/-- The text itself, in front of all directives. -/
def Visit.top (tree : FileTree) (config : Config) (text : List Char) (origin : Path) : Visit where
  depth := 0
  place := Importer.placeOf { tree, config } origin
  text := normalizeNewlines text

/-- Ahead of all directives only the file that the text comes from is being expanded. -/
theorem mem_chain_top_iff {tree : FileTree} {config : Config} {text : List Char} {origin : Path}
    {location : Location} :
    location ∈ (Visit.top tree config text origin).place.chain ↔
      origin ≠ textOrigin ∧ tree.locate origin = .ok location := by
  change location ∈ (Importer.placeOf { tree, config } origin).chain ↔ _
  unfold Importer.placeOf
  by_cases htext : origin = textOrigin
  · simp [htext]
  · cases hlocate : tree.locate origin with
    | ok own => simp [htext, eq_comm]
    | error reason => simp [htext]

/-- A text can be expanded if and only if no directive that is come to is refused, and
otherwise the fault is that of the first one, depth first and from top to bottom.  The files
that are being expanded at a directive are the one that the text comes from, if there is such
a file, and those on the way to the directive.  So there may be several imports of one file as
long as none of them is on the way to another. -/
theorem Importer.outcome_run (tree : FileTree) (config : Config) (text : List Char)
    (origin : Path) :
    let outcome := (Importer.run { tree, config } text origin).2.outcome
    let top := Visit.top tree config text origin
    ((∃ flat, outcome = .ok flat) ↔
      ∀ address visit number directive cause, top.Reaches tree config address visit →
        visit.directive? config number = some directive →
        ¬ visit.Refuses tree config directive cause) ∧
    (∀ fault, outcome = .error fault ↔
      ∃ address visit number directive cause,
        top.IsFirstRefused tree config address visit number directive cause ∧
        fault = visit.fault number directive cause) ∧
    ∀ address visit location, top.Reaches tree config address visit →
      (location ∈ visit.place.chain ↔
        (origin ≠ textOrigin ∧ tree.locate origin = .ok location) ∨
        ∃ before after passed, address = before ++ after ∧ before ≠ [] ∧
          top.Reaches tree config before passed ∧
          passed.place.chain.getLast? = some location) := by
  intro outcome top
  have hlevels : top.depth + config.maxImportDepth = config.maxImportDepth := Nat.zero_add _
  have hok {flat : List FlatLine} (h : outcome = .ok flat) (address : List Nat) (visit : Visit)
      (number : Nat) (directive : Directive) (cause : Cause)
      (hreaches : top.Reaches tree config address visit)
      (hstands : visit.directive? config number = some directive) :
      ¬ visit.Refuses tree config directive cause :=
    not_refuses_of_expand hlevels h hreaches hstands
  have herror {fault : Fault} (h : outcome = .error fault) :=
    exists_isFirstRefused_of_expand _ hlevels h
  refine ⟨⟨fun ⟨_, h⟩ => hok h, fun hnone => ?_⟩, fun fault => ⟨herror, ?_⟩, ?_⟩
  · cases h : outcome with
    | ok flat => exact ⟨flat, rfl⟩
    | error fault =>
      obtain ⟨address, visit, number, directive, cause, hfirst, -⟩ := herror h
      exact absurd hfirst.refuses
        (hnone address visit number directive cause hfirst.reaches hfirst.stands)
  · rintro ⟨address, visit, number, directive, cause, hfirst, rfl⟩
    cases h : outcome with
    | ok flat =>
      exact absurd hfirst.refuses
        (hok h address visit number directive cause hfirst.reaches hfirst.stands)
    | error fault =>
      obtain ⟨_, _, _, _, _, hfirst', rfl⟩ := herror h
      rw [hfirst'.fault_unique hfirst]
  · intro address visit location hreaches
    rw [hreaches.mem_chain_iff, mem_chain_top_iff]

/-- A file that is imported on two branches. -/
example :
    let tree : FileTree :=
      { workingDirectory := []
        entries :=
          [([['a', '.', '3', 'l', 'm']], .text "import c".toList),
            ([['b', '.', '3', 'l', 'm']], .text "import c".toList),
            ([['c', '.', '3', 'l', 'm']], .text "x".toList)] }
    ((Importer.run { tree, config := {} } "import a\nimport b".toList textOrigin).2.outcome.map
      flatText).toOption = some "x\nx\n".toList := by decide +kernel

end Import

end BlockLexer
