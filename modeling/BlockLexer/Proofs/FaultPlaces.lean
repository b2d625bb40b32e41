import BlockLexer.Proofs.DepthFirst
import BlockLexer.Proofs.Faults

/-!
# The places of faults

A fault of the flat text is taken back to the file that its line came from.  This module says
that it is reported at a place of this file.

* `Lexer.exists_lies_of_tokens` is the fault of a source, in its flat text.
* `Expands.exists_reaches` says which files the lines of a flat text come from, and
  `Source.exists_visit_of_isPlace` takes a place back to its file.
* `exists_visit_of_tokenize` is the fault of a text: it names a file that is expanded, and a
  place in it.  `not_isPlace_of_broken_string` is the exception.
-/

namespace BlockLexer

open Text Files Import

variable {text : List Char}

/-! ## Files -/

namespace Lexer

variable {source : Source} {lexer : Lexer} {fault : Fault}

/-- The fault of a lexer is one of its stream, taken back to where the line came from. -/
theorem next_eq_error {lexer' : Lexer} (h : lexer.next = (lexer', some (.error fault))) :
    ∃ flat, lexer.stream.next lexer.source.table = (lexer'.stream, some (.error flat)) ∧
      fault = lexer.source.locate flat := by
  unfold next at h
  split at h
  · cases (Prod.mk.inj h).2
  · cases (Prod.mk.inj h).2
  · next stream flat hpull =>
    obtain ⟨rfl, hfault⟩ := Prod.mk.inj h
    exact ⟨flat, hpull, (Except.error.inj (Option.some.inj hfault)).symm⟩

/-- The fault of a source lies in its text. -/
theorem exists_lies_of_tokens {tabWidth : Nat}
    (htable : source.table = .ofText tabWidth source.text)
    (h : tokens source = .error fault) :
    ∃ flat : Fault, flat.Lies source.text ∧ fault = source.locate flat := by
  obtain ⟨items, last, end', hrow, hlast⟩ := Stage.yields_of_collect_eq_error h
  obtain ⟨flat, hpull, hfault⟩ := next_eq_error hlast
  obtain ⟨pieces, hrun, -, -⟩ := run_of_yields hrow
  have hsource := (yields_iff.1 hrow).1
  rw [htable] at hrun
  rw [hsource] at hpull hfault
  rw [show (ofSource source).source.table = _ from htable] at hpull
  have hstart : Scan.OnTrack tabWidth source.text (ofSource source).scan :=
    ⟨Scan.onWay_of_start _ rfl rfl rfl rfl, fun activation hmem => by cases hmem⟩
  exact ⟨flat, Stream.lies_of_next (hstart.run hrun) hpull, hfault⟩

end Lexer

section Visits

variable {tree : FileTree} {config : Config} {origin : Path} {fault : Fault}

/-- Every line of an expansion stands in a file that is expanded. -/
theorem Expands.exists_reaches (visit : Visit) {levels passed : Nat} {flat : List FlatLine}
    {spots : List Spot} (hlevels : visit.depth + levels = config.maxImportDepth)
    (hexpand : (expand tree config levels visit.place visit.text).outcome = .ok flat)
    (h : Expands tree config visit.place visit.text passed spots) :
    ∀ spot ∈ spots, ∃ address last, visit.Reaches tree config address last ∧
      last.place.path = spot.path ∧ last.text = spot.text := by
  generalize hplace : visit.place = place at h
  generalize htext : visit.text = file at h
  induction h generalizing visit levels flat with
  | stop => simp
  | kept _ _ _ ih =>
    exact List.forall_mem_cons.2
      ⟨⟨[], visit, .refl visit, congrArg Place.path hplace, htext⟩,
        ih visit hlevels hexpand hplace htext⟩
  | @followed place file content passed directive location inside spots hfollowed hread _ _ _
      ihInside ihMore =>
    subst hplace htext
    intro spot hspot
    rcases List.mem_append.1 hspot with hspot | hspot
    · obtain ⟨own, hown, rfl⟩ := List.mem_map.1 hspot
      obtain ⟨levels', inner, flat', rfl, hfollows, hexpand'⟩ :=
        exists_follows_of_expand hlevels hexpand hfollowed
      have hdepth := hfollows.depth_eq
      obtain ⟨_, hread', _⟩ := id hfollows
      obtain ⟨rfl, rfl⟩ := Prod.mk.inj (Except.ok.inj (hread.symm.trans hread'))
      obtain ⟨address, last, hreaches, hlast⟩ := ihInside _ (by omega) hexpand' rfl rfl own hown
      exact ⟨_, last, .cons hfollowed hfollows hreaches, hlast⟩
    · exact ihMore visit hlevels hexpand rfl rfl spot hspot

/-- A place of a source is one in a file that is expanded. -/
theorem Source.exists_visit_of_isPlace {source : Source}
    (h : (Source.ofText tree config text origin).outcome = .ok source) (flat : Fault)
    (hplace : IsPlace source.text flat.line flat.column) :
    ∃ address visit, (Visit.top tree config text origin).Reaches tree config address visit ∧
      visit.place.path = (source.locate flat).path ∧
      IsPlace visit.text (source.locate flat).line (source.locate flat).column := by
  unfold ofText Importer.run at h
  rw [Reported.outcome_map] at h
  obtain ⟨lines, hlines, rfl⟩ := exists_of_map_eq_ok h
  obtain ⟨spots, hexpands, rfl⟩ := Expands.exists_of_expand hlines
  have hstands := hexpands.stands
  obtain ⟨hpos, -, chars, hchars, hle⟩ := hplace
  rw [Option.mem_def, ofLines, splitLines_flatText hstands, List.getElem?_map,
    Option.map_eq_some_iff] at hchars
  obtain ⟨spot, hspot, rfl⟩ := hchars
  have hmem := List.mem_of_getElem? hspot
  have horigin : (ofLines config origin (spots.map Spot.flatLine)).origin? flat.line =
      some spot.flatLine.origin := by
    unfold origin?
    rw [if_neg (Nat.ne_of_gt hpos), ofLines, List.getElem?_map, List.getElem?_map, hspot]
    rfl
  obtain ⟨blanks, hblanks, hsize, hflat⟩ := exists_blanks_of_stands (hstands spot hmem)
  obtain ⟨hnumber, hget⟩ := (hstands spot hmem).getElem?_splitLines
  rw [hflat, List.length_append] at hle
  rw [byteSize_of_isBlank hblanks] at hsize
  obtain ⟨address, visit, hreaches, hpath, htext⟩ :=
    Expands.exists_reaches (Visit.top tree config text origin) (Nat.zero_add _) hlines hexpands
      spot hmem
  have hlocate : (ofLines config origin (spots.map Spot.flatLine)).locate flat =
      { flat with
        path := spot.path
        line := spot.line.number
        column := max (flat.column - blanks.length) 1 } := by
    rw [hsize, locate, horigin, Spot.origin_flatLine]
  rw [hlocate]
  refine ⟨address, visit, hreaches, hpath, hnumber, Nat.lt_of_lt_of_le Nat.one_pos
    (Nat.le_max_right _ _), spot.line.chars, htext ▸ hget, Nat.max_le.2 ⟨?_, Nat.le_add_left 1 _⟩⟩
  show flat.column - blanks.length ≤ _
  omega

/-- A fault keeps its cause. -/
theorem Source.cause_locate (source : Source) (fault : Fault) :
    (source.locate fault).cause = fault.cause := by
  unfold locate
  split <;> rfl

/-- Where a line comes from does not depend on the column. -/
theorem Source.locate_column (source : Source) (fault : Fault) (column : Nat) :
    (source.locate { fault with column }).path = (source.locate fault).path ∧
      (source.locate { fault with column }).line = (source.locate fault).line := by
  unfold locate
  dsimp only
  split <;> exact ⟨rfl, rfl⟩

theorem Source.column_locate_pos (source : Source) (h : 0 < fault.column) :
    0 < (source.locate fault).column := by
  unfold locate
  split
  · exact h
  · exact Nat.lt_of_lt_of_le Nat.one_pos (Nat.le_max_right _ _)

theorem Fault.IsAtBroken.column_pos (h : fault.IsAtBroken text) : 0 < fault.column := by
  obtain ⟨token, clash, previous, ⟨before, lexeme, after, hplaced, -⟩, rfl⟩ := h
  show 0 < token.span.column
  rw [hplaced.column]
  exact columnBehind_pos before

/-- The keyword of a directive is at a place of its file. -/
theorem Import.Visit.isPlace_fault {visit : Visit} {number : Nat} {directive : Directive}
    (h : visit.directive? config number = some directive) (cause : Cause) :
    IsPlace visit.text (visit.fault number directive cause).line
      (visit.fault number directive cause).column := by
  obtain ⟨line, hline, hdirective⟩ := Option.bind_eq_some_iff.1 h
  obtain ⟨-, hdirective⟩ := Option.ite_none_right_eq_some.1 hdirective
  refine isPlace_of_get? hline (Nat.succ_pos _) (Nat.succ_le_succ ?_)
  unfold Directive.ofLine? at hdirective
  split at hdirective
  · obtain rfl := Option.some.inj hdirective
    exact (List.takeWhile_prefix _).length_le
  · cases hdirective

/-- The fault of a text names a file that is expanded, a line of it, and a column on this line,
unless it is that of a string in single quotes that runs over the end of a line: then the
column is that of the beginning of the string, on another line. -/
theorem exists_visit_of_tokenize (h : tokenize tree config text origin = .error fault) :
    ∃ address visit, (Visit.top tree config text origin).Reaches tree config address visit ∧
      visit.place.path = fault.path ∧ IsPlace visit.text fault.line 1 ∧ 0 < fault.column ∧
      (IsPlace visit.text fault.line fault.column ∨
        ∃ source flat, (Source.ofText tree config text origin).outcome = .ok source ∧
          flat.IsAtBroken source.text ∧ fault = source.locate flat) := by
  have ofPlace {visit : Visit} (hplace : IsPlace visit.text fault.line fault.column) :
      IsPlace visit.text fault.line 1 ∧ 0 < fault.column ∧
        (IsPlace visit.text fault.line fault.column ∨
          ∃ source flat, (Source.ofText tree config text origin).outcome = .ok source ∧
            flat.IsAtBroken source.text ∧ fault = source.locate flat) :=
    ⟨hplace.first, hplace.2.1, .inl hplace⟩
  rcases error_or_of_bind_eq_error h with hsource | ⟨source, hsource, htokens⟩
  · -- An import that is refused.
    have hrun : (Importer.run { tree, config } text origin).2.outcome = .error fault := by
      unfold Source.ofText at hsource
      rw [Reported.outcome_map] at hsource
      exact eq_error_of_map_eq_error hsource
    obtain ⟨address, visit, number, directive, cause, hfirst, rfl⟩ :=
      exists_isFirstRefused_of_expand (Visit.top tree config text origin) (Nat.zero_add _) hrun
    exact ⟨address, visit, hfirst.reaches, rfl, ofPlace (Visit.isPlace_fault hfirst.stands cause)⟩
  obtain ⟨flat, hlies, rfl⟩ := Lexer.exists_lies_of_tokens (Source.table_of_ofText hsource)
    htokens
  rcases hlies with hplace | ⟨hline, hbroken⟩
  · obtain ⟨address, visit, hreaches, hpath, hplace⟩ :=
      Source.exists_visit_of_isPlace hsource flat hplace
    exact ⟨address, visit, hreaches, hpath, ofPlace hplace⟩
  · -- Where the line comes from does not depend on the column.
    obtain ⟨address, visit, hreaches, hpath, hplace⟩ :=
      Source.exists_visit_of_isPlace hsource { flat with column := 1 } hline
    obtain ⟨hpath', hline'⟩ := source.locate_column flat 1
    rw [hline'] at hplace
    exact ⟨address, visit, hreaches, hpath.trans hpath', hplace.first,
      source.column_locate_pos hbroken.column_pos, .inr ⟨source, flat, hsource, hbroken, rfl⟩⟩

/-- A clash in a file that is imported behind a tab. -/
theorem exists_visit_of_clash_in_imported_file :
    let tree : FileTree :=
      { workingDirectory := []
        entries := [([['b', '.', '3', 'l', 'm']], .text "x = 1 2".toList)] }
    let text := "A\n\timport b\nend\n".toList
    ∃ fault, tokenize tree {} text textOrigin = .error fault ∧
      fault.path = "./b.3lm".toList ∧ fault.line = 1 ∧ fault.column = 7 ∧
      ∃ address visit, (Visit.top tree {} text textOrigin).Reaches tree {} address visit ∧
        visit.place.path = fault.path ∧ IsPlace visit.text fault.line 1 ∧ 0 < fault.column ∧
        (IsPlace visit.text fault.line fault.column ∨
          ∃ source flat, (Source.ofText tree {} text textOrigin).outcome = .ok source ∧
            flat.IsAtBroken source.text ∧ fault = source.locate flat) := by
  intro tree text
  have hrun : (tokenize tree {} text textOrigin).map List.length = .error
      { cause := .adjacency .literals .integer .integer, line := 1, column := 7,
        path := "./b.3lm".toList } := by
    decide +kernel
  have hfault := eq_error_of_map_eq_error hrun
  exact ⟨_, hfault, rfl, rfl, rfl, exists_visit_of_tokenize hfault⟩

/-- The fault at a string that runs over the end of a line may be at no place of the text:
here it is in column 29 of a line of two characters. -/
theorem not_isPlace_of_broken_string :
    let text := "A\n  x = 1                     \"a\\\nb\"\nend\n".toList
    ∃ fault, tokenize ⟨[], []⟩ {} text textOrigin = .error fault ∧ fault.path = textOrigin ∧
      ∀ address visit, (Visit.top ⟨[], []⟩ {} text textOrigin).Reaches ⟨[], []⟩ {} address visit →
        visit.place.path = fault.path → ¬ IsPlace visit.text fault.line fault.column := by
  intro text
  have hrun : (tokenize ⟨[], []⟩ {} text textOrigin).map List.length = .error
      { cause := .adjacency .literals .integer .string, line := 3, column := 29 } := by
    decide +kernel
  refine ⟨_, eq_error_of_map_eq_error hrun, rfl, fun address visit hreaches _ => ?_⟩
  cases hreaches with
  | refl => decide +kernel
  | cons hdirective =>
    have hnone : ∀ line ∈ (LineTable.ofText 4 (normalizeNewlines text)).lines,
        Directive.ofLine? line.chars = none := by decide +kernel
    obtain ⟨line, hline, hsome⟩ := Option.bind_eq_some_iff.1 hdirective
    have hmem := List.mem_of_getElem? (Option.ite_none_left_eq_some.1 hline).2
    cases (hnone line hmem).symm.trans (Option.ite_none_right_eq_some.1 hsome).2

end Visits

end BlockLexer
