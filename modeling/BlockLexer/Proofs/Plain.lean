import BlockLexer.Proofs.Newlines
import BlockLexer.Proofs.Pulls
import BlockLexer.Proofs.Table

/-!
# Texts without imports

A text whose lines are plain, with no directive among them, is its own source:
`Source.exists_of_plain` says that neither the line ends nor the expansion of imports
change it, whatever the files and the settings are.
-/

namespace BlockLexer

open Text Files Import

/-- A line without line ends that is no directive. -/
structure IsPlain (line : List Char) : Prop where
  lineFeed : '\n' ∉ line
  carriageReturn : '\r' ∉ line
  directive : Directive.ofLine? line = none

namespace Import

/-- Where no line is a directive, all lines stay. -/
theorem outcome_expandLines {config : Config} {path : Path} {table : LineTable}
    {follow : Line → Directive → Reported (List FlatLine)} {memory : BodyMemory} {lines : List Line}
    (h : ∀ line ∈ lines, Directive.ofLine? line.chars = none) :
    ∃ flat, (expandLines config path table follow memory lines).outcome = .ok flat ∧
      flat.map FlatLine.chars = lines.map Line.chars := by
  induction lines generalizing memory with
  | nil => exact ⟨[], rfl, rfl⟩
  | cons line lines ih =>
    obtain ⟨hline, hlines⟩ := List.forall_mem_cons.1 h
    obtain ⟨flat, hflat, hchars⟩ := @ih (memory.pass table line).2 hlines
    refine ⟨{ chars := line.chars, origin := { path, line := line.number } } :: flat, ?_, ?_⟩
    · unfold expandLines
      simp only [hline, ite_self, Reported.outcome_map, hflat]
      rfl
    · rw [List.map_cons, List.map_cons, hchars]

theorem outcome_expand (tree : FileTree) (config : Config) (levels : Nat) (place : Place)
    {text : List Char} (h : ∀ line ∈ splitLines text, Directive.ofLine? line = none) :
    ∃ flat, (expand tree config levels place text).outcome = .ok flat ∧
      flat.map FlatLine.chars = splitLines text := by
  have hchars := LineTable.map_chars_ofText config.tabWidth text
  have hlines : ∀ line ∈ (LineTable.ofText config.tabWidth text).lines,
      Directive.ofLine? line.chars = none := by
    intro line hline
    refine h line.chars ?_
    rw [← hchars]
    exact List.mem_map_of_mem hline
  unfold expand
  rw [← hchars]
  exact outcome_expandLines hlines

end Import

/-- The source of a text depends on its normal form only. -/
theorem Source.ofText_congr (tree : FileTree) (config : Config) {text text' : List Char}
    (origin : Path) (h : normalizeNewlines text = normalizeNewlines text') :
    Source.ofText tree config text origin = Source.ofText tree config text' origin := by
  unfold ofText Importer.run
  rw [h]

/-- A text of plain lines is its own source. -/
theorem Source.exists_of_plain (tree : FileTree) (config : Config) {lines : List (List Char)}
    (origin : Path) (h : ∀ line ∈ lines, IsPlain line) :
    ∃ source, (Source.ofText tree config (unlines lines) origin).outcome = .ok source ∧
      source.text = unlines lines ∧ source.table = .ofText config.tabWidth (unlines lines) := by
  have hsplit : splitLines (unlines lines) = lines :=
    splitLines_unlines lines fun line hline => (h line hline).lineFeed
  have hnormal : normalizeNewlines (unlines lines) = unlines lines :=
    normalizeNewlines_unlines (fun line hline => (h line hline).carriageReturn)
      fun line hline => (h line hline).lineFeed
  have hdirective : ∀ line ∈ splitLines (unlines lines), Directive.ofLine? line = none := by
    rw [hsplit]
    exact fun line hline => (h line hline).directive
  let importer : Importer := { tree, config }
  obtain ⟨flat, hflat, hchars⟩ :=
    outcome_expand tree config config.maxImportDepth (importer.placeOf origin) hdirective
  have htext : flatText flat = unlines lines := by rw [flatText, hchars, hsplit]
  refine ⟨ofLines config origin flat, ?_, htext, ?_⟩
  · unfold ofText Importer.run
    rw [Reported.outcome_map, hnormal]
    exact congrArg (Except.map _) hflat
  · rw [← htext]
    rfl

end BlockLexer
