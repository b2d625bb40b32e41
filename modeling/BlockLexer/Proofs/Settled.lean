import BlockLexer.Proofs.Chart

/-!
# Expanding a text again

A text in which all imports stand in their places should stay as it is when it is expanded
again.  It does unless one of its lines is taken for an import now.  A line that stood in
a body of its file may be, since the bodies of a flat text need not be those of its files.

* `IsSettled` says that no line of a text is taken for an import, and
  `Expands.isSettled_of_lines_eq` that only such a text expands to itself.
* `Charted.memoryBehind_eq_none_iff`: where every body ends in its file, the bodies of the
  flat text are those of its files.
* `Source.expands_again_iff` puts the two together.
-/

namespace BlockLexer

open Text Files Import

/-- No line of a text is taken for an import. -/
def IsSettled (config : Config) (text : List Char) : Prop :=
  ∀ number, (LineTable.ofText config.tabWidth text).followed? config number = none

/-! ## Texts that stay -/

/-- Where no line is followed, all lines stay. -/
theorem Import.exists_expandLines_of_kept {config : Config} {table : LineTable} (path : Path)
    (follow : Line → Directive → Reported (List FlatLine)) (passed : Nat)
    (h : ∀ number, table.followed? config number = none) :
    ∃ flat, (expandLines config path table follow (table.memoryBehind passed)
        (table.lines.drop passed)).outcome = .ok flat ∧
      flat.map FlatLine.chars = (table.lines.drop passed).map Line.chars := by
  induction hlines : table.lines.drop passed generalizing passed with
  | nil => exact ⟨[], rfl, rfl⟩
  | cons line lines ih =>
    obtain ⟨hline, hdrop⟩ := LineTable.get?_of_drop hlines
    obtain ⟨flat, hflat, hchars⟩ := ih _ hdrop
    rw [expandLines_cons _ _ _ hline, h]
    refine ⟨{ chars := line.chars, origin := { path, line := line.number } } :: flat, ?_, ?_⟩
    · rw [Reported.outcome_map, hflat]
      rfl
    · rw [List.map_cons, List.map_cons, hchars]

/-- A settled text expands to itself. -/
theorem IsSettled.exists_expand {config : Config} {text : List Char} (h : IsSettled config text)
    (tree : FileTree) (levels : Nat) (place : Place) :
    ∃ flat, (expand tree config levels place text).outcome = .ok flat ∧
      flat.map FlatLine.chars = splitLines text := by
  obtain ⟨flat, hflat, hchars⟩ := exists_expandLines_of_kept place.path
    (follow tree config levels place) 0 h
  rw [List.drop_zero] at hflat hchars
  rw [expand_eq, ← LineTable.map_chars_ofText config.tabWidth]
  exact ⟨flat, hflat, hchars⟩

/-- A settled text is its own source. -/
theorem IsSettled.exists_source {config : Config} {text : List Char}
    (h : IsSettled config (normalizeNewlines text)) (tree : FileTree) (origin : Path) :
    ∃ source, (Source.ofText tree config text origin).outcome = .ok source ∧
      source.text = unlines (splitLines (normalizeNewlines text)) ∧
      source.table = .ofText config.tabWidth source.text := by
  let importer : Importer := { tree, config }
  obtain ⟨flat, hflat, hchars⟩ :=
    h.exists_expand tree config.maxImportDepth (importer.placeOf origin)
  refine ⟨Source.ofLines config origin flat, ?_, ?_, rfl⟩
  · unfold Source.ofText Importer.run
    rw [Reported.outcome_map]
    exact congrArg (Except.map _) hflat
  · show unlines (flat.map FlatLine.chars) = _
    rw [hchars]

/-! ## Texts that change -/

/-- Behind a line that is followed no body is open. -/
theorem LineTable.memoryBehind_of_followed? {config : Config} {table : LineTable} {number : Nat}
    {directive : Directive} (h : table.followed? config (number + 1) = some directive) :
    table.memoryBehind (number + 1) = none := by
  have hsome := h
  unfold followed? at hsome
  obtain ⟨line, hline, -⟩ := Option.bind_eq_some_iff.1 hsome
  rw [followed?_succ hline] at h
  obtain ⟨hopen, hdirective⟩ := Option.ite_none_right_eq_some.1 h
  have hmarker : line.isMarker = false :=
    Line.isMarker_of_directive (Option.isSome_of_eq_some hdirective)
  rw [memoryBehind_succ hline]
  cases hmemory : table.memoryBehind number with
  | none =>
    rw [BodyMemory.pass_none, hmarker]
    rfl
  | some indent =>
    rw [hmemory, BodyMemory.pass_some, hmarker] at hopen
    rw [BodyMemory.pass_some]
    simp_all

theorem LineTable.isSome_of_followed? {config : Config} {table : LineTable} {number : Nat}
    {directive : Directive} (h : table.followed? config number = some directive) :
    ∃ line, table.get? number = some line ∧ (Directive.ofLine? line.chars).isSome = true ∧
      config.followImports = true := by
  unfold followed? at h
  obtain ⟨line, hline, hdirective⟩ := Option.bind_eq_some_iff.1 h
  obtain ⟨hopen, hline'⟩ := Option.ite_none_right_eq_some.1 hdirective
  exact ⟨line, hline, Option.isSome_of_eq_some hline', (Bool.and_eq_true_iff.1 hopen).1⟩

/-- A text without a directive is settled. -/
theorem isSettled_of_lines {config : Config} {text : List Char}
    (h : ∀ line ∈ splitLines text, Directive.ofLine? line = none) : IsSettled config text := by
  intro number
  rw [Option.eq_none_iff_forall_not_mem]
  intro directive hfollowed
  obtain ⟨line, hline, hdirective, -⟩ := LineTable.isSome_of_followed? hfollowed
  obtain ⟨i, -, hchars, -⟩ := LineTable.exists_of_get?_ofText hline
  rw [h line.chars (List.mem_of_getElem? hchars)] at hdirective
  cases hdirective

/-- Where imports are not followed, every text is settled. -/
theorem isSettled_of_off {config : Config} (hoff : config.followImports = false)
    (text : List Char) : IsSettled config text := by
  intro number
  rw [Option.eq_none_iff_forall_not_mem]
  intro directive hfollowed
  obtain ⟨_, _, _, hon⟩ := LineTable.isSome_of_followed? hfollowed
  rw [hoff] at hon
  cases hon

namespace Expands

variable {tree : FileTree} {config : Config} {place : Place} {text : List Char} {passed : Nat}
  {spots : List Spot}

/-- Where a directive is followed, or where no body is open, an expansion does not begin
with a directive: one that stood there has been followed. -/
theorem ofLine?_head (h : Expands tree config place text passed spots)
    (hfollow : config.followImports = true)
    (hmemory : (LineTable.ofText config.tabWidth text).followed? config (passed + 1) = none →
      (LineTable.ofText config.tabWidth text).memoryBehind passed = none) :
    ∀ spot ∈ spots.head?, Directive.ofLine? spot.line.chars = none := by
  induction h with
  | stop hsize => simp
  | kept hline hkept more ih =>
    rintro spot ⟨⟩
    have hnone := hmemory hkept
    rw [LineTable.followed?_succ hline, hfollow, hnone, BodyMemory.pass_none] at hkept
    exact hkept
  | followed hfollowed hread hchain hinside more ih ih' =>
    intro spot hspot
    rw [List.head?_append, Option.mem_def, Option.or_eq_some_iff] at hspot
    rcases hspot with hspot | ⟨-, hspot⟩
    · rw [List.head?_map, Option.map_eq_some_iff] at hspot
      obtain ⟨inner, hinner, rfl⟩ := hspot
      exact ih (fun _ => LineTable.memoryBehind_zero _) inner hinner
    · exact ih' (fun _ => LineTable.memoryBehind_of_followed? hfollowed) spot hspot

/-- A line that is kept comes first. -/
theorem tail_of_kept (h : Expands tree config place text passed spots)
    (hsize : passed < (LineTable.ofText config.tabWidth text).size)
    (hkept : (LineTable.ofText config.tabWidth text).followed? config (passed + 1) = none) :
    Expands tree config place text (passed + 1) (spots.drop 1) := by
  cases h with
  | stop hstop => exact absurd hsize (Nat.not_lt_of_le hstop)
  | kept _ _ more => exact more
  | followed hfollowed =>
    rw [hfollowed] at hkept
    cases hkept

/-- Lines that are kept come first, one for each. -/
theorem drop_of_kept (h : Expands tree config place text 0 spots)
    (hsize : passed ≤ (LineTable.ofText config.tabWidth text).size)
    (hkept : ∀ number, number ≤ passed →
      (LineTable.ofText config.tabWidth text).followed? config number = none) :
    Expands tree config place text passed (spots.drop passed) := by
  induction passed with
  | zero => exact h
  | succ passed ih =>
    have hbefore := ih (Nat.le_of_succ_le hsize)
      fun number hnumber => hkept number (Nat.le_succ_of_le hnumber)
    rw [← List.drop_drop]
    exact hbefore.tail_of_kept hsize (hkept _ (Nat.le_refl _))

/-- A text that expands to itself is settled. -/
theorem isSettled_of_lines_eq (h : Expands tree config place text 0 spots)
    (hlines : spots.map (fun spot => spot.flatLine.chars) = splitLines text) :
    IsSettled config text := by
  -- Otherwise the first line that is followed does not come out, and no directive does there.
  by_contra hsettled
  unfold IsSettled at hsettled
  rw [not_forall] at hsettled
  classical
  obtain ⟨passed, hfirst⟩ : ∃ passed, Nat.find hsettled = passed + 1 := by
    refine Nat.exists_eq_succ_of_ne_zero fun hzero => ?_
    have hnot := Nat.find_spec hsettled
    rw [hzero] at hnot
    exact hnot rfl
  obtain ⟨directive, hfollowed⟩ := Option.ne_none_iff_exists'.1 (Nat.find_spec hsettled)
  rw [hfirst] at hfollowed
  obtain ⟨line, hline, hdirective, hfollow⟩ := LineTable.isSome_of_followed? hfollowed
  have hsize := LineTable.le_size_of_get? hline
  have hrest : Expands tree config place text passed (spots.drop passed) :=
    h.drop_of_kept (Nat.le_of_succ_le hsize) fun number hnumber =>
      not_not.1 (Nat.find_min hsettled (by omega))
  obtain ⟨i, hi, hchars, -⟩ := LineTable.exists_of_get?_ofText hline
  obtain rfl : passed = i := Nat.succ.inj hi
  rw [← hlines, List.getElem?_map, Option.map_eq_some_iff] at hchars
  obtain ⟨spot, hspot, hsame⟩ := hchars
  have hhead : (spots.drop passed).head? = some spot := by
    rw [List.head?_drop]
    exact hspot
  have hnone : Directive.ofLine? spot.line.chars = none := by
    refine hrest.ofLine?_head hfollow (fun hkept => ?_) spot hhead
    rw [hfollowed] at hkept
    cases hkept
  have hstands := h.stands spot (List.mem_of_getElem? hspot)
  rw [← hsame, hstands.isSome_ofLine?_flatLine, hnone] at hdirective
  cases hdirective

end Expands

/-! ## Files whose bodies end -/

/-- Every body that a file opens ends in the file. -/
def BodiesEnd (config : Config) (text : List Char) : Prop :=
  ∀ marker, (LineTable.ofText config.tabWidth text).Opens marker →
    (LineTable.ofText config.tabWidth text).EndsItself config marker

namespace Charted

variable {config : Config} {spots : List Spot} {i marker : Nat} {a : Spot}

/-- A body that is open in front of a line in its file is open there in the flat text, if
none was in front of its marker. -/
theorem exists_covers (h : Charted config spots) (ha : spots[i]? = some a)
    (hcovers : (a.table config).Covers marker (a.line.number - 1)) (hpos : marker < a.line.number) :
    ∃ j line, j < i ∧ spots[j]? = some { a with line } ∧ line.number = marker ∧
      ((flatTable config spots).memoryBehind j = none →
        (flatTable config spots).Covers (j + 1) i) := by
  have hnumbered : (a.table config).Numbered := LineTable.numbered_ofText _ _
  have hsize := h.number_le_size ha
  have hmarkerPos := hcovers.opens.pos
  obtain ⟨before, hbefore⟩ := (a.table config).exists_get? (a.line.number - 1)
    (by omega) (by omega)
  have hnumber : before.number = a.line.number - 1 := hnumbered _ _ hbefore
  have hprevious : a.previous? config = some { a with line := before } :=
    Spot.of?_eq_some_iff.2 ⟨hcovers.followed?_eq_none hnumbered, before, hbefore, rfl⟩
  obtain ⟨k, rfl, hk⟩ := h.previous ha hprevious
  rw [← hnumber] at hcovers
  obtain ⟨j, line, rfl, hline, hmarker, hj, hruns⟩ := h.exists_runsTo hk hcovers
  refine ⟨j, line, by omega, hj, hnumbered _ _ hline, fun hmemory => ⟨⟨?_, hmemory⟩, ?_, hruns⟩⟩
  · exact (h.any_isMarker_eq hj).trans hmarker
  · omega

/-- Where all bodies end in their files, a body is open in front of a line of the flat text
if one is in its file. -/
theorem memoryBehind_eq_none_iff (h : Charted config spots)
    (hends : ∀ spot ∈ spots, BodiesEnd config spot.text) (ha : spots[i]? = some a) :
    (flatTable config spots).memoryBehind i = none ↔
      (a.table config).memoryBehind (a.line.number - 1) = none := by
  have hnumbered : (a.table config).Numbered := LineTable.numbered_ofText _ _
  have hflat : (flatTable config spots).Numbered := LineTable.numbered_ofText _ _
  -- Each body is compared at its marker, which stands further in front.
  induction i using Nat.strongRecOn generalizing a with
  | ind i ih =>
    constructor
    · intro hnone
      by_contra hopen
      obtain ⟨indent, hmemory⟩ := Option.ne_none_iff_exists'.1 hopen
      obtain ⟨marker, hcovers, -⟩ := LineTable.exists_covers hnumbered
        (Nat.le_trans (Nat.sub_le _ 1) (h.number_le_size ha)) hmemory
      have hpos := LineTable.pos_of_get? (h.stands a (List.mem_of_getElem? ha)).line
      have hle := hcovers.le
      obtain ⟨j, line, hj, hspot, hnumber, hflatCovers⟩ := h.exists_covers ha hcovers (by omega)
      have hbefore := (ih j hj hspot hnumbered).2 (by
        dsimp only
        rw [hnumber]
        exact hcovers.opens.memory)
      rw [(hflatCovers hbefore).memoryBehind_eq hflat] at hnone
      cases hnone
    · intro hnone
      by_contra hopen
      obtain ⟨indent, hmemory⟩ := Option.ne_none_iff_exists'.1 hopen
      obtain ⟨moved, hmoved, -⟩ := h.exists_moved ha
      obtain ⟨marker, hcovers, -⟩ := LineTable.exists_covers hflat
        (Nat.le_of_succ_le (LineTable.le_size_of_get? hmoved)) hmemory
      obtain ⟨j, rfl⟩ := Nat.exists_eq_succ_of_ne_zero (Nat.ne_of_gt hcovers.opens.pos)
      obtain ⟨marked, hmarked, -⟩ := Option.any_eq_true _ _ |>.1 hcovers.opens.isMarker
      obtain ⟨b, hb, -⟩ := h.exists_spot hmarked
      have hbmem := List.mem_of_getElem? hb
      have hbefore := (ih j hcovers.le hb (LineTable.numbered_ofText _ _)).1 hcovers.opens.memory
      have hopens : (b.table config).Opens b.line.number := by
        refine ⟨?_, hbefore⟩
        rw [(h.stands b hbmem).line, Option.any_some, ← h.any_isMarker_eq hb]
        exact hcovers.opens.isMarker
      obtain ⟨count, hlines, hfile, hlast⟩ :=
        h.exists_end hb hopens (hends b hbmem _ hopens)
      have hle := hlast i hcovers.runs
      have hcoversLe := hcovers.le
      obtain ⟨line, hline, hspot⟩ := hlines (i - j) (by omega)
      rw [Nat.add_sub_cancel' (Nat.le_of_succ_le hcovers.le)] at hspot
      obtain rfl : a = { b with line } := Option.some.inj (ha.symm.trans hspot)
      have hnumber : line.number = b.line.number + (i - j) := hnumbered _ _ hline
      have hopen' := (hfile (i - j - 1) (by omega)).memoryBehind_eq hnumbered
      dsimp only at hnone
      rw [hnumber, Nat.add_sub_assoc (by omega)] at hnone
      exact absurd hnone (by rw [hopen']; simp)

/-- Where all bodies end in their files, the flat text is settled. -/
theorem isSettled (h : Charted config spots)
    (hends : ∀ spot ∈ spots, BodiesEnd config spot.text) :
    IsSettled config (flatText (spots.map Spot.flatLine)) := by
  have hflat : (flatTable config spots).Numbered := LineTable.numbered_ofText _ _
  intro number
  cases hfollowed : (flatTable config spots).followed? config number with
  | none => exact hfollowed
  | some directive =>
    obtain ⟨moved, hmoved, hdirective, hfollow⟩ := LineTable.isSome_of_followed? hfollowed
    obtain ⟨i, rfl⟩ := Nat.exists_eq_succ_of_ne_zero
      (Nat.ne_of_gt (LineTable.pos_of_get? hmoved))
    obtain ⟨a, marker, ha, hlt, hcovers⟩ :=
      h.exists_covers_of_directive hfollow hmoved hdirective
    obtain ⟨j, line, rfl, hline, hmarker, hj, hruns⟩ := h.exists_runsTo ha hcovers
    have hmemory : (flatTable config spots).memoryBehind j = none := by
      refine (h.memoryBehind_eq_none_iff hends hj).2 ?_
      have hnumber : line.number = marker := LineTable.numbered_ofText _ _ _ _ hline
      dsimp only
      rw [hnumber]
      exact hcovers.opens.memory
    have hopens : (flatTable config spots).Opens (j + 1) :=
      ⟨(h.any_isMarker_eq hj).trans hmarker, hmemory⟩
    have hopen : (flatTable config spots).Covers (j + 1) (j + (a.line.number - marker) + 1) :=
      ⟨hopens, by omega, hruns⟩
    rw [hopen.followed?_eq_none hflat] at hfollowed
    cases hfollowed

end Charted

/-! ## Sources -/

/-- A flat text is normal. -/
theorem normalizeNewlines_flatText {config : Config} {spots : List Spot}
    (h : ∀ spot ∈ spots, spot.Stands config) (htext : ∀ spot ∈ spots, '\r' ∉ spot.text) :
    normalizeNewlines (flatText (spots.map Spot.flatLine)) =
      flatText (spots.map Spot.flatLine) := by
  have hlines := splitLines_flatText h
  have hreturn := carriageReturn_not_mem_flatText h htext
  unfold flatText
  rw [List.map_map]
  have hmem : ∀ line ∈ spots.map (FlatLine.chars ∘ Spot.flatLine),
      line ∈ splitLines (flatText (spots.map Spot.flatLine)) := by
    rw [hlines]
    exact fun line hline => hline
  exact normalizeNewlines_unlines
    (fun line hline hr => hreturn (mem_of_mem_splitLines (hmem line hline) hr))
    fun line hline => lineFeed_not_mem_of_mem_splitLines (hmem line hline)

end BlockLexer
