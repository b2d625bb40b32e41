import BlockLexer.Proofs.Expansion
import BlockLexer.Proofs.Newlines

/-!
# Where the lines of a source come from

Imports move lines and indent them, and a fault has to be reported where the line was
written.  This module shows that the origins of a source say so, however deep imports
are nested.

* `Spot.Stands.not_mem_chars` says that a line that comes out holds no line end if the line of
  its file holds none, and `splitLines_flatText` that the lines are found again in the text.
* `Source.Traces` is what the origins of a source promise, and
  `Source.traces_of_ofText` that they keep it.
-/

namespace BlockLexer

open Text Files Import

/-! ## Lines of a flat text -/

/-- Blanks are no line ends. -/
theorem not_mem_of_isBlank {blanks : List Char} {c : Char} (h : ∀ b ∈ blanks, isBlank b = true)
    (hc : isBlank c = false) : c ∉ blanks := by
  intro hmem
  rw [h c hmem] at hc
  cases hc

/-- The line that a spot stands on is a line of its file. -/
theorem Spot.Stands.getElem?_splitLines {config : Config} {spot : Spot}
    (h : spot.Stands config) :
    0 < spot.line.number ∧
      (splitLines spot.text)[spot.line.number - 1]? = some spot.line.chars := by
  obtain ⟨n, hn, hline, -⟩ := LineTable.exists_of_get?_ofText h.line
  rw [hn]
  exact ⟨Nat.succ_pos n, hline⟩

/-- A character that is no blank and not in the file is not in the line that comes out. -/
theorem Spot.Stands.not_mem_chars {config : Config} {spot : Spot} (h : spot.Stands config)
    {c : Char} (hblank : isBlank c = false) (hline : c ∉ spot.line.chars) :
    c ∉ spot.flatLine.chars := by
  rw [Spot.chars_flatLine]
  split
  · exact hline
  · rw [List.mem_append, not_or]
    exact ⟨not_mem_of_isBlank h.shift hblank, hline⟩

/-- A line that comes out is a directive if it is one in its file. -/
theorem Spot.Stands.isSome_ofLine?_flatLine {config : Config} {spot : Spot}
    (h : spot.Stands config) :
    (Directive.ofLine? spot.flatLine.chars).isSome =
      (Directive.ofLine? spot.line.chars).isSome := by
  rw [Spot.chars_flatLine]
  split
  · rfl
  · exact Directive.isSome_ofLine?_append h.shift _

/-- The lines of a flat text, found again. -/
theorem splitLines_flatText {config : Config} {spots : List Spot}
    (h : ∀ spot ∈ spots, spot.Stands config) :
    splitLines (flatText (spots.map Spot.flatLine)) =
      spots.map fun spot => spot.flatLine.chars := by
  rw [flatText, List.map_map]
  refine splitLines_unlines _ fun line hline => ?_
  obtain ⟨spot, hspot, rfl⟩ := List.mem_map.1 hline
  have hstands := h spot hspot
  have hmem := List.mem_of_getElem? hstands.getElem?_splitLines.2
  exact hstands.not_mem_chars rfl (lineFeed_not_mem_of_mem_splitLines hmem)

/-- The files that a normal text leads to are normal. -/
theorem Expands.carriageReturn_not_mem {tree : FileTree} {config : Config} {place : Place}
    {text : List Char} {passed : Nat} {spots : List Spot}
    (h : Expands tree config place (normalizeNewlines text) passed spots) :
    ∀ spot ∈ spots, '\r' ∉ spot.text := by
  intro spot hspot
  rcases h.source spot hspot with ⟨-, htext⟩ | ⟨_, _, _, _, _, htext, _⟩
  · rw [htext]
    exact carriageReturn_not_mem_normalizeNewlines _
  · rw [htext]
    exact carriageReturn_not_mem_normalizeNewlines _

/-- Where the files hold no CR, the flat text holds none. -/
theorem carriageReturn_not_mem_flatText {config : Config} {spots : List Spot}
    (h : ∀ spot ∈ spots, spot.Stands config) (htext : ∀ spot ∈ spots, '\r' ∉ spot.text) :
    '\r' ∉ flatText (spots.map Spot.flatLine) := by
  intro hmem
  obtain ⟨line, hline, hr⟩ := List.mem_flatMap.1 hmem
  rw [List.map_map] at hline
  obtain ⟨spot, hspot, rfl⟩ := List.mem_map.1 hline
  rcases List.mem_append.1 hr with hr | hr
  · have hstands := h spot hspot
    have hline := List.mem_of_getElem? hstands.getElem?_splitLines.2
    exact hstands.not_mem_chars rfl (fun hc => htext spot hspot (mem_of_mem_splitLines hline hc)) hr
  · exact absurd hr (by decide)

/-! ## The origins of a source -/

/-- The character at a place of a text.  Lines and columns count from one. -/
def Text.charAt? (text : List Char) (line column : Nat) : Option Char :=
  ((splitLines text)[line - 1]?).bind (·[column - 1]?)

/-- The text that a path stands for while a text is expanded: the text itself for the path
that it is said to come from, and the text of the file for any other path. -/
def fileText? (tree : FileTree) (text : List Char) (origin path : Path) : Option (List Char) :=
  if path = origin then some (normalizeNewlines text)
  else match tree.read path with
    | .error _ => none
    | .ok (_, content) => some (normalizeNewlines content)

namespace Source

/-- What the origins of a source promise: there is one for each line, and it names the
file and the line that the line was written in, and how many blanks were put in front. -/
structure Traces (file? : Path → Option (List Char)) (source : Source) : Prop where
  carriageReturn : '\r' ∉ source.text
  closed : source.text = [] ∨ source.text.getLast? = some '\n'
  length : source.origins.length = (splitLines source.text).length
  line : ∀ number origin, source.origin? number = some origin →
    ∃ file blanks line, file? origin.path = some file ∧ 0 < origin.line ∧
      (splitLines file)[origin.line - 1]? = some line ∧
      (∀ c ∈ blanks, isBlank c = true) ∧ byteSize blanks = origin.shift ∧
      (splitLines source.text)[number - 1]? = some (blanks ++ line)
  /-- A place behind the blanks is taken to the same character in the file. -/
  locate : ∀ fault origin, source.origin? fault.line = some origin →
    origin.shift < fault.column →
    source.locate fault =
        { fault with
          path := origin.path, line := origin.line, column := fault.column - origin.shift } ∧
      ∃ file, file? origin.path = some file ∧
        charAt? file origin.line (fault.column - origin.shift) =
          charAt? source.text fault.line fault.column

end Source

/-- A blank takes one byte. -/
theorem byteSize_of_isBlank {blanks : List Char} (h : ∀ c ∈ blanks, isBlank c = true) :
    byteSize blanks = blanks.length := by
  induction blanks with
  | nil => rfl
  | cons c blanks ih =>
    obtain ⟨hc, hblanks⟩ := List.forall_mem_cons.1 h
    have hone : c.utf8Size = 1 := by
      simp only [isBlank, Bool.or_eq_true, decide_eq_true_eq] at hc
      rcases hc with rfl | rfl <;> rfl
    rw [byteSize_cons, ih hblanks, hone, List.length_cons, Nat.add_comm]

/-! ## Paths of imports -/

/-- What is in a piece of a text is in the text. -/
theorem Text.mem_of_mem_splitBy {sep c : Char} {cs piece : List Char}
    (h : piece ∈ splitBy sep cs) (hc : c ∈ piece) : c ∈ cs := by
  induction cs generalizing piece with
  | nil =>
    obtain rfl := List.mem_singleton.1 h
    exact hc
  | cons d cs ih =>
    rw [splitBy_cons] at h
    split at h
    · rcases List.mem_cons.1 h with rfl | hmem
      · cases hc
      · exact List.mem_cons_of_mem d (ih hmem hc)
    · cases hpieces : splitBy sep cs with
      | nil => exact absurd hpieces (splitBy_ne_nil sep cs)
      | cons first more =>
        rw [hpieces, List.modifyHead_cons] at h
        rw [hpieces] at ih
        rcases List.mem_cons.1 h with rfl | hmem
        · rcases List.mem_cons.1 hc with rfl | hfirst
          · exact List.mem_cons_self
          · exact List.mem_cons_of_mem d (ih List.mem_cons_self hfirst)
        · exact List.mem_cons_of_mem d (ih (List.mem_cons_of_mem first hmem) hc)

namespace Files.Path

/-- A path with an extension holds a dot. -/
theorem dot_mem_of_hasExtension {path : Path} (h : hasExtension path = true) : '.' ∈ path := by
  unfold hasExtension at h
  split at h
  · cases h
  next name hname =>
  have hpiece : name ∈ partsFromEnd path := by
    unfold fileName? at hname
    split at hname
    · cases hname
    next part parts hparts =>
    obtain rfl : part = name := Option.some.inj (Option.ite_none_left_eq_some.1 hname).2
    rw [hparts]
    exact List.mem_cons_self
  have hsplit : name ∈ splitBy '/' (path.drop (lead path).length) :=
    List.mem_reverse.1 ((List.dropWhile_sublist _).subset hpiece)
  have hdot : '.' ∈ name := List.mem_of_mem_drop (List.contains_iff_mem.1 h)
  exact List.mem_of_mem_drop (mem_of_mem_splitBy hsplit hdot)

/-- The path of an import holds a dot. -/
theorem dot_mem_join_appendExtension (directory extension target : Path) :
    '.' ∈ join directory (appendExtension extension target) := by
  have hdot : '.' ∈ appendExtension extension target := by
    unfold appendExtension
    split
    · next hextension => exact dot_mem_of_hasExtension hextension
    · exact List.mem_append_right _ List.mem_cons_self
  unfold join
  split
  · exact hdot
  · split
    · exact List.mem_append_right _ hdot
    · exact List.mem_append_right _ (List.mem_cons_of_mem _ hdot)

end Files.Path

/-- No import leads to the path that the text is said to come from: a text without a file
has no such path, and a file is being expanded already. -/
theorem Import.Importer.ne_of_not_mem_placeOf {importer : Importer} {origin path directory
    target extension : Path} {location : Location} {content : List Char}
    (hread : importer.tree.read path = .ok (location, content))
    (hpath : path = Path.join directory (Path.appendExtension extension target))
    (hchain : location ∉ (importer.placeOf origin).chain) : path ≠ origin := by
  rintro rfl
  unfold placeOf at hchain
  split at hchain
  · next htext =>
    have hdot := Path.dot_mem_join_appendExtension directory extension target
    rw [← hpath, htext] at hdot
    exact absurd hdot (by decide)
  · rw [(importer.tree.found_of_read hread).1] at hchain
    exact hchain (List.mem_append_right _ (List.mem_singleton.2 rfl))

/-! ## The promise is kept -/

/-- The spots behind a source: they stand in the texts that their paths stand for. -/
theorem Source.exists_spots {tree : FileTree} {config : Config} {text : List Char}
    {origin : Path} {source : Source}
    (h : (Source.ofText tree config text origin).outcome = .ok source) :
    ∃ spots, source = ofLines config origin (spots.map Spot.flatLine) ∧
      Expands tree config (({ tree, config } : Importer).placeOf origin) (normalizeNewlines text) 0
        spots ∧
      ∀ spot ∈ spots, fileText? tree text origin spot.path = some spot.text := by
  unfold ofText Importer.run at h
  rw [Reported.outcome_map] at h
  obtain ⟨flat, hflat, rfl⟩ := exists_of_map_eq_ok h
  obtain ⟨spots, hexpands, rfl⟩ := Expands.exists_of_expand hflat
  refine ⟨spots, rfl, hexpands, fun spot hspot => ?_⟩
  have hplace : (({ tree, config } : Importer).placeOf origin).path = origin := by
    unfold Importer.placeOf
    split <;> rfl
  unfold fileText?
  rcases hexpands.source spot hspot with ⟨hpath, htext⟩ | hinner
  · rw [if_pos (hpath.trans hplace), htext]
  · obtain ⟨location, content, directory, target, hread, htext, hchain, hpath⟩ := hinner
    rw [if_neg (Importer.ne_of_not_mem_placeOf hread hpath hchain), hread, htext]

namespace Source

variable {spots : List Spot} {config : Config} {path : Path} {number : Nat} {origin : Origin}

/-- The spot of a line of a source. -/
theorem exists_spot_of_origin?
    (h : (ofLines config path (spots.map Spot.flatLine)).origin? number = some origin) :
    ∃ i spot, number = i + 1 ∧ spots[i]? = some spot ∧ origin = spot.flatLine.origin := by
  unfold origin? at h
  obtain ⟨hne, hget⟩ := Option.ite_none_left_eq_some.1 h
  obtain ⟨i, rfl⟩ := Nat.exists_eq_succ_of_ne_zero hne
  have hmap : (ofLines config path (spots.map Spot.flatLine)).origins =
      spots.map fun spot => spot.flatLine.origin := List.map_map
  rw [hmap, List.getElem?_map, Option.map_eq_some_iff] at hget
  obtain ⟨spot, hspot, rfl⟩ := hget
  exact ⟨i, spot, rfl, hspot, rfl⟩

/-- The line of a spot, with the blanks that its origin counts. -/
theorem exists_blanks_of_stands {spot : Spot} (h : spot.Stands config) :
    ∃ blanks, (∀ c ∈ blanks, isBlank c = true) ∧
      byteSize blanks = spot.flatLine.origin.shift ∧
      spot.flatLine.chars = blanks ++ spot.line.chars := by
  rw [Spot.chars_flatLine, Spot.origin_flatLine]
  dsimp only
  split
  · exact ⟨[], by simp, rfl, rfl⟩
  · exact ⟨spot.shift, h.shift, rfl, rfl⟩

end Source

/-- A source has no text, or ends with a line feed. -/
theorem Source.closed_of_ofText {tree : FileTree} {config : Config} {text : List Char}
    {origin : Path} {source : Source}
    (h : (Source.ofText tree config text origin).outcome = .ok source) :
    source.text = [] ∨ source.text.getLast? = some '\n' := by
  obtain ⟨spots, rfl, -, -⟩ := exists_spots h
  exact getLast?_unlines _

/-- The origins of a source keep what they promise. -/
theorem Source.traces_of_ofText {tree : FileTree} {config : Config} {text : List Char}
    {origin : Path} {source : Source}
    (h : (Source.ofText tree config text origin).outcome = .ok source) :
    source.Traces (fileText? tree text origin) := by
  obtain ⟨spots, rfl, hexpands, hfile⟩ := exists_spots h
  have hstands := hexpands.stands
  have hsplit := splitLines_flatText hstands
  have htext := hexpands.carriageReturn_not_mem
  have hline : ∀ number o, (ofLines config origin (spots.map Spot.flatLine)).origin? number =
      some o → ∃ file blanks line, fileText? tree text origin o.path = some file ∧ 0 < o.line ∧
        (splitLines file)[o.line - 1]? = some line ∧ (∀ c ∈ blanks, isBlank c = true) ∧
        byteSize blanks = o.shift ∧
        (splitLines (flatText (spots.map Spot.flatLine)))[number - 1]? =
          some (blanks ++ line) := by
    intro number o ho
    obtain ⟨i, spot, rfl, hspot, rfl⟩ := exists_spot_of_origin? ho
    have hmem := List.mem_of_getElem? hspot
    have hget := (hstands spot hmem).getElem?_splitLines
    obtain ⟨blanks, hblanks, hsize, hchars⟩ := exists_blanks_of_stands (hstands spot hmem)
    rw [Spot.origin_flatLine] at hsize ⊢
    refine ⟨spot.text, blanks, spot.line.chars, hfile spot hmem, hget.1, hget.2, hblanks, hsize, ?_⟩
    rw [hsplit, Nat.add_sub_cancel, List.getElem?_map, hspot, Option.map_some, hchars]
  refine ⟨carriageReturn_not_mem_flatText hstands htext, getLast?_unlines _, ?_, hline, ?_⟩
  · change ((spots.map Spot.flatLine).map FlatLine.origin).length = _
    rw [ofLines, hsplit, List.length_map, List.length_map, List.length_map]
  · intro fault o ho hcolumn
    obtain ⟨file, blanks, line, hfile, -, hget, hblanks, hsize, hflat⟩ := hline _ _ ho
    constructor
    · rw [locate, ho]
      dsimp only
      rw [Nat.max_eq_left (by omega)]
    · refine ⟨file, hfile, ?_⟩
      unfold charAt?
      have hlength : blanks.length ≤ fault.column - 1 := by
        rw [← byteSize_of_isBlank hblanks, hsize]
        omega
      change _ = ((splitLines (flatText (spots.map Spot.flatLine)))[fault.line - 1]?).bind _
      rw [hget, hflat, Option.bind_some, Option.bind_some, List.getElem?_append_right hlength,
        ← byteSize_of_isBlank hblanks, hsize, Nat.sub_right_comm]

/-- A file that is brought in by a file that is brought in behind a tab. -/
theorem Source.traces_of_nested_import :
    ∃ tree source, tree.entries = [([['a', '.', '3', 'l', 'm']],
        .text ['i', 'm', 'p', 'o', 'r', 't', ' ', ' ', 'b', '\r', '\n', '\r', 'x', '=', '1']),
        ([['b', '.', '3', 'l', 'm']], .text [' ', 'y', '=', '2'])] ∧
      (Source.ofText tree {} ['A', '\n', '\t', 'i', 'm', 'p', 'o', 'r', 't', ' ', 'a', '\r', '\n',
        'e', 'n', 'd'] textOrigin).outcome = .ok source ∧
      source.text = ['A', '\n', '\t', ' ', 'y', '=', '2', '\n', '\n', '\t', 'x', '=', '1', '\n',
        'e', 'n', 'd', '\n'] ∧
      source.origins = [⟨textOrigin, 1, 0⟩, ⟨['.', '/', 'b', '.', '3', 'l', 'm'], 1, 1⟩,
        ⟨['.', '/', 'a', '.', '3', 'l', 'm'], 2, 0⟩, ⟨['.', '/', 'a', '.', '3', 'l', 'm'], 3, 1⟩,
        ⟨textOrigin, 3, 0⟩] ∧
      source.Traces (fileText? tree ['A', '\n', '\t', 'i', 'm', 'p', 'o', 'r', 't', ' ', 'a', '\r',
        '\n', 'e', 'n', 'd'] textOrigin) := by
  let tree : FileTree :=
    { workingDirectory := []
      entries := [([['a', '.', '3', 'l', 'm']], .text ['i', 'm', 'p', 'o', 'r', 't', ' ', ' ', 'b',
        '\r', '\n', '\r', 'x', '=', '1']), ([['b', '.', '3', 'l', 'm']],
        .text [' ', 'y', '=', '2'])] }
  have hrun : (Source.ofText tree {} ['A', '\n', '\t', 'i', 'm', 'p', 'o', 'r', 't', ' ', 'a', '\r',
      '\n', 'e', 'n', 'd'] textOrigin).outcome.map (fun source => (source.text, source.origins)) =
        .ok (['A', '\n', '\t', ' ', 'y', '=', '2', '\n', '\n', '\t', 'x', '=', '1', '\n', 'e', 'n',
          'd', '\n'], [⟨textOrigin, 1, 0⟩, ⟨['.', '/', 'b', '.', '3', 'l', 'm'], 1, 1⟩,
          ⟨['.', '/', 'a', '.', '3', 'l', 'm'], 2, 0⟩, ⟨['.', '/', 'a', '.', '3', 'l', 'm'], 3, 1⟩,
          ⟨textOrigin, 3, 0⟩]) := by
    decide +kernel
  obtain ⟨source, hsource, hlines⟩ := exists_of_map_eq_ok hrun
  obtain ⟨htext, horigins⟩ := Prod.mk.inj hlines
  exact ⟨tree, source, rfl, hsource, htext, horigins, traces_of_ofText hsource⟩

end BlockLexer
