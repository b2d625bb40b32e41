import BlockLexer.Proofs.Origins
import Mathlib.Data.List.Chain

/-!
# Neighbours in a flat text

The lines of a file stay together in a flat text until an import is followed between
them.  This module finds the neighbours of a line.

* `Spot.next?` and `Spot.previous?` are the neighbours of a line in its file, if they are
  kept.
* `Charted` says that they are neighbours in the flat text as well, and that where a file
  begins or ends nothing of it is missing.  `Expands.charted` says that every expansion
  is so.
* `Charted.exists_ahead` and `Charted.exists_back` walk along a file, and
  `Charted.beside` compares the lines passed with those of the flat text.
-/

namespace BlockLexer

open Text Files Import

namespace Spot

/-- A line of a file, if it is kept. -/
def of? (config : Config) (path : Path) (text shift : List Char) (number : Nat) : Option Spot :=
  if ((LineTable.ofText config.tabWidth text).followed? config number).isSome then none
  else ((LineTable.ofText config.tabWidth text).get? number).map fun line =>
    { path, text, shift, line }

/-- The line behind a line in its file, if it is kept. -/
def next? (config : Config) (spot : Spot) : Option Spot :=
  of? config spot.path spot.text spot.shift (spot.line.number + 1)

/-- The line in front of a line in its file, if it is kept. -/
def previous? (config : Config) (spot : Spot) : Option Spot :=
  of? config spot.path spot.text spot.shift (spot.line.number - 1)

/-- Two lines may follow each other in a flat text: they do so in their file, or one of
their files is left behind the first and one is entered in front of the second. -/
def Meets (config : Config) (a b : Spot) : Prop :=
  a.next? config = some b ∨ (a.next? config = none ∧ b.previous? config = none)

variable {config : Config} {path : Path} {text shift blanks : List Char} {number : Nat}
  {a b spot : Spot}

theorem of?_eq_some_iff :
    of? config path text shift number = some spot ↔
      (LineTable.ofText config.tabWidth text).followed? config number = none ∧
        ∃ line, (LineTable.ofText config.tabWidth text).get? number = some line ∧
          spot = { path, text, shift, line } := by
  unfold of?
  rw [Option.ite_none_left_eq_some, Option.not_isSome_iff_eq_none, Option.map_eq_some_iff]
  simp only [eq_comm]

theorem of?_of_followed? {directive : Directive}
    (h : (LineTable.ofText config.tabWidth text).followed? config number = some directive) :
    of? config path text shift number = none := by
  rw [of?, h]
  rfl

theorem of?_zero : of? config path text shift 0 = none := by
  unfold of?
  split <;> rfl

theorem of?_of_size_lt (h : (LineTable.ofText config.tabWidth text).size < number) :
    of? config path text shift number = none := by
  cases hof : of? config path text shift number with
  | none => rfl
  | some spot =>
    obtain ⟨-, line, hline, -⟩ := of?_eq_some_iff.1 hof
    exact absurd (LineTable.le_size_of_get? hline) (Nat.not_le_of_lt h)

theorem of?_indented (blanks : List Char) :
    of? config path text (blanks ++ shift) number =
      (of? config path text shift number).map (Spot.indented blanks) := by
  unfold of?
  split
  · rfl
  · rw [Option.map_map]
    rfl

theorem number_of_of? (h : of? config path text shift number = some spot) :
    spot.line.number = number := by
  obtain ⟨-, line, hline, rfl⟩ := of?_eq_some_iff.1 h
  exact LineTable.numbered_ofText _ _ _ _ hline

/-- A line that is kept is the one in front of the line behind it. -/
theorem previous?_of_next? (ha : a.Stands config) (h : a.next? config = some b) :
    b.previous? config = some a := by
  have hnumber := number_of_of? h
  obtain ⟨-, line, -, rfl⟩ := of?_eq_some_iff.1 h
  refine of?_eq_some_iff.2 ⟨?_, a.line, ?_, rfl⟩
  · rw [hnumber]
    exact ha.kept
  · rw [hnumber]
    exact ha.line

theorem next?_indented (blanks : List Char) (spot : Spot) :
    (spot.indented blanks).next? config = (spot.next? config).map (Spot.indented blanks) :=
  of?_indented blanks

theorem previous?_indented (blanks : List Char) (spot : Spot) :
    (spot.indented blanks).previous? config =
      (spot.previous? config).map (Spot.indented blanks) :=
  of?_indented blanks

theorem Meets.indented (h : Meets config a b) (blanks : List Char) :
    Meets config (a.indented blanks) (b.indented blanks) := by
  unfold Meets
  rw [next?_indented, previous?_indented]
  rcases h with hnext | ⟨hnext, hprevious⟩
  · rw [hnext]
    exact .inl rfl
  · rw [hnext, hprevious]
    exact .inr ⟨rfl, rfl⟩

end Spot

/-! ## Charted texts -/

/-- The lines of a flat text with their files: neighbours in a file are neighbours in the
text, and the text begins and ends where files do. -/
structure Charted (config : Config) (spots : List Spot) : Prop where
  stands : ∀ spot ∈ spots, spot.Stands config
  chain : spots.IsChain (Spot.Meets config)
  head : ∀ spot ∈ spots.head?, spot.previous? config = none
  last : ∀ spot ∈ spots.getLast?, spot.next? config = none

/-- The same of a text that begins within a file: its first line is the next line of the
file, if that one is kept. -/
structure ChartedFrom (config : Config) (first? : Option Spot) (spots : List Spot) : Prop where
  stands : ∀ spot ∈ spots, spot.Stands config
  chain : spots.IsChain (Spot.Meets config)
  begins : ∀ first ∈ first?, spots.head? = some first
  enters : first? = none → ∀ spot ∈ spots.head?, spot.previous? config = none
  last : ∀ spot ∈ spots.getLast?, spot.next? config = none

section Charted

variable {config : Config} {spots more : List Spot} {first? : Option Spot} {a b : Spot}

theorem ChartedFrom.charted (h : ChartedFrom config first? spots)
    (hfirst : ∀ first ∈ first?, first.previous? config = none) : Charted config spots := by
  refine ⟨h.stands, h.chain, fun spot hspot => ?_, h.last⟩
  cases hfirst? : first? with
  | none => exact h.enters hfirst? spot hspot
  | some first =>
    have hhead := h.begins first hfirst?
    rw [Option.mem_def.1 hspot] at hhead
    rw [Option.some.inj hhead]
    exact hfirst first hfirst?

theorem Charted.chartedFrom (h : Charted config spots) : ChartedFrom config none spots :=
  ⟨h.stands, h.chain, by simp, fun _ => h.head, h.last⟩

/-- A line may stand in front of the next line of its file, or of the beginning of one. -/
theorem ChartedFrom.cons (ha : a.Stands config) (h : ChartedFrom config (a.next? config) spots) :
    ChartedFrom config (some a) (a :: spots) := by
  refine ⟨List.forall_mem_cons.2 ⟨ha, h.stands⟩, List.isChain_cons.2 ⟨?_, h.chain⟩, ?_, ?_, ?_⟩
  · intro b hb
    cases hnext : a.next? config with
    | none => exact .inr ⟨hnext, h.enters hnext b hb⟩
    | some follower =>
      have hhead := h.begins follower hnext
      rw [Option.mem_def.1 hb] at hhead
      exact .inl (hnext.trans hhead.symm)
  · rintro first ⟨⟩
    rfl
  · rintro ⟨⟩
  · intro spot hspot
    cases spots with
    | nil =>
      obtain rfl : a = spot := Option.some.inj hspot
      cases hnext : a.next? config with
      | none => rfl
      | some follower => cases h.begins follower hnext
    | cons first rest =>
      rw [List.getLast?_cons_cons] at hspot
      exact h.last spot hspot

/-- A file may stand in front of the beginning of another one. -/
theorem Charted.append (h : Charted config spots) (h' : Charted config more) :
    Charted config (spots ++ more) := by
  refine ⟨?_, ?_, ?_, ?_⟩
  · exact List.forall_mem_append.2 ⟨h.stands, h'.stands⟩
  · exact h.chain.append h'.chain fun a ha b hb => .inr ⟨h.last a ha, h'.head b hb⟩
  · intro spot hspot
    rw [List.head?_append, Option.mem_def, Option.or_eq_some_iff] at hspot
    rcases hspot with hspot | ⟨-, hspot⟩
    · exact h.head spot hspot
    · exact h'.head spot hspot
  · intro spot hspot
    rw [List.getLast?_append, Option.mem_def, Option.or_eq_some_iff] at hspot
    rcases hspot with hspot | ⟨-, hspot⟩
    · exact h'.last spot hspot
    · exact h.last spot hspot

theorem Charted.indented {blanks : List Char} (h : Charted config spots)
    (hblanks : ∀ c ∈ blanks, isBlank c = true) :
    Charted config (spots.map (Spot.indented blanks)) := by
  refine ⟨?_, ?_, ?_, ?_⟩
  · intro spot hspot
    obtain ⟨inner, hinner, rfl⟩ := List.mem_map.1 hspot
    exact (h.stands inner hinner).indented hblanks
  · exact List.isChain_map_of_isChain _ (fun a b hmeets => hmeets.indented blanks) h.chain
  · intro spot hspot
    rw [List.head?_map, Option.mem_def, Option.map_eq_some_iff] at hspot
    obtain ⟨inner, hinner, rfl⟩ := hspot
    rw [Spot.previous?_indented, h.head inner hinner]
    rfl
  · intro spot hspot
    rw [List.getLast?_map, Option.mem_def, Option.map_eq_some_iff] at hspot
    obtain ⟨inner, hinner, rfl⟩ := hspot
    rw [Spot.next?_indented, h.last inner hinner]
    rfl

end Charted

/-- The lines behind the first ones of a file are charted from the next line on. -/
theorem Expands.chartedFrom {tree : FileTree} {config : Config} {place : Place}
    {text : List Char} {passed : Nat} {spots : List Spot}
    (h : Expands tree config place text passed spots) :
    ChartedFrom config (Spot.of? config place.path text [] (passed + 1)) spots := by
  have hstands := h.stands
  induction h with
  | stop hsize =>
    rw [Spot.of?_of_size_lt (Nat.lt_succ_of_le hsize)]
    exact ⟨by simp, .nil, by simp, by simp, by simp⟩
  | @kept place text passed line spots hline hkept more ih =>
    obtain ⟨hown, hstands⟩ := List.forall_mem_cons.1 hstands
    have hnumber : line.number = passed + 1 := LineTable.numbered_ofText _ _ _ _ hline
    rw [Spot.of?_eq_some_iff.2 ⟨hkept, line, hline, rfl⟩]
    refine .cons hown ?_
    rw [Spot.next?, hnumber]
    exact ih hstands
  | @followed place text content passed directive location inside spots hfollowed hread hchain
      hinside more ih ih' =>
    obtain ⟨-, hstands⟩ := List.forall_mem_append.1 hstands
    have hinner : Charted config inside := by
      refine (ih hinside.stands).charted fun first hfirst => ?_
      rw [Spot.previous?, Spot.number_of_of? hfirst]
      exact Spot.of?_zero
    have houter : Charted config spots := by
      refine (ih' hstands).charted fun first hfirst => ?_
      have hnumber := Spot.number_of_of? hfirst
      obtain ⟨-, line, -, rfl⟩ := Spot.of?_eq_some_iff.1 hfirst
      rw [Spot.previous?, hnumber]
      exact Spot.of?_of_followed? hfollowed
    rw [Spot.of?_of_followed? hfollowed]
    exact ((hinner.indented (Expands.isBlank_of_followed? hfollowed)).append houter).chartedFrom

/-- An expansion of a whole text is charted. -/
theorem Expands.charted {tree : FileTree} {config : Config} {place : Place} {text : List Char}
    {spots : List Spot} (h : Expands tree config place text 0 spots) : Charted config spots := by
  refine h.chartedFrom.charted fun first hfirst => ?_
  rw [Spot.previous?, Spot.number_of_of? hfirst]
  exact Spot.of?_zero

/-! ## Along a file -/

namespace Charted

variable {config : Config} {spots : List Spot} {i count marker : Nat} {a b spot : Spot}

theorem number_le_size (h : Charted config spots) (ha : spots[i]? = some a) :
    a.line.number ≤ (a.table config).size :=
  LineTable.le_size_of_get? (h.stands a (List.mem_of_getElem? ha)).line

theorem next (h : Charted config spots) (ha : spots[i]? = some a)
    (hb : a.next? config = some b) : spots[i + 1]? = some b := by
  obtain ⟨hi, rfl⟩ := List.getElem?_eq_some_iff.1 ha
  rcases Nat.lt_or_ge (i + 1) spots.length with hlt | hge
  · rcases List.isChain_iff_getElem.1 h.chain i hlt with hnext | ⟨hnone, -⟩
    · rw [List.getElem?_eq_getElem hlt, ← hb, hnext]
    · rw [hnone] at hb
      cases hb
  · have hlast : spots.getLast? = some spots[i] := by
      rw [List.getLast?_eq_getElem?, ← ha]
      congr 1
      omega
    rw [h.last _ hlast] at hb
    cases hb

theorem previous (h : Charted config spots) (hb : spots[i]? = some b)
    (ha : b.previous? config = some a) : ∃ j, i = j + 1 ∧ spots[j]? = some a := by
  cases i with
  | zero =>
    rw [← List.head?_eq_getElem?] at hb
    rw [h.head b hb] at ha
    cases ha
  | succ j =>
    refine ⟨j, rfl, ?_⟩
    obtain ⟨hj, rfl⟩ := List.getElem?_eq_some_iff.1 hb
    rcases List.isChain_iff_getElem.1 h.chain j hj with hnext | ⟨-, hnone⟩
    · have hstands := h.stands _ (List.getElem_mem (Nat.lt_of_succ_lt hj))
      rw [Spot.previous?_of_next? hstands hnext] at ha
      rw [← ha]
      exact List.getElem?_eq_getElem _
    · rw [hnone] at ha
      cases ha

/-- The lines behind a line of a file follow it in the flat text, as long as they are kept. -/
theorem exists_ahead (h : Charted config spots) (ha : spots[i]? = some a)
    (hkept : ∀ d, 0 < d → d ≤ count →
      (a.table config).followed? config (a.line.number + d) = none)
    (hsize : a.line.number + count ≤ (a.table config).size) {d : Nat} (hd : d ≤ count) :
    ∃ line, (a.table config).get? (a.line.number + d) = some line ∧
      spots[i + d]? = some { a with line } := by
  have hstands := h.stands a (List.mem_of_getElem? ha)
  induction d with
  | zero => exact ⟨a.line, hstands.line, ha⟩
  | succ d ih =>
    obtain ⟨line, hline, hspot⟩ := ih (Nat.le_of_succ_le hd)
    have hnumber : line.number = a.line.number + d := LineTable.numbered_ofText _ _ _ _ hline
    obtain ⟨line', hline'⟩ := (a.table config).exists_get? (a.line.number + (d + 1))
      (by omega) (by omega)
    refine ⟨line', hline', h.next hspot (Spot.of?_eq_some_iff.2 ?_)⟩
    rw [hnumber]
    exact ⟨hkept (d + 1) (Nat.succ_pos d) hd, line', hline', rfl⟩

/-- The lines in front of a line of a file stand in front of it in the flat text, as long
as they are kept. -/
theorem exists_back (h : Charted config spots) (ha : spots[i]? = some a) (hpos : 0 < marker)
    (hle : marker ≤ a.line.number)
    (hkept : ∀ n, marker ≤ n → n < a.line.number → (a.table config).followed? config n = none) :
    ∃ j line, i = j + (a.line.number - marker) ∧ (a.table config).get? marker = some line ∧
      spots[j]? = some { a with line } := by
  induction hdistance : a.line.number - marker generalizing i a with
  | zero =>
    have hstands := h.stands a (List.mem_of_getElem? ha)
    obtain rfl : marker = a.line.number := by omega
    exact ⟨i, a.line, rfl, hstands.line, ha⟩
  | succ distance ih =>
    have hsize := h.number_le_size ha
    obtain ⟨before, hbefore⟩ := (a.table config).exists_get? (a.line.number - 1)
      (by omega) (by omega)
    have hnumber : before.number = a.line.number - 1 := LineTable.numbered_ofText _ _ _ _ hbefore
    have hprevious : a.previous? config = some { a with line := before } :=
      Spot.of?_eq_some_iff.2 ⟨hkept _ (by omega) (by omega), before, hbefore, rfl⟩
    obtain ⟨j, rfl, hj⟩ := h.previous ha hprevious
    obtain ⟨k, line, rfl, hline, hk⟩ := ih (a := { a with line := before }) hj
      (by dsimp only; omega) (fun n hn hlt => hkept n hn (by dsimp only at hlt; omega))
      (by dsimp only; omega)
    exact ⟨k, line, by omega, hline, hk⟩

/-! ## Lines of the flat text -/

/-- The lines of the flat text. -/
def flatTable (config : Config) (spots : List Spot) : LineTable :=
  .ofText config.tabWidth (flatText (spots.map Spot.flatLine))

/-- The line that a spot becomes stands in the flat text behind the blanks. -/
theorem exists_moved (h : Charted config spots) (ha : spots[i]? = some a) :
    ∃ moved, (flatTable config spots).get? (i + 1) = some moved ∧
      a.line.Indents (indentWidth config.tabWidth a.shift) moved ∧
      (Directive.ofLine? moved.chars).isSome = (Directive.ofLine? a.line.chars).isSome := by
  have hstands := h.stands a (List.mem_of_getElem? ha)
  rw [flatTable, LineTable.get?_ofText, splitLines_flatText h.stands, List.getElem?_map, ha]
  refine ⟨_, rfl, ?_, ?_⟩
  · obtain ⟨-, -, -, hindent, -⟩ := LineTable.exists_of_get?_ofText hstands.line
    exact Line.indents_of_chars hstands.shift a.chars_flatLine hindent rfl
  · exact hstands.isSome_ofLine?_flatLine

/-- Every line of the flat text comes from a spot. -/
theorem exists_spot (h : Charted config spots) {moved : Line}
    (hmoved : (flatTable config spots).get? (i + 1) = some moved) :
    ∃ a, spots[i]? = some a ∧
      (Directive.ofLine? moved.chars).isSome = (Directive.ofLine? a.line.chars).isSome := by
  cases hspot : spots[i]? with
  | none =>
    rw [flatTable, LineTable.get?_ofText, splitLines_flatText h.stands, List.getElem?_map,
      hspot] at hmoved
    cases hmoved
  | some a =>
    obtain ⟨moved', hmoved', -, hsame⟩ := h.exists_moved hspot
    obtain rfl : moved = moved' := Option.some.inj (hmoved.symm.trans hmoved')
    exact ⟨a, rfl, hsame⟩

/-- A marker of a file is one in the flat text. -/
theorem any_isMarker_eq (h : Charted config spots) (ha : spots[i]? = some a) :
    ((flatTable config spots).get? (i + 1)).any Line.isMarker = a.line.isMarker := by
  obtain ⟨moved, hmoved, hindents, -⟩ := h.exists_moved ha
  rw [hmoved, Option.any_some, hindents.isMarker]

/-- The lines of a file that are kept stand in the flat text beside each other. -/
theorem beside (h : Charted config spots) (ha : spots[i]? = some a)
    (hkept : ∀ d, 0 < d → d ≤ count →
      (a.table config).followed? config (a.line.number + d) = none)
    (hsize : a.line.number + count ≤ (a.table config).size) :
    LineTable.Beside (indentWidth config.tabWidth a.shift) (a.table config)
      (flatTable config spots) a.line.number (i + 1) count := by
  intro d hd
  obtain ⟨line, hline, hspot⟩ := h.exists_ahead ha hkept hsize hd
  obtain ⟨moved, hmoved, hindents, -⟩ := h.exists_moved hspot
  refine ⟨line, moved, hline, ?_, hindents⟩
  rw [Nat.add_right_comm]
  exact hmoved

/-! ## Bodies in a flat text -/

/-- A body that is open in a file at a line runs on to the line in the flat text, from the
line of its marker. -/
theorem exists_runsTo (h : Charted config spots) (ha : spots[i]? = some a)
    (hcovers : (a.table config).Covers marker a.line.number) :
    ∃ j line, i = j + (a.line.number - marker) ∧ (a.table config).get? marker = some line ∧
      line.isMarker = true ∧ spots[j]? = some { a with line } ∧
      (flatTable config spots).RunsTo (j + 1) (i + 1) := by
  have hnumbered : (a.table config).Numbered := LineTable.numbered_ofText _ _
  have hkept : ∀ n, marker ≤ n → n ≤ a.line.number →
      (a.table config).followed? config n = none := by
    intro n hn hle
    have hbefore : (a.table config).Covers marker n :=
      ⟨hcovers.opens, hn, hcovers.runs.mono hle⟩
    exact hbefore.followed?_eq_none hnumbered
  obtain ⟨j, line, hi, hline, hj⟩ := h.exists_back ha hcovers.opens.pos hcovers.le
    fun n hn hlt => hkept n hn (Nat.le_of_lt hlt)
  have hnumber : line.number = marker := hnumbered _ _ hline
  have hmarker : line.isMarker = true := by
    have hany := hcovers.opens.isMarker
    rwa [hline, Option.any_some] at hany
  have hsize := h.number_le_size ha
  have hle := hcovers.le
  have hbeside : LineTable.Beside (indentWidth config.tabWidth a.shift) (a.table config)
      (flatTable config spots) line.number (j + 1) (a.line.number - marker) :=
    h.beside hj (fun d _ hd => hkept _ (by dsimp only; omega) (by dsimp only; omega)) (by
      show line.number + (a.line.number - marker) ≤ (a.table config).size
      omega)
  refine ⟨j, line, hi, hline, hmarker, hj, ?_⟩
  have hruns := (hbeside.runsTo_iff (Nat.le_refl _)).2
  rw [hnumber, Nat.add_sub_cancel' hle] at hruns
  have hi' : j + 1 + (a.line.number - marker) = i + 1 := by omega
  rw [hi'] at hruns
  exact hruns hcovers.runs

/-- A directive of the flat text was not followed, because it stands in a body of its
file. -/
theorem exists_covers_of_directive (h : Charted config spots) {moved : Line}
    (hfollow : config.followImports = true)
    (hmoved : (flatTable config spots).get? (i + 1) = some moved)
    (hdirective : (Directive.ofLine? moved.chars).isSome = true) :
    ∃ a marker, spots[i]? = some a ∧ marker < a.line.number ∧
      (a.table config).Covers marker a.line.number := by
  obtain ⟨a, ha, hsame⟩ := h.exists_spot hmoved
  have hstands := h.stands a (List.mem_of_getElem? ha)
  obtain ⟨marker, hlt, hcovers⟩ := LineTable.exists_covers_of_directive
    (LineTable.numbered_ofText _ _) hfollow hstands.line (hsame.symm.trans hdirective)
    hstands.kept
  exact ⟨a, marker, ha, hlt, hcovers⟩

/-- A body that ends in its file ends in the flat text at the same line, and the lines up
to there stay together. -/
theorem exists_end (h : Charted config spots) (ha : spots[i]? = some a)
    (hopens : (a.table config).Opens a.line.number)
    (hends : (a.table config).EndsItself config a.line.number) :
    ∃ count, (∀ d, d ≤ count → ∃ line, (a.table config).get? (a.line.number + d) = some line ∧
        spots[i + d]? = some { a with line }) ∧
      (∀ d, d < count → (a.table config).Covers a.line.number (a.line.number + d)) ∧
      ∀ n, (flatTable config spots).RunsTo (i + 1) n → n ≤ i + count := by
  obtain ⟨count, hpos, hruns, hstop, hfollowed⟩ := hends
  have hcovers : ∀ d, d < count →
      (a.table config).Covers a.line.number (a.line.number + d) :=
    fun d hd => ⟨hopens, Nat.le_add_right _ d, hruns.mono (by omega)⟩
  have hkept : ∀ d, 0 < d → d ≤ count →
      (a.table config).followed? config (a.line.number + d) = none := by
    intro d _ hd
    rcases Nat.lt_or_eq_of_le hd with hlt | rfl
    · exact (hcovers d hlt).followed?_eq_none (LineTable.numbered_ofText _ _)
    · exact hfollowed
  obtain ⟨line, hline, hnot⟩ := Option.any_eq_true _ _ |>.1 hstop
  have hsize := LineTable.le_size_of_get? hline
  refine ⟨count, fun d hd => h.exists_ahead ha hkept hsize hd, hcovers, fun n hn => ?_⟩
  by_contra hlt
  obtain ⟨moved, hmoved, hcontinues⟩ :=
    Option.any_eq_true _ _ |>.1 (hn (i + 1 + count) (by omega) (by omega))
  rw [(h.beside ha hkept hsize).continues_eq hpos (Nat.le_refl _) hline hmoved] at hcontinues
  rw [hcontinues] at hnot
  cases hnot

end Charted

end BlockLexer
