import BlockLexer.Proofs.Indented
import Mathlib.Data.Nat.Find
import Mathlib.Data.Nat.Init

/-!
# Bodies as the lines of a file tell them

The lines of a file are walked with a memory of the body that is open.  This module
says what is remembered at each line without the walk.

* `LineTable.Covers` is a body that is open behind a line: its marker opens it, and all
  lines behind the marker go on with it.  `LineTable.exists_covers` and
  `LineTable.Covers.memoryBehind_eq` say that just these bodies are remembered.
* `LineTable.followed?` is the directive of a line that an import is followed for.
* `LineTable.Beside` are lines of two tables that differ by the blanks in front of them.
  Their bodies go on with the same lines, as `LineTable.Beside.continues_eq` says.
* `LineTable.EndsItself` is a body that ends in its file.
-/

namespace BlockLexer

open Text Files Import

/-- Whether a line goes on with a body of this indentation. -/
def Line.continues (indent : Nat) (line : Line) : Bool :=
  !line.isMarker && (line.isBlank || indent ≤ line.indent)

theorem Import.BodyMemory.pass_none (table : LineTable) (line : Line) :
    BodyMemory.pass table none line =
      (false, if line.isMarker then some (table.bodyIndent line.number) else none) := by
  unfold pass
  dsimp only
  split <;> rfl

theorem Import.BodyMemory.pass_some (table : LineTable) (indent : Nat) (line : Line) :
    BodyMemory.pass table (some indent) line =
      (line.isMarker || line.continues indent,
        if line.continues indent then some indent else none) := by
  unfold pass Line.continues
  dsimp only
  cases line.isMarker
  · simp only [Bool.not_false, Bool.true_and, Bool.false_or, Bool.false_eq_true, if_false]
    split <;> simp_all
  · rfl

namespace LineTable

variable {table other : LineTable} {config : Config} {line : Line} {marker number indent : Nat}

theorem exists_get? (table : LineTable) (number : Nat) (hpos : 0 < number)
    (hle : number ≤ table.size) : ∃ line, table.get? number = some line := by
  obtain ⟨n, rfl⟩ := Nat.exists_eq_succ_of_ne_zero (Nat.ne_of_gt hpos)
  exact ⟨_, (get?_succ table n).trans (List.getElem?_eq_getElem hle)⟩

theorem pos_of_get? (h : table.get? number = some line) : 0 < number := by
  cases number with
  | zero => cases h
  | succ n => exact Nat.succ_pos n

theorem le_size_of_get? (h : table.get? number = some line) : number ≤ table.size := by
  cases number with
  | zero => cases h
  | succ n =>
    rw [get?_succ] at h
    exact (List.getElem?_eq_some_iff.1 h).1

/-! ## What is remembered -/

/-- The memory of the body that is open behind the first lines. -/
def memoryBehind (table : LineTable) (number : Nat) : BodyMemory :=
  (table.lines.take number).foldl (fun memory line => (memory.pass table line).2) none

@[simp] theorem memoryBehind_zero (table : LineTable) : table.memoryBehind 0 = none := rfl

theorem memoryBehind_succ (h : table.get? (number + 1) = some line) :
    table.memoryBehind (number + 1) = ((table.memoryBehind number).pass table line).2 := by
  rw [get?_succ] at h
  rw [memoryBehind, List.take_add_one, h, List.foldl_append]
  rfl

/-- A marker opens a body if none is open in front of it. -/
structure Opens (table : LineTable) (marker : Nat) : Prop where
  isMarker : (table.get? marker).any Line.isMarker = true
  memory : table.memoryBehind (marker - 1) = none

/-- The lines behind a marker up to a line go on with the body of the marker. -/
def RunsTo (table : LineTable) (marker number : Nat) : Prop :=
  ∀ n, marker < n → n ≤ number →
    (table.get? n).any (Line.continues (table.bodyIndent marker)) = true

/-- The body of a marker is open behind a line. -/
structure Covers (table : LineTable) (marker number : Nat) : Prop where
  opens : table.Opens marker
  le : marker ≤ number
  runs : table.RunsTo marker number

theorem RunsTo.mono (h : table.RunsTo marker number) {n : Nat} (hn : n ≤ number) :
    table.RunsTo marker n :=
  fun i hi hin => h i hi (Nat.le_trans hin hn)

theorem RunsTo.snoc (h : table.RunsTo marker number)
    (hline : table.get? (number + 1) = some line)
    (hcontinues : line.continues (table.bodyIndent marker) = true) :
    table.RunsTo marker (number + 1) := by
  intro n hn hle
  rcases Nat.lt_or_eq_of_le hle with hlt | rfl
  · exact h n hn (Nat.le_of_lt_succ hlt)
  · rw [hline]
    exact hcontinues

theorem runsTo_self (table : LineTable) (marker : Nat) : table.RunsTo marker marker :=
  fun _ hn hle => absurd hle (Nat.not_le_of_lt hn)

theorem Opens.pos (h : table.Opens marker) : 0 < marker := by
  obtain ⟨line, hline, -⟩ := Option.any_eq_true _ _ |>.1 h.isMarker
  exact pos_of_get? hline

theorem Opens.le_size (h : table.Opens marker) : marker ≤ table.size := by
  obtain ⟨line, hline, -⟩ := Option.any_eq_true _ _ |>.1 h.isMarker
  exact le_size_of_get? hline

/-- A body that is open is remembered by its indentation. -/
theorem Covers.memoryBehind_eq (hnumbered : table.Numbered) (h : table.Covers marker number) :
    table.memoryBehind number = some (table.bodyIndent marker) := by
  obtain ⟨hopens, hle, hruns⟩ := h
  induction number, hle using Nat.le_induction with
  | base =>
    obtain ⟨line, hline, hmarker⟩ := Option.any_eq_true _ _ |>.1 hopens.isMarker
    obtain ⟨n, rfl⟩ := Nat.exists_eq_succ_of_ne_zero (Nat.ne_of_gt hopens.pos)
    have hmemory : table.memoryBehind n = none := hopens.memory
    rw [memoryBehind_succ hline, hmemory, BodyMemory.pass_none, hmarker, hnumbered _ _ hline]
    rfl
  | succ number hle ih =>
    have hmemory := ih (hruns.mono (Nat.le_succ number))
    obtain ⟨line, hline, hcontinues⟩ :=
      Option.any_eq_true _ _ |>.1 (hruns (number + 1) (Nat.lt_succ_of_le hle) (Nat.le_refl _))
    rw [memoryBehind_succ hline, hmemory, BodyMemory.pass_some, if_pos hcontinues]

/-- A body that is remembered is open. -/
theorem exists_covers (hnumbered : table.Numbered) (hle : number ≤ table.size)
    (h : table.memoryBehind number = some indent) :
    ∃ marker, table.Covers marker number ∧ table.bodyIndent marker = indent := by
  induction number generalizing indent with
  | zero => cases h
  | succ number ih =>
    obtain ⟨line, hline⟩ := table.exists_get? (number + 1) (Nat.succ_pos number) hle
    rw [memoryBehind_succ hline] at h
    cases hmemory : table.memoryBehind number with
    | none =>
      rw [hmemory, BodyMemory.pass_none, hnumbered _ _ hline] at h
      obtain ⟨hmarker, hindent⟩ := Option.ite_none_right_eq_some.1 h
      have hopens : table.Opens (number + 1) := by
        refine ⟨?_, hmemory⟩
        rw [hline]
        exact hmarker
      exact ⟨number + 1, ⟨hopens, Nat.le_refl _, runsTo_self table _⟩, Option.some.inj hindent⟩
    | some indent' =>
      rw [hmemory, BodyMemory.pass_some] at h
      obtain ⟨hcontinues, hindent⟩ := Option.ite_none_right_eq_some.1 h
      obtain rfl : indent' = indent := Option.some.inj hindent
      obtain ⟨marker, hcovers, rfl⟩ := ih (Nat.le_of_succ_le hle) hmemory
      exact ⟨marker, ⟨hcovers.opens, Nat.le_succ_of_le hcovers.le,
        hcovers.runs.snoc hline hcontinues⟩, rfl⟩

/-! ## Directives that are followed -/

/-- The directive that stands on a line of a file, if imports are followed and the line is
in no body. -/
def followed? (config : Config) (table : LineTable) (number : Nat) : Option Directive :=
  (table.get? number).bind fun line =>
    if config.followImports && !((table.memoryBehind (number - 1)).pass table line).1 then
      Directive.ofLine? line.chars
    else none

theorem followed?_succ (h : table.get? (number + 1) = some line) :
    table.followed? config (number + 1) =
      if config.followImports && !((table.memoryBehind number).pass table line).1 then
        Directive.ofLine? line.chars
      else none := by
  rw [followed?, h]
  rfl

/-- Where no directive stands none is followed. -/
theorem followed?_of_ofLine? (h : table.get? number = some line)
    (hnone : Directive.ofLine? line.chars = none) : table.followed? config number = none := by
  rw [followed?, h]
  simp [hnone]

/-- The lines of a body are not followed, nor is its marker. -/
theorem Covers.followed?_eq_none (hnumbered : table.Numbered) (h : table.Covers marker number) :
    table.followed? config number = none := by
  rcases Nat.lt_or_eq_of_le h.le with hlt | rfl
  · obtain ⟨n, rfl⟩ := Nat.exists_eq_succ_of_ne_zero (Nat.ne_of_gt (Nat.zero_lt_of_lt hlt))
    have hbefore : table.Covers marker n :=
      ⟨h.opens, Nat.le_of_lt_succ hlt, h.runs.mono (Nat.le_succ n)⟩
    obtain ⟨line, hline, hcontinues⟩ :=
      Option.any_eq_true _ _ |>.1 (h.runs _ hlt (Nat.le_refl _))
    rw [followed?_succ hline, hbefore.memoryBehind_eq hnumbered, BodyMemory.pass_some, hcontinues]
    simp
  · obtain ⟨line, hline, hmarker⟩ := Option.any_eq_true _ _ |>.1 h.opens.isMarker
    refine followed?_of_ofLine? hline (Option.not_isSome_iff_eq_none.1 fun hsome => ?_)
    rw [Line.isMarker_of_directive hsome] at hmarker
    cases hmarker

/-- A directive that is not followed stands in a body. -/
theorem exists_covers_of_directive (hnumbered : table.Numbered)
    (hfollow : config.followImports = true) (hline : table.get? number = some line)
    (hdirective : (Directive.ofLine? line.chars).isSome = true)
    (h : table.followed? config number = none) :
    ∃ marker, marker < number ∧ table.Covers marker number := by
  obtain ⟨n, rfl⟩ := Nat.exists_eq_succ_of_ne_zero (Nat.ne_of_gt (pos_of_get? hline))
  rw [Nat.succ_eq_add_one] at hline h
  rw [followed?_succ hline, hfollow, Bool.true_and] at h
  cases hmemory : table.memoryBehind n with
  | none =>
    rw [hmemory, BodyMemory.pass_none, Bool.not_false, if_pos rfl] at h
    rw [h] at hdirective
    cases hdirective
  | some indent =>
    rw [hmemory, BodyMemory.pass_some, Line.isMarker_of_directive hdirective, Bool.false_or] at h
    have hcontinues : line.continues indent = true := by
      cases hstop : line.continues indent with
      | true => rfl
      | false =>
        rw [hstop, Bool.not_false, if_pos rfl] at h
        rw [h] at hdirective
        cases hdirective
    have hle : n ≤ table.size := Nat.le_of_succ_le (le_size_of_get? hline)
    obtain ⟨marker, hcovers, rfl⟩ := exists_covers hnumbered hle hmemory
    exact ⟨marker, Nat.lt_succ_of_le hcovers.le, hcovers.opens, Nat.le_succ_of_le hcovers.le,
      hcovers.runs.snoc hline hcontinues⟩

/-! ## The indentation of a body -/

/-- The indentation of a body is that of its first line that is not blank. -/
theorem bodyIndent_eq {distance : Nat} (hpos : 0 < distance)
    (hline : table.get? (marker + distance) = some line) (hfilled : line.isBlank = false)
    (hblank : ∀ d, 0 < d → d < distance →
      (table.get? (marker + d)).any (fun line => !line.isBlank) = false) :
    table.bodyIndent marker = line.indent := by
  obtain ⟨n, rfl⟩ := Nat.exists_eq_succ_of_ne_zero (Nat.ne_of_gt hpos)
  have hfound : (table.lines.drop marker).find? (fun line => !line.isBlank) = some line := by
    rw [List.find?_eq_some_iff_getElem]
    have hget : (table.lines.drop marker)[n]? = some line := by
      rw [List.getElem?_drop, ← get?_succ]
      exact hline
    obtain ⟨hn, hsame⟩ := List.getElem?_eq_some_iff.1 hget
    refine ⟨by simp [hfilled], n, hn, hsame, ?_⟩
    intro d hd
    have hbefore := hblank (d + 1) (Nat.succ_pos d) (Nat.succ_lt_succ hd)
    rw [← Nat.add_assoc, get?_succ, ← List.getElem?_drop,
      List.getElem?_eq_getElem (Nat.lt_trans hd hn), Option.any_some] at hbefore
    rw [hbefore]
    rfl
  rw [bodyIndent, hfound]
  rfl

/-- Among the lines behind a marker up to a line that is not blank, one is the first
that is not. -/
theorem exists_first_filled {distance : Nat} (hpos : 0 < distance)
    (h : (table.get? (marker + distance)).any (fun line => !line.isBlank) = true) :
    ∃ first, 0 < first ∧ first ≤ distance ∧
      (table.get? (marker + first)).any (fun line => !line.isBlank) = true ∧
      ∀ d, 0 < d → d < first →
        (table.get? (marker + d)).any (fun line => !line.isBlank) = false := by
  let IsFilled (d : Nat) : Prop :=
    0 < d ∧ (table.get? (marker + d)).any (fun line => !line.isBlank) = true
  have hexists : ∃ d, IsFilled d := ⟨distance, hpos, h⟩
  classical
  obtain ⟨hfirst, hfilled⟩ := Nat.find_spec hexists
  refine ⟨Nat.find hexists, hfirst, Nat.find_min' hexists ⟨hpos, h⟩, hfilled, ?_⟩
  intro d hd hlt
  rw [← Bool.not_eq_true]
  exact fun hd' => Nat.find_min hexists hlt ⟨hd, hd'⟩

/-! ## Lines beside each other -/

/-- The `count` lines behind a line of a table stand behind a line of another table, and
so do the two lines, behind more blanks. -/
def Beside (width : Nat) (table other : LineTable) (number number' count : Nat) : Prop :=
  ∀ d, d ≤ count → ∃ line moved, table.get? (number + d) = some line ∧
    other.get? (number' + d) = some moved ∧ line.Indents width moved

variable {width number' count distance : Nat} {moved : Line}

theorem Beside.indents (h : Beside width table other number number' count) (hd : distance ≤ count)
    (hline : table.get? (number + distance) = some line)
    (hmoved : other.get? (number' + distance) = some moved) : line.Indents width moved := by
  obtain ⟨line', moved', hline', hmoved', hindents⟩ := h distance hd
  obtain rfl : line' = line := Option.some.inj (hline'.symm.trans hline)
  obtain rfl : moved' = moved := Option.some.inj (hmoved'.symm.trans hmoved)
  exact hindents

/-- The same lines are blank. -/
theorem Beside.any_filled_eq (h : Beside width table other number number' count)
    (hd : distance ≤ count) :
    (other.get? (number' + distance)).any (fun line => !line.isBlank) =
      (table.get? (number + distance)).any fun line => !line.isBlank := by
  obtain ⟨line, moved, hline, hmoved, hindents⟩ := h distance hd
  rw [hline, hmoved, Option.any_some, Option.any_some, hindents.isBlank]

/-- The bodies of the two lines are indented by what the blanks make out, once one of
their lines is not blank. -/
theorem Beside.bodyIndent_eq (h : Beside width table other number number' count)
    (hpos : 0 < distance) (hd : distance ≤ count)
    (hline : table.get? (number + distance) = some line) (hfilled : line.isBlank = false) :
    other.bodyIndent number' = width + table.bodyIndent number := by
  have hany : (table.get? (number + distance)).any (fun line => !line.isBlank) = true := by
    rw [hline, Option.any_some, hfilled]
    rfl
  obtain ⟨first, hfirst, hle, hfilled', hblank⟩ := exists_first_filled hpos hany
  obtain ⟨line', moved', hline', hmoved', hindents⟩ := h first (Nat.le_trans hle hd)
  have hline'filled : line'.isBlank = false := by
    rw [hline', Option.any_some] at hfilled'
    simpa using hfilled'
  have hmoved'filled : moved'.isBlank = false := hindents.isBlank.trans hline'filled
  have hblank' : ∀ d, 0 < d → d < first →
      (other.get? (number' + d)).any (fun line => !line.isBlank) = false := by
    intro d hdpos hlt
    rw [h.any_filled_eq (by omega)]
    exact hblank d hdpos hlt
  rw [LineTable.bodyIndent_eq hfirst hline' hline'filled hblank,
    LineTable.bodyIndent_eq hfirst hmoved' hmoved'filled hblank', hindents.indent hline'filled]

/-- The two bodies go on with the same lines. -/
theorem Beside.continues_eq (h : Beside width table other number number' count)
    (hpos : 0 < distance) (hd : distance ≤ count)
    (hline : table.get? (number + distance) = some line)
    (hmoved : other.get? (number' + distance) = some moved) :
    moved.continues (other.bodyIndent number') = line.continues (table.bodyIndent number) := by
  have hindents := h.indents hd hline hmoved
  unfold Line.continues
  rw [hindents.isMarker, hindents.isBlank]
  cases hblank : line.isBlank with
  | true => rw [Bool.true_or, Bool.true_or]
  | false =>
    rw [h.bodyIndent_eq hpos hd hline hblank, hindents.indent hblank]
    congr 2
    rw [decide_eq_decide]
    exact Nat.add_le_add_iff_left

/-- So one of them runs to a line if the other one does. -/
theorem Beside.runsTo_iff (h : Beside width table other number number' count)
    (hd : distance ≤ count) :
    other.RunsTo number' (number' + distance) ↔ table.RunsTo number (number + distance) := by
  have hsame : ∀ d, 0 < d → d ≤ distance →
      (other.get? (number' + d)).any (Line.continues (other.bodyIndent number')) =
        (table.get? (number + d)).any (Line.continues (table.bodyIndent number)) := by
    intro d hpos hle
    obtain ⟨line, moved, hline, hmoved, -⟩ := h d (Nat.le_trans hle hd)
    rw [hline, hmoved, Option.any_some, Option.any_some,
      h.continues_eq hpos (Nat.le_trans hle hd) hline hmoved]
  constructor
  · intro hruns n hn hle
    obtain ⟨d, rfl⟩ := Nat.exists_eq_add_of_lt hn
    rw [Nat.add_assoc, ← hsame (d + 1) (Nat.succ_pos d) (by omega)]
    exact hruns _ (by omega) (by omega)
  · intro hruns n hn hle
    obtain ⟨d, rfl⟩ := Nat.exists_eq_add_of_lt hn
    rw [Nat.add_assoc, hsame (d + 1) (Nat.succ_pos d) (by omega)]
    exact hruns _ (by omega) (by omega)

/-! ## Bodies that end in their file -/

/-- The body of a marker ends in its file, before a line that does not go on with it, and
no import stands there. -/
def EndsItself (config : Config) (table : LineTable) (marker : Nat) : Prop :=
  ∃ count, 0 < count ∧ table.RunsTo marker (marker + count - 1) ∧
    (table.get? (marker + count)).any
      (fun line => !line.continues (table.bodyIndent marker)) = true ∧
    table.followed? config (marker + count) = none

end LineTable

end BlockLexer
