import BlockLexer.Proofs.Remarks
import BlockLexer.Proofs.Resembling
import BlockLexer.Proofs.Settled

/-!
# Texts around a comment

The characters behind a semicolon may be replaced by others.  This module says what that
leaves as it is: the lines but for one, what a table says of that one, and the imports.

* `Surroundings` is what stands around such characters in a text with plain line ends, and
  `Surroundings.text` is the text with characters put there.
* `exists_surroundings`: any text with a semicolon comes to such a text when its line ends
  are made plain.
* `Surroundings.get?_same` and `Surroundings.agreesBehind` compare the tables of two such texts,
  and `Surroundings.isSettled` says that none of them has imports if one has none.
-/

namespace BlockLexer

open Text Pattern Lexeme Import

/-! ## Line ends -/

namespace Text

/-- The characters of a comment stay as they are. -/
theorem toLineFeeds_remark {remark : List Char} (h : '\r' ∉ remark) (front behind : List Char) :
    toLineFeeds (front ++ ';' :: (remark ++ behind)) =
      toLineFeeds front ++ ';' :: (remark ++ toLineFeeds behind) := by
  have hremark : '\r' ∉ ';' :: remark := by simpa using h
  rw [toLineFeeds_append_cons (by decide)]
  exact congrArg (_ ++ ·) (toLineFeeds_append hremark behind)

/-- What follows a part of a line ends the line and goes on with other lines. -/
theorem exists_splitLines_append (cs : List Char) :
    ∃ tail below, '\n' ∉ tail ∧ (∀ line ∈ below, '\n' ∉ line) ∧
      ∀ part, part ≠ [] → '\n' ∉ part → splitLines (part ++ cs) = (part ++ tail) :: below := by
  refine ⟨cs.takeWhile (· ≠ '\n'), splitLines (cs.dropWhile (· ≠ '\n')).tail, fun hfeed => ?_,
    fun line hline => lineFeed_not_mem_of_mem_splitLines hline, fun part hne hpart => ?_⟩
  · simpa using List.mem_takeWhile_imp hfeed
  · have hall : ∀ c ∈ part, (c ≠ '\n' : Bool) = true := fun c hc => by
      simpa using ne_of_mem_of_not_mem hc hpart
    rw [splitLines_eq_cons (by simp [hne]), List.takeWhile_append_of_pos hall,
      List.dropWhile_append_of_pos hall]

end Text

/-! ## Surroundings -/

/-- What stands around the characters behind a semicolon: the lines above, the part of the line
in front of the semicolon, the part of the line behind the characters, and the lines below. -/
structure Surroundings where
  above : List (List Char)
  front : List Char
  tail : List Char
  below : List (List Char)
  above_free : ∀ line ∈ above, '\n' ∉ line
  front_free : '\n' ∉ front
  tail_free : '\n' ∉ tail
  below_free : ∀ line ∈ below, '\n' ∉ line

namespace Surroundings

variable (around : Surroundings) {remark remark' : List Char}

/-- What stands on the line behind the semicolon, with characters put there. -/
def comment (remark : List Char) : List Char :=
  remark ++ around.tail

/-- The lines, with characters put behind the semicolon. -/
def lines (remark : List Char) : List (List Char) :=
  around.above ++ (around.front ++ ';' :: around.comment remark) :: around.below

/-- The text, with characters put behind the semicolon. -/
def text (remark : List Char) : List Char :=
  unlines (around.lines remark)

/-- What stands behind the semicolon, with characters put there. -/
def rest (remark : List Char) : List Char :=
  around.comment remark ++ '\n' :: unlines around.below

/-- What stands in front of the semicolon. -/
def passed : List Char :=
  unlines around.above ++ around.front

/-- The number of the line with the semicolon. -/
def number : Nat :=
  around.above.length + 1

theorem text_eq (remark : List Char) :
    around.text remark = around.passed ++ ';' :: around.rest remark := by
  simp [text, lines, passed, rest, unlines]

theorem comment_free (h : '\n' ∉ remark) : '\n' ∉ around.comment remark := by
  simp [comment, h, around.tail_free]

theorem splitLines_text (h : '\n' ∉ remark) :
    splitLines (around.text remark) = around.lines remark := by
  refine splitLines_unlines _ fun line hline => ?_
  rcases List.mem_append.1 hline with habove | hline
  · exact around.above_free line habove
  rcases List.mem_cons.1 hline with rfl | hbelow
  · simp [around.front_free, around.comment_free h]
  · exact around.below_free line hbelow

end Surroundings

/-- A text with a semicolon comes to its surroundings, whatever stands behind the semicolon. -/
theorem exists_surroundings (front behind : List Char) :
    ∃ around : Surroundings, ∀ remark, '\n' ∉ remark → '\r' ∉ remark →
      normalizeNewlines (front ++ ';' :: (remark ++ behind)) = around.text remark ∧
        normalizeNewlines (';' :: (remark ++ behind)) = ';' :: around.rest remark := by
  obtain ⟨above, last, hfront, hlast, habove⟩ := exists_unlines_append (toLineFeeds front)
  obtain ⟨tail, below, htail, hbelow, hlines⟩ := exists_splitLines_append (toLineFeeds behind)
  refine ⟨⟨above, last, tail, below, habove, hlast, htail, hbelow⟩, fun remark hfeed hreturn => ?_⟩
  have hsplit (part : List Char) (hpart : '\n' ∉ part) :
      splitLines (part ++ ';' :: (remark ++ toLineFeeds behind)) =
        (part ++ ';' :: (remark ++ tail)) :: below := by
    have h := hlines (part ++ ';' :: remark) (by simp) (by simp [hpart, hfeed])
    rwa [List.append_assoc, List.cons_append, List.append_assoc, List.cons_append] at h
  constructor
  · rw [normalizeNewlines_eq_unlines, toLineFeeds_remark hreturn, hfront, List.append_assoc,
      splitLines_unlines_append habove, hsplit last hlast]
    rfl
  · have hremark := toLineFeeds_remark hreturn [] behind
    rw [List.nil_append] at hremark
    rw [normalizeNewlines_eq_unlines, hremark]
    have hnil := hsplit [] List.not_mem_nil
    rw [List.nil_append, List.nil_append] at hnil
    show unlines (splitLines (';' :: (remark ++ toLineFeeds behind))) = _
    rw [hnil, unlines_cons]
    rfl

/-! ## The line -/

/-- A line looks the same whatever stands behind its semicolon. -/
theorem Line.resembles_of_chars {line line' : Line} {tabWidth : Nat} {front more more' : List Char}
    (hnumber : line'.number = line.number) (hchars : line.chars = front ++ ';' :: more)
    (hchars' : line'.chars = front ++ ';' :: more')
    (hindent : line.indent = indentWidth tabWidth line.chars)
    (hindent' : line'.indent = indentWidth tabWidth line'.chars) : line.Resembles line' := by
  have hblank (more : List Char) : (front ++ ';' :: more).takeWhile Text.isBlank = _ ∧
      (front ++ ';' :: more).dropWhile Text.isBlank = _ := takeWhile_append_stop rfl front more
  have hstop (front more : List Char) : (front ++ ';' :: more).takeWhile (· ≠ ';') = _ ∧
      (front ++ ';' :: more).dropWhile (· ≠ ';') = _ := takeWhile_append_stop rfl front more
  refine ⟨hnumber, ?_, ?_, ?_⟩
  · rw [hindent, hindent', hchars, hchars', indentWidth, indentWidth, (hblank more).1,
      (hblank more').1]
  · rw [content, content, hchars, hchars', (hblank more).2, (hblank more').2, (hstop _ more).1,
      (hstop _ more').1]
  · rw [comment?, comment?, hchars, hchars', (hstop front more).2, (hstop front more').2]
    cases front.dropWhile (· ≠ ';') <;> rfl

/-- Whether a pattern takes up a text does not depend on what stands behind a semicolon, as long
as that is on the line. -/
def Pattern.FinishesAlike (a : Pattern) : Prop :=
  ∀ text more more', '\n' ∉ more' → (∃ x, a (text ++ ';' :: more) = some (x, [])) →
    ∃ x, a (text ++ ';' :: more') = some (x, [])

theorem Pattern.StopsAt.seq_finishesAlike {a b : Pattern} (ha : StopsAt ';' a) (hcut : IsCut a)
    (hb : FinishesAlike b) : FinishesAlike (a.seq b) := by
  rintro text more more' hmore ⟨x, hx⟩
  obtain ⟨y, z, between, hy, hz, -⟩ := exists_of_seq_eq_some hx
  rcases ha.cases hcut text with hnone | ⟨taken, left, rfl, hsome⟩
  · cases (hnone more).symm.trans hy
  · obtain ⟨-, rfl⟩ := Prod.mk.inj (Option.some.inj ((hsome more).symm.trans hy))
    obtain ⟨z', hz'⟩ := hb left more more' hmore ⟨z, hz⟩
    exact ⟨taken ++ z', seq_eq_some (hsome more') hz'⟩

theorem Lexeme.finishesAlike_remark : FinishesAlike remark.optional := by
  rintro text more more' hmore ⟨x, hx⟩
  have remark_eq (cs : List Char) :
      remark (';' :: cs) = some (';' :: cs.takeWhile inLine, cs.dropWhile inLine) := rfl
  have hall {cs : List Char} (hcs : '\n' ∉ cs) : cs.dropWhile inLine = [] := by
    rw [List.dropWhile_eq_nil_iff]
    intro c hc
    simpa [inLine] using ne_of_mem_of_not_mem hc hcs
  unfold Pattern.optional Pattern.orElse at hx ⊢
  cases text with
  | nil => exact ⟨';' :: more'.takeWhile inLine, by rw [List.nil_append, remark_eq, hall hmore]⟩
  | cons c text =>
    by_cases hc : c = ';'
    · subst hc
      rw [List.cons_append, remark_eq] at hx
      have hdrop : (text ++ ';' :: more).dropWhile inLine = [] :=
        (Prod.mk.inj (Option.some.inj hx)).2
      have htext : '\n' ∉ text := by
        intro hfeed
        have hin := List.dropWhile_eq_nil_iff.1 hdrop '\n' (List.mem_append_left _ hfeed)
        cases hin
      refine ⟨';' :: (text ++ ';' :: more').takeWhile inLine, ?_⟩
      rw [List.cons_append, remark_eq, hall (by simp [htext, hmore])]
    · simp [remark, Pattern.seq, one, hc, nothing] at hx

/-- Whether a line is an import does not depend on what stands behind a semicolon of it. -/
theorem Import.Directive.isSome_ofLine?_remark {front more more' : List Char} (h : '\n' ∉ more')
    (hsome : (ofLine? (front ++ ';' :: more)).isSome = true) :
    (ofLine? (front ++ ';' :: more')).isSome = true := by
  have hstop : IsStop ';' := .inr rfl
  have hfinishes : FinishesAlike directive :=
    (stopsAt_gap hstop).seq_finishesAlike (isCut_many _) <|
      (stopsAt_wordCaseless (by decide)).seq_finishesAlike (isCut_wordCaseless _) <|
        (stopsAt_blanks hstop).seq_finishesAlike (isCut_many1 _) <|
          (stopsAt_many1 rfl).seq_finishesAlike (isCut_many1 _) <|
            (stopsAt_gap hstop).seq_finishesAlike (isCut_many _) finishesAlike_remark
  rw [isSome_ofLine?_iff] at hsome ⊢
  exact hfinishes front more more' h hsome

/-! ## Tables -/

section Resembling

variable {table table' : LineTable}

theorem Import.BodyMemory.pass_of_resembles {line line' : Line} (memory : BodyMemory)
    (hbody : table'.bodyIndent line.number = table.bodyIndent line.number)
    (h : line.Resembles line') : memory.pass table' line' = memory.pass table line := by
  unfold pass
  rw [h.isMarker_eq, h.isBlank_eq, h.indent, h.number, hbody]

/-- Tables that look the same remember the same bodies. -/
theorem LineTable.memoryBehind_of_resembles
    (h : ∀ n, Option.Rel Line.Resembles (table.get? n) (table'.get? n)) (number : Nat) :
    table'.memoryBehind number = table.memoryBehind number := by
  have hbody (n : Nat) : table'.bodyIndent n = table.bodyIndent n :=
    bodyIndent_of_rel (forall₂_drop_of_rel n fun i _ => h i)
  have hfold {lines lines' : List Line} (hlines : List.Forall₂ Line.Resembles lines lines') :
      ∀ memory : BodyMemory, lines'.foldl (fun memory line => (memory.pass table' line).2) memory =
        lines.foldl (fun memory line => (memory.pass table line).2) memory := by
    induction hlines with
    | nil => exact fun _ => rfl
    | cons hline _ ih =>
      intro memory
      rw [List.foldl_cons, List.foldl_cons, memory.pass_of_resembles (hbody _) hline, ih]
  exact hfold (List.forall₂_take number (forall₂_drop_of_rel 0 fun i _ => h i)) none

end Resembling

namespace Surroundings

variable (around : Surroundings) {remark remark' : List Char} (tabWidth : Nat)

theorem getElem?_lines_of_ne {n : Nat} (hn : n ≠ around.above.length) :
    (around.lines remark')[n]? = (around.lines remark)[n]? := by
  unfold lines
  rw [List.getElem?_append, List.getElem?_append]
  split
  · rfl
  · obtain ⟨i, hi⟩ := Nat.exists_eq_succ_of_ne_zero (n := n - around.above.length) (by omega)
    rw [hi, List.getElem?_cons_succ, List.getElem?_cons_succ]

theorem getElem?_lines_length :
    (around.lines remark)[around.above.length]? =
      some (around.front ++ ';' :: around.comment remark) := by
  unfold lines
  rw [List.getElem?_append_right (Nat.le_refl _), Nat.sub_self, List.getElem?_cons_zero]

section Pairs

variable (hfree : '\n' ∉ remark) (hfree' : '\n' ∉ remark')

include hfree hfree'

/-- All lines but one are the same in two texts that differ in the characters of a comment. -/
theorem get?_same {n : Nat} (hn : n ≠ around.number) :
    Option.Rel Line.Same ((LineTable.ofText tabWidth (around.text remark)).get? n)
      ((LineTable.ofText tabWidth (around.text remark')).get? n) := by
  cases n with
  | zero => exact .none
  | succ n =>
    refine LineTable.same_of_getElem? tabWidth ?_
    rw [around.splitLines_text hfree, around.splitLines_text hfree']
    exact around.getElem?_lines_of_ne fun h => hn (congrArg Nat.succ h)

/-- The line with the comment looks the same in both. -/
theorem exists_get?_number :
    ∃ line line', (LineTable.ofText tabWidth (around.text remark)).get? around.number = some line ∧
      (LineTable.ofText tabWidth (around.text remark')).get? around.number = some line' ∧
      line.chars = around.front ++ ';' :: around.comment remark ∧
      line'.chars = around.front ++ ';' :: around.comment remark' ∧ line.Resembles line' := by
  rw [number, LineTable.get?_ofText, LineTable.get?_ofText, around.splitLines_text hfree,
    around.splitLines_text hfree', getElem?_lines_length, getElem?_lines_length]
  exact ⟨_, _, rfl, rfl, rfl, rfl, Line.resembles_of_chars rfl rfl rfl rfl rfl⟩

theorem get?_resembles (n : Nat) :
    Option.Rel Line.Resembles ((LineTable.ofText tabWidth (around.text remark)).get? n)
      ((LineTable.ofText tabWidth (around.text remark')).get? n) := by
  by_cases hn : n = around.number
  · obtain ⟨line, line', hline, hline', -, -, h⟩ :=
      around.exists_get?_number tabWidth hfree hfree'
    rw [hn, hline, hline']
    exact .some h
  · exact resembles_of_rel (around.get?_same tabWidth hfree hfree' hn)

/-- Behind the line with the comment both tables are the same. -/
theorem agreesBehind :
    LineTable.AgreesBehind around.number (.ofText tabWidth (around.text remark))
      (.ofText tabWidth (around.text remark')) :=
  ⟨rfl, LineTable.forall₂_drop_of_rel _ fun _ hn =>
    around.get?_same tabWidth hfree hfree' (Nat.ne_of_gt hn)⟩

/-- A text without imports has none with another comment. -/
theorem isSettled {config : Config} (h : IsSettled config (around.text remark)) :
    IsSettled config (around.text remark') := by
  intro n
  have hresembles := around.get?_resembles config.tabWidth hfree hfree'
  have hmemory := LineTable.memoryBehind_of_resembles hresembles (n - 1)
  have hbody (n : Nat) := LineTable.bodyIndent_of_rel
    (LineTable.forall₂_drop_of_rel n fun i _ => hresembles i)
  have hdirective : ∀ line line', (LineTable.ofText config.tabWidth (around.text remark)).get? n =
      some line → (LineTable.ofText config.tabWidth (around.text remark')).get? n = some line' →
      (Directive.ofLine? line'.chars).isSome = true → (Directive.ofLine? line.chars).isSome = true := by
    intro line line' hline hline'
    by_cases hn : n = around.number
    · obtain ⟨_, _, hget, hget', hchars, hchars', -⟩ :=
        around.exists_get?_number config.tabWidth hfree hfree'
      rw [hn, hget] at hline
      rw [hn, hget'] at hline'
      cases hline
      cases hline'
      rw [hchars, hchars']
      exact Directive.isSome_ofLine?_remark (around.comment_free hfree)
    · have hsame := around.get?_same config.tabWidth hfree hfree' hn
      rw [hline, hline'] at hsame
      cases hsame with
      | some hsame => rw [hsame.chars]; exact id
  have hnone := h n
  unfold LineTable.followed? at hnone ⊢
  rw [hmemory]
  match hline : (LineTable.ofText config.tabWidth (around.text remark)).get? n,
    hline' : (LineTable.ofText config.tabWidth (around.text remark')).get? n, hresembles n with
  | _, _, .none => rfl
  | _, _, .some (a := line) (b := line') hsame =>
    rw [hline, Option.bind_some] at hnone
    rw [Option.bind_some, BodyMemory.pass_of_resembles _ (hbody _) hsame]
    split
    · next hopen =>
      rw [if_pos hopen] at hnone
      rw [← Option.not_isSome_iff_eq_none] at hnone ⊢
      exact fun hsome => hnone (hdirective line line' hline hline' hsome)
    · rfl

end Pairs

end Surroundings

end BlockLexer
