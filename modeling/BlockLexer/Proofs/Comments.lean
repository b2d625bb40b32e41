import BlockLexer.Proofs.Commented
import BlockLexer.Proofs.LineEnds
import BlockLexer.Proofs.SkippedImports

/-!
# Comments

Comments are for readers: a scan takes them and yields nothing.  Other stages look at their
lines, though: the line table tells a line with a comment from a blank one, and a line of a
body may have a semicolon.  This module says that the characters of a comment do not matter.

* `Mode.select_comment` is the rule that takes a comment.
* `Surroundings.exists_run`: up to a comment two texts are read in the same way, whatever the
  characters of the comment are.
* `meanings_tokenize_of_comment`: the tokens of both texts mean the same.
-/

namespace BlockLexer

open Text Pattern Lexeme

/-! ## The match of a comment -/

section Selection

variable {mode : Mode} {gap remark : List Char}

theorem Rule.take?_directive_of_remark (hgap : ∀ c ∈ gap, isBlank c = true) (rest : List Char) :
    Rule.take? (gap ++ ';' :: rest) .directive = none := by
  have hnone : Lexeme.directive (gap ++ ';' :: rest) = none := by
    rw [Option.eq_none_iff_forall_ne_some]
    intro cut hcut
    obtain ⟨c, more, hdrop, hc⟩ := exists_of_directive hcut
    rw [List.dropWhile_append_of_pos hgap] at hdrop
    obtain ⟨rfl, -⟩ := List.cons.inj hdrop
    exact absurd hc (by decide)
  rw [take?, match?, Match.ofPattern, hnone]
  rfl

theorem Rule.take?_comment_of_remark (hgap : ∀ c ∈ gap, isBlank c = true) (hremark : '\n' ∉ remark)
    (more : List Char) :
    Rule.take? (gap ++ ';' :: (remark ++ '\n' :: more)) .comment =
      some (.comment, { lexeme := gap ++ ';' :: remark }) := by
  have hall : ∀ c ∈ remark, inLine c = true := by
    intro c hc
    simpa [inLine] using ne_of_mem_of_not_mem hc hremark
  have htake : (remark ++ '\n' :: more).takeWhile inLine = remark :=
    (takeWhile_append hall (stops_cons rfl)).1
  have hcut : Lexeme.comment (gap ++ ';' :: (remark ++ '\n' :: more)) =
      some (gap ++ (';' :: remark), (remark ++ '\n' :: more).dropWhile inLine) := by
    refine seq_eq_some (many_append hgap (stops_cons rfl)) ?_
    show some (';' :: (remark ++ '\n' :: more).takeWhile inLine, _) = _
    rw [htake]
  rw [take?, match?, Match.ofPattern, hcut]
  simp

/-- Where no string and no body is open, what follows a semicolon is a comment up to the end of
the line, together with the blanks in front of it. -/
theorem Mode.select_comment (hmode : mode = .default ∨ mode = .block ∨ mode = .expression)
    (hgap : ∀ c ∈ gap, isBlank c = true) (hremark : '\n' ∉ remark) (more : List Char) :
    mode.select (gap ++ ';' :: (remark ++ '\n' :: more)) =
      some (.comment, { lexeme := gap ++ ';' :: remark }) := by
  have hdirective := Rule.take?_directive_of_remark hgap (remark ++ '\n' :: more)
  have hcomment := Rule.take?_comment_of_remark hgap hremark more
  rcases hmode with rfl | rfl | rfl
  all_goals simp only [select, rules, List.findSome?_cons, hdirective, hcomment]

theorem Mode.of_select_comment {cs : List Char} {m : Match}
    (h : mode.select cs = some (.comment, m)) :
    mode = .default ∨ mode = .block ∨ mode = .expression := by
  have hmem := Scan.mem_rules_of_select h
  cases mode with
  | default => exact .inl rfl
  | block => exact .inr (.inl rfl)
  | expression => exact .inr (.inr rfl)
  | body => cases List.mem_singleton.1 hmem
  | string style =>
    rw [rules] at hmem
    split at hmem <;> simp at hmem

end Selection

/-- A comment is skipped. -/
theorem Scan.exists_skips_comment (table : LineTable) {s : Scan} {gap remark more : List Char}
    (hs : s.isDone = false) (hmode : s.mode = .default ∨ s.mode = .block ∨ s.mode = .expression)
    (hgap : ∀ c ∈ gap, isBlank c = true) (hremark : '\n' ∉ remark)
    (hrest : s.rest = gap ++ ';' :: (remark ++ '\n' :: more)) :
    ∃ t, Skips table ('\n' :: more) s t := by
  have hselect := Mode.select_comment hmode hgap hremark more
  rw [← hrest] at hselect
  refine exists_skips table (.inr rfl) hs hselect ?_ ?_
  · rw [hrest, List.append_assoc, List.cons_append]
  · have hfree : '\n' ∉ gap := not_mem_of_isBlank hgap rfl
    simp [hfree, hremark]

/-! ## In front of the comment -/

namespace Surroundings

open Scan

variable (around : Surroundings) {remark remark' gap : List Char} {tabWidth : Nat}

theorem lineFeed_mem_rest (remark : List Char) : '\n' ∈ around.rest remark :=
  List.mem_append_right _ List.mem_cons_self

/-- As many lines end in front of a comment as stand above it. -/
theorem number_eq_count : around.number = around.passed.count '\n' + 1 := by
  rw [number, passed, List.count_append, count_unlines around.above_free,
    List.count_eq_zero.2 around.front_free]

/-- The blanks in front of a comment are on its line. -/
theorem line_after_of_passed {front : List Char} (hgap : ∀ c ∈ gap, isBlank c = true)
    (h : around.passed = front ++ gap) : (({} : Position).after front).line = around.number := by
  have hblank : gap.count '\n' = 0 := List.count_eq_zero.2 (not_mem_of_isBlank hgap rfl)
  rw [Position.line_after, number_eq_count, h, List.count_append, hblank, Nat.add_comm]
  rfl

/-- Where a comment is left, what stands in front of it is passed. -/
theorem exists_front {s : Scan} (hstands : StandsIn (around.text remark) s)
    (hrest : s.rest = gap ++ ';' :: around.rest remark) :
    ∃ front, around.passed = front ++ gap ∧ around.text remark = front ++ s.rest ∧
      s.position = ({} : Position).after front := by
  obtain ⟨front, htext, hposition⟩ := hstands
  refine ⟨front, ?_, htext, hposition⟩
  rw [around.text_eq, hrest, ← List.append_assoc, List.append_cancel_right_eq] at htext
  exact htext

section Pairs

variable (hfree : '\n' ∉ remark) (hfree' : '\n' ∉ remark') {v v' : Scan} {rule : Rule} {m : Match}

include hfree hfree'

/-- In front of a comment the scans of both texts are in step. -/
theorem inStep (before ahead : List Char) (htwin : Twin v v') (hway : StandsIn (around.text remark) v)
    (hselect : v.mode.select v.rest = some (rule, m))
    (hpassed : around.passed = before ++ (m.lexeme ++ ahead))
    (hrest : v.rest = m.lexeme ++ ahead ++ ';' :: around.rest remark)
    (hrest' : v'.rest = m.lexeme ++ ahead ++ ';' :: around.rest remark') :
    InStep (.ofText tabWidth (around.text remark)) (.ofText tabWidth (around.text remark')) rule m
      v v' := by
  have hresembles := around.get?_resembles tabWidth hfree hfree'
  have hlines (n : Nat) := LineTable.forall₂_drop_of_rel n fun i _ => hresembles i
  refine ⟨?_, ?_, LineTable.indentOf_of_rel (hresembles _)⟩
  · rw [hrest] at hselect
    rw [htwin.mode_eq, hrest']
    refine Mode.select_of_remark hselect ?_ (around.lineFeed_mem_rest remark) _
    rw [List.length_append]
    exact Nat.le_add_right _ _
  · refine Shift.answers_loose rfl (LineTable.numbered_ofText _ _) htwin.line_eq (hresembles _)
      (fun _ _ => LineTable.bodyIndent_of_rel (hlines _))
      (fun _ _ => LineTable.nextContentAfter_of_rel (hlines _))
      fun hbody body outer _ => ⟨hresembles _, fun n _ hn => ?_⟩
    -- A line of a body that ends in front of the semicolon is a line above it.
    subst hbody
    have hfeed := Rule.lineFeed_mem_of_bodyLine (Mode.match?_of_select hselect)
    obtain ⟨passed, htext, hposition⟩ := hway
    rw [around.text_eq, hpassed, hrest, List.append_assoc, List.append_assoc,
      List.append_cancel_right_eq] at htext
    subst htext
    have hcount : 0 < m.lexeme.count '\n' := List.count_pos_iff.2 hfeed
    refine around.get?_same tabWidth hfree hfree' (Nat.ne_of_lt (Nat.lt_of_le_of_lt hn ?_))
    rw [number_eq_count, hpassed, hposition, Position.line_after, List.count_append,
      List.count_append]
    show 1 + _ < _
    omega

/-- Up to a comment both texts are read in the same way. -/
theorem exists_run {start start' s : Scan} {pieces : List Piece} (htwin : Twin start start')
    (hstart : OnWay (.ofText tabWidth (around.text remark)) (around.text remark) start)
    (htext : start.rest = around.text remark) (htext' : start'.rest = around.text remark')
    (hrun : Run (.ofText tabWidth (around.text remark)) start pieces s)
    (hrest : s.rest = gap ++ ';' :: around.rest remark) :
    ∃ pieces' s', Run (.ofText tabWidth (around.text remark')) start' pieces' s' ∧ Twin s s' ∧
      s'.rest = gap ++ ';' :: around.rest remark' ∧ List.Forall₂ Piece.Agrees pieces pieces' := by
  have hstands := (hstart.run (LineTable.numbered_ofText _ _) hrun).stands
  obtain ⟨front, hpassed, hfront, -⟩ := around.exists_front hstands hrest
  refine htwin.exists_run _ hrun (htext.trans hfront) ?_ (by simp [hrest]) ?_
  · rw [htext', around.text_eq, hpassed, List.append_assoc]
  · intro before after v v' passed ahead rule m hbefore _ hv hselect hahead hleft hleft'
    refine around.inStep hfree hfree' passed (ahead ++ gap) hv
      (hstart.run (LineTable.numbered_ofText _ _) hbefore).stands hselect ?_ ?_ ?_
    · rw [hpassed, hahead]
      simp only [List.append_assoc]
    · rw [hleft, hrest]
      simp only [List.append_assoc]
    · rw [hleft']
      simp only [List.append_assoc]

end Pairs

end Surroundings

/-! ## Behind the comment -/

namespace Lexer

open Scan

variable {source source' : Source} {around : Surroundings} {remark remark' gap : List Char}
  {tabWidth : Nat} {pieces : List Piece} {s : Scan} {m : Match}

/-- The tokens of two sources that differ in the characters of a comment mean the same. -/
theorem meanings_of_surroundings (hfree : '\n' ∉ remark) (hfree' : '\n' ∉ remark')
    (htext : source.text = around.text remark) (htext' : source'.text = around.text remark')
    (htable : source.table = .ofText tabWidth source.text)
    (htable' : source'.table = .ofText tabWidth source'.text)
    (hrun : Run source.table (ofSource source).scan pieces s)
    (hselect : s.mode.select s.rest = some (.comment, m))
    (hgap : ∀ c ∈ gap, isBlank c = true) (hrest : s.rest = gap ++ ';' :: around.rest remark) :
    meanings (tokens source') = meanings (tokens source) := by
  rw [htext] at htable
  rw [htext'] at htable'
  have hnumbered : source.table.Numbered := htable ▸ LineTable.numbered_ofText _ _
  have hnumbered' : source'.table.Numbered := htable' ▸ LineTable.numbered_ofText _ _
  have hagrees : LineTable.AgreesBehind around.number source.table source'.table :=
    htable ▸ htable' ▸ around.agreesBehind tabWidth hfree hfree'
  have hstart : OnWay source.table (around.text remark) (ofSource source).scan :=
    onWay_of_start _ htext rfl rfl rfl
  have hway := hstart.run hnumbered hrun
  have hline : s.position.line = around.number := by
    obtain ⟨front, hpassed, -, hposition⟩ := around.exists_front hway.stands hrest
    rw [hposition]
    exact around.line_after_of_passed hgap hpassed
  obtain ⟨pieces', s', hrun', htwin, hrest', hpieces⟩ :
      ∃ pieces' s', Run source'.table (ofSource source').scan pieces' s' ∧ Twin s s' ∧
        s'.rest = gap ++ ';' :: around.rest remark' ∧ List.Forall₂ Piece.Agrees pieces pieces' := by
    have hbegin : Twin (ofSource source).scan (ofSource source').scan :=
      ⟨⟨trivial, rfl, rfl⟩, .nil, rfl, rfl, rfl, rfl⟩
    rw [htable] at hrun hstart
    rw [htable']
    exact around.exists_run hfree hfree' hbegin hstart htext htext' hrun hrest
  -- Both scans skip their comments and take the ends of their lines.
  have hs := hrun.isDone_of_rest rfl (Mode.ne_nil_of_select hselect)
  have hmode := Mode.of_select_comment hselect
  obtain ⟨t, ht⟩ := exists_skips_comment source.table hs hmode hgap (around.comment_free hfree) hrest
  obtain ⟨t', ht'⟩ := exists_skips_comment source'.table (htwin.memories.isDone.trans hs)
    (htwin.mode_eq ▸ hmode) hgap (around.comment_free hfree') hrest'
  have habreast := htwin.abreast ht ht' hmode
  have htline := ht.line.trans hline
  obtain ⟨v, v', piece, piece', hsteps⟩ := habreast.exists_steps source.table source'.table
    fun _ => by
      rw [htline]
      exact LineTable.nextContentAfter_of_rel (hagrees.drop_resembles (Nat.le_refl _))
  have hbefore := hrun.trans (ht.run.trans hsteps.move.run)
  have hbefore' := hrun'.trans (ht'.run.trans hsteps.move'.run)
  refine meanings_of_twins (fun _ => hbefore.leadsTo_iff) (fun _ => hbefore'.leadsTo_iff) ?_ hsteps.twin
    (hsteps.rest'.trans hsteps.rest.symm) hagrees hnumbered hnumbered'
    (onWay_of_run hnumbered hbefore) (onWay_of_run hnumbered' hbefore') ?_
    ((hway.run hnumbered ht.run).opensBehind_of_move hsteps.move _)
  · exact List.rel_append hpieces (.cons hsteps.agrees .nil)
  · rw [hsteps.line, htline]
    exact Nat.lt_succ_self _

end Lexer

/-! ## Texts -/

section Tokenize

open Files

variable {tree : FileTree} {config : Config} {path : Path} {source : Source} {pieces : List Piece}
  {s : Scan} {m : Match}

/-- The characters of a comment do not matter.  Where a text has no imports, and its scan comes
to a semicolon as to a comment, other characters behind it on the line leave the tokens with
the same kinds, values, lines and columns, or the text with a fault. -/
theorem meanings_tokenize_of_comment (front remark remark' behind gap : List Char)
    (hfeed : '\n' ∉ remark) (hreturn : '\r' ∉ remark)
    (hfeed' : '\n' ∉ remark') (hreturn' : '\r' ∉ remark')
    (hsettled : IsSettled config (normalizeNewlines (front ++ ';' :: (remark ++ behind))))
    (hsource : (Source.ofText tree config (front ++ ';' :: (remark ++ behind)) path).outcome =
      .ok source)
    (hrun : Scan.Run source.table (Lexer.ofSource source).scan pieces s)
    (hselect : s.mode.select s.rest = some (.comment, m)) (hgap : ∀ c ∈ gap, isBlank c = true)
    (hrest : s.rest = gap ++ normalizeNewlines (';' :: (remark ++ behind))) :
    meanings (tokenize tree config (front ++ ';' :: (remark' ++ behind)) path) =
      meanings (tokenize tree config (front ++ ';' :: (remark ++ behind)) path) := by
  obtain ⟨around, haround⟩ := exists_surroundings front behind
  obtain ⟨htext, hleft⟩ := haround remark hfeed hreturn
  obtain ⟨htext', -⟩ := haround remark' hfeed' hreturn'
  have hsame {remark : List Char} (hfree : '\n' ∉ remark) :
      unlines (splitLines (around.text remark)) = around.text remark := by
    rw [around.splitLines_text hfree]
    rfl
  have hsettled' : IsSettled config (normalizeNewlines (front ++ ';' :: (remark' ++ behind))) := by
    rw [htext'] at *
    rw [htext] at hsettled
    exact around.isSettled hfeed hfeed' hsettled
  obtain ⟨source₁, hsource₁, hflat, htable⟩ := hsettled.exists_source tree path
  obtain ⟨source', hsource', hflat', htable'⟩ := hsettled'.exists_source tree path
  obtain rfl := Except.ok.inj (hsource.symm.trans hsource₁)
  rw [htext, hsame hfeed] at hflat
  rw [htext', hsame hfeed'] at hflat'
  rw [hleft] at hrest
  unfold tokenize
  rw [hsource, hsource']
  exact Lexer.meanings_of_surroundings hfeed hfeed' hflat hflat' htable htable' hrun hselect hgap
    hrest

/-- A comment may look like a marker and an import. -/
theorem meanings_tokenize_of_comment_like_marker :
    let text := "A ;x\n b = 1\nend".toList
    let text' := "A ;---;import y\n b = 1\nend".toList
    ∃ source pieces s m, (Source.ofText ⟨[], []⟩ {} text textOrigin).outcome = .ok source ∧
      Scan.Run source.table (Lexer.ofSource source).scan pieces s ∧
      s.mode.select s.rest = some (.comment, m) ∧
      meanings (tokenize ⟨[], []⟩ {} text' textOrigin) =
        meanings (tokenize ⟨[], []⟩ {} text textOrigin) ∧
      (meanings (tokenize ⟨[], []⟩ {} text textOrigin)).map (List.map Prod.fst) =
        some [.className, .attributeName, .integer, .blockEnd, .endOfText] := by
  intro text text'
  have hwalk : (Source.ofText ⟨[], []⟩ {} text textOrigin).outcome.map (fun source =>
      (Scan.walk source.table 1 (Lexer.ofSource source).scan).map fun s =>
        (s.rest, (s.mode.select s.rest).map Prod.fst)) =
      .ok (some (" ;x\n b = 1\nend\n".toList, some .comment)) := by
    decide +kernel
  have hkinds : (meanings (tokenize ⟨[], []⟩ {} text textOrigin)).map (List.map Prod.fst) =
      some [.className, .attributeName, .integer, .blockEnd, .endOfText] := by
    decide +kernel
  have hplain : ∀ line ∈ splitLines (normalizeNewlines text), Import.Directive.ofLine? line = none := by
    decide +kernel
  obtain ⟨source, hsource, hstate⟩ := exists_of_map_eq_ok hwalk
  obtain ⟨s, hs, hstate⟩ := Option.map_eq_some_iff.1 hstate
  obtain ⟨hrest, hselect⟩ := Prod.mk.inj hstate
  obtain ⟨⟨rule, m⟩, hselect, rfl⟩ := Option.map_eq_some_iff.1 hselect
  obtain ⟨pieces, hrun⟩ := Scan.exists_run_of_walk hs
  have hsame := meanings_tokenize_of_comment ['A', ' '] ['x'] "---;import y".toList
    "\n b = 1\nend".toList [' ']
    (by decide) (by decide) (by decide) (by decide) (isSettled_of_lines hplain) hsource hrun hselect
    (by simp [isBlank]) hrest
  exact ⟨source, pieces, s, m, hsource, hrun, hselect, hsame, hkinds⟩

end Tokenize

end BlockLexer
