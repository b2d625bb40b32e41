import BlockLexer.Proofs.Concatenation
import BlockLexer.Proofs.Pushed

/-!
# Texts that only import a file

A file may be imported behind any blanks.  A text that has nothing but the import is read then
like the file: its tokens are those of the file, on the same lines and further to the right.

* `importLine` is the text of an import, and `Import.Directive.ofLine?_importLine` what is read
  off it.
* `Source.exists_of_import`: the text becomes the lines of the file, behind the blanks.
* `Token.Pushed` are two tokens with the same meaning.  `Lexer.exists_tokens_pushed` is about
  two sources, and `tokenize_import` about the text and the file.
-/

namespace BlockLexer

open Text Files Import

/-! ## The text of an import -/

/-- An import of a target behind blanks. -/
def importLine (blanks target : List Char) : List Char :=
  blanks ++ (Lexeme.importWord ++ ' ' :: target)

section ImportLine

variable {blanks target : List Char}

/-- A text without line ends is one line. -/
theorem Text.splitLines_normalizeNewlines {line : List Char} (hne : line ≠ [])
    (hreturn : '\r' ∉ line) (hfeed : '\n' ∉ line) : splitLines (normalizeNewlines line) = [line] := by
  rw [splitLines_normalizeNewlines_eq, readLines_of_isUnbroken ⟨hfeed, hreturn⟩,
    if_neg (mt List.isEmpty_iff.1 hne)]

/-- An import is one line. -/
theorem splitLines_importLine (hblanks : ∀ c ∈ blanks, isBlank c = true)
    (htarget : ∀ c ∈ target, Lexeme.isTarget c = true ∧ c ≠ '\r') :
    splitLines (normalizeNewlines (importLine blanks target)) = [importLine blanks target] := by
  have hfree {c : Char} (hc : c = '\r' ∨ c = '\n') : c ∉ importLine blanks target := by
    unfold importLine
    simp only [List.mem_append, List.mem_cons, not_or]
    refine ⟨not_mem_of_isBlank hblanks ?_, ?_, ?_, fun hmem => ?_⟩
    · rcases hc with rfl | rfl <;> rfl
    · rcases hc with rfl | rfl <;> decide
    · rcases hc with rfl | rfl <;> decide
    · obtain ⟨hin, hreturn⟩ := htarget c hmem
      rcases hc with rfl | rfl
      · exact hreturn rfl
      · cases hin
  have hne : importLine blanks target ≠ [] := by simp [importLine]
  exact splitLines_normalizeNewlines hne (hfree (.inl rfl)) (hfree (.inr rfl))

/-- What is read off an import. -/
theorem Import.Directive.ofLine?_importLine (hblanks : ∀ c ∈ blanks, isBlank c = true)
    (hne : target ≠ []) (htarget : ∀ c ∈ target, Lexeme.isTarget c = true) :
    ofLine? (importLine blanks target) = some { indentation := blanks, target } := by
  obtain ⟨c, more, rfl⟩ := List.exists_cons_of_ne_nil hne
  have hc : isBlank c = false := by
    have hfirst := htarget c List.mem_cons_self
    simp only [Lexeme.isTarget, Bool.and_eq_true, Bool.not_eq_true'] at hfirst
    exact hfirst.1.1.1
  have hgap (cs : List Char) : (' ' :: c :: cs).takeWhile isBlank = [' '] ∧
      (' ' :: c :: cs).dropWhile isBlank = c :: cs := by
    rw [List.takeWhile_cons_of_pos rfl, List.takeWhile_cons_of_neg (by simp [hc]),
      List.dropWhile_cons_of_pos rfl, List.dropWhile_cons_of_neg (by simp [hc])]
    exact ⟨rfl, rfl⟩
  have htake : (c :: more).takeWhile Lexeme.isTarget = c :: more :=
    List.takeWhile_eq_self_iff.2 htarget
  have hdrop : (c :: more).dropWhile Lexeme.isTarget = [] :=
    List.dropWhile_eq_nil_iff.2 htarget
  have hspace : Lexeme.blanks (' ' :: c :: more) = some ([' '], c :: more) := by
    rw [Lexeme.blanks, Pattern.many1, (hgap more).1, (hgap more).2]
    rfl
  have hword : Pattern.many1 Lexeme.isTarget (c :: more) = some (c :: more, []) := by
    rw [Pattern.many1, htake, hdrop]
    rfl
  have hkeyword : Pattern.wordCaseless Lexeme.importWord (Lexeme.importWord ++ ' ' :: c :: more) =
      some (Lexeme.importWord, ' ' :: c :: more) := rfl
  have hend : Lexeme.gap.seq Lexeme.remark.optional [] = some ([], []) := rfl
  have hcut : Lexeme.directive (Lexeme.importWord ++ ' ' :: c :: more) =
      some (Lexeme.importWord ++ ' ' :: c :: more, []) := by
    have htail := Pattern.seq_eq_some hkeyword
      (Pattern.seq_eq_some hspace (Pattern.seq_eq_some hword hend))
    rw [List.append_nil] at htail
    exact Pattern.seq_eq_some (x := []) rfl htail
  unfold ofLine? importLine
  rw [Lexeme.directive_append_blanks hblanks, hcut]
  show some (Directive.mk _ _) = some (Directive.mk _ _)
  rw [Option.some.injEq, Directive.mk.injEq]
  refine ⟨?_, ?_⟩
  · rw [List.takeWhile_append_of_pos hblanks]
    exact List.append_nil blanks
  · unfold Lexeme.directiveTarget
    rw [List.dropWhile_append_of_pos hblanks]
    show ((' ' :: c :: more).dropWhile isBlank).takeWhile Lexeme.isTarget = c :: more
    rw [(hgap more).2, htake]

end ImportLine

/-! ## The source -/

/-- A text that only imports a file becomes the lines of the file, behind the blanks. -/
theorem Source.exists_of_import {tree : FileTree} {config : Config}
    {text line content : List Char} {origin : Path} {directive : Directive} {location : Location}
    (hon : config.followImports = true) (hdepth : 0 < config.maxImportDepth)
    (hline : splitLines (normalizeNewlines text) = [line])
    (hdirective : Directive.ofLine? line = some directive)
    (hread : tree.read (directive.path config
      (Importer.placeOf { tree, config } origin).directory) = .ok (location, content))
    (hchain : location ∉ (Importer.placeOf { tree, config } origin).chain)
    (hsettled : IsSettled config (normalizeNewlines content)) :
    ∃ source, (ofText tree config text origin).outcome = .ok source ∧
      source.text = unlines ((splitLines (normalizeNewlines content)).map
        (pushed directive.indentation)) ∧
      source.table = .ofText config.tabWidth source.text := by
  let importer : Importer := { tree, config }
  let place := importer.placeOf origin
  let table := LineTable.ofText config.tabWidth (normalizeNewlines text)
  obtain ⟨levels, hlevels⟩ := Nat.exists_eq_succ_of_ne_zero (Nat.ne_of_gt hdepth)
  obtain ⟨flat, hflat, hchars⟩ := hsettled.exists_expand tree levels
    (place.inner (directive.path config place.directory) location)
  let placed : Line :=
    { number := 1, start := 0, indent := indentWidth config.tabWidth line, chars := line }
  have hlines : table.lines = [placed] := by
    show LineTable.place config.tabWidth 1 0 (splitLines (normalizeNewlines text)) = _
    rw [hline]
    rfl
  have hplaced : table.get? 1 = some placed := by
    rw [LineTable.get?_succ, hlines]
    rfl
  have hmarker : placed.isMarker = false :=
    Line.isMarker_of_directive (Option.isSome_of_eq_some hdirective)
  have hfollowed : table.followed? config 1 = some directive := by
    have hopen : table.memoryBehind 0 = none := rfl
    rw [LineTable.followed?_succ hplaced, hopen, BodyMemory.pass_none, hon, hmarker]
    exact hdirective
  have hfollow : (follow tree config config.maxImportDepth place placed directive).outcome =
      .ok flat := by
    unfold follow
    rw [hlevels]
    dsimp only
    rw [hread]
    dsimp only
    rw [if_neg (by simpa using hchain)]
    exact hflat
  have hexpand : (expand tree config config.maxImportDepth place (normalizeNewlines text)).outcome =
      .ok (flat.map (FlatLine.indented directive.indentation)) := by
    have hopen : none = table.memoryBehind 0 := rfl
    rw [expand_eq, hlines, hopen, expandLines_cons _ _ _ hplaced, hfollowed]
    dsimp only
    rw [Reported.outcome_andThen, hfollow]
    show Except.ok (flat.map (FlatLine.indented directive.indentation) ++ []) = _
    rw [List.append_nil]
  refine ⟨ofLines config origin (flat.map (FlatLine.indented directive.indentation)), ?_, ?_, rfl⟩
  · unfold Source.ofText Importer.run
    rw [Reported.outcome_map]
    exact congrArg (Except.map _) hexpand
  · show unlines ((flat.map (FlatLine.indented directive.indentation)).map FlatLine.chars) = _
    rw [← hchars, List.map_map, List.map_map]
    congr 2
    funext flatLine
    show (FlatLine.indented directive.indentation flatLine).chars = pushed _ flatLine.chars
    unfold FlatLine.indented pushed
    split <;> rfl

/-! ## The tokens -/

/-- Two tokens with the same meaning, the second one further to the right.  A body always is in
the first column, and so is the end of the text. -/
structure Token.Pushed (width : Nat) (token token' : Token) : Prop where
  kind : token'.kind = token.kind
  value : token'.value = token.value
  line : token'.span.line = token.span.line
  column : token'.span.column =
    token.span.column + if token.kind = .body ∨ token.kind = .endOfText then 0 else width

/-- A shift by blanks keeps all values. -/
theorem Shift.value_margin (tabWidth : Nat) (blanks : List Char) (value : Value) :
    (margin tabWidth blanks).value value = value := by
  cases value <;> rfl

theorem Token.pushed_of_movesBy {tabWidth columns : Nat} {blanks : List Char} {token token' : Token}
    (h : (Shift.margin tabWidth blanks).Tokens columns token token')
    (hmoves : token.kind.MovesBy blanks.length columns) (hkept : token.kind.isFiltered = false) :
    token.Pushed blanks.length token' := by
  refine ⟨h.kind, h.value.trans (Shift.value_margin tabWidth blanks token.value), h.line, ?_⟩
  rw [h.column]
  rcases hmoves with hfiltered | hbody | hcolumns
  · rw [hkept] at hfiltered
    cases hfiltered
  · rw [if_pos hbody, if_pos (.inl hbody)]
  · rw [hcolumns]
    by_cases hbody : token.kind = .body
    · rw [if_pos hbody, if_pos (.inl hbody)]
    · simp [hbody]

namespace Lexer

/-- Lines that can be read can be read behind blanks. -/
theorem exists_tokens_pushed {tabWidth : Nat} {blanks : List Char} {lines : List (List Char)}
    {source source' : Source} {tokens : List Token} (htab : 0 < tabWidth)
    (hblanks : ∀ c ∈ blanks, isBlank c = true) (hlines : ∀ line ∈ lines, '\n' ∉ line)
    (hsource : source.text = unlines lines ∧ source.table = .ofText tabWidth (unlines lines))
    (hsource' : source'.text = unlines (lines.map (pushed blanks)) ∧
      source'.table = .ofText tabWidth (unlines (lines.map (pushed blanks))))
    (htokens : Lexer.tokens source = .ok tokens)
    (hstrings : ∀ token ∈ tokens, token.kind = .string →
      '\n' ∉ sliceBytes token.span.start token.span.stop (unlines lines)) :
    ∃ tokens', Lexer.tokens source' = .ok tokens' ∧
      List.Forall₂ (Token.Pushed blanks.length) tokens tokens' := by
  obtain ⟨pieces, u, hrun, hu, hassembled, hchain⟩ := tokens_eq_ok_iff.1 htokens
  rw [hsource.2] at hrun
  have hway : Scan.OnWay (.ofText tabWidth (unlines lines)) (unlines lines) (ofSource source).scan :=
    Scan.onWay_of_start _ hsource.1 rfl rfl rfl
  have hpushed : Scan.IsPushed tabWidth blanks 0 (ofSource source).scan (ofSource source').scan := by
    refine ⟨?_, ⟨trivial, rfl, rfl⟩, ⟨.nil, rfl, rfl, rfl, rfl⟩, fun style hmode => ?_⟩
    · show Rests blanks 0 source.text source'.text
      rw [hsource.1, hsource'.1]
      exact rests_unlines blanks hlines
    · cases hmode
  have hkeeps : KeepsLine none pieces :=
    Scan.keepsLine_of_assembled hassembled hrun hway.stands hstrings
  have hfree : '\n' ∉ blanks := not_mem_of_isBlank hblanks (by decide)
  obtain ⟨pieces', u', hrun', hu', htrails⟩ :=
    hpushed.exists_run (LineTable.isPushed_unlines hlines hfree) hblanks htab hway hrun hu hkeeps
  obtain ⟨tokens', hassembled', hrel⟩ := htrails.exists_assembled hassembled
  have htokens' : List.Forall₂ (Token.Pushed blanks.length) tokens tokens' := by
    rw [List.forall₂_iff_get] at hrel ⊢
    obtain ⟨hlength, hget⟩ := hrel
    refine ⟨hlength, fun i hi hi' => ?_⟩
    obtain ⟨columns, htoken, hmoves⟩ := hget i hi hi'
    have hkept := hassembled.isFiltered_eq_false _ (List.get_mem tokens ⟨i, hi⟩)
    exact Token.pushed_of_movesBy htoken hmoves hkept
  have hkinds : tokens'.map Token.kind = tokens.map Token.kind := by
    rw [← List.forall₂_eq_eq_eq, List.forall₂_map_left_iff, List.forall₂_map_right_iff]
    exact htokens'.flip.imp fun _ _ hpushed => hpushed.kind
  refine ⟨tokens', tokens_eq_ok_iff.2 ⟨pieces', u', ?_, hu', hassembled', ?_⟩, htokens'⟩
  · rw [hsource'.2]
    exact hrun'
  · rw [hkinds]
    exact hchain

end Lexer

end BlockLexer
