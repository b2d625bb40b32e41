import BlockLexer.Proofs.Words
import BlockLexer.Proofs.Table
import Mathlib.Data.List.TakeWhile

/-!
# Lines with more indentation

An import puts blanks in front of the lines that it brings in.  This module says what
that changes of a line, and what it leaves alone.

* `Lexeme.directive_append_blanks` and `Directive.isSome_ofLine?_append`: blanks make no
  line a directive, and none cease to be one.
* `Line.Indents` is a line that stands for another one behind more blanks.  Only its
  indentation is another, and only if there is something on it.
* `Line.exists_content_of_directive` and `Line.isMarker_of_directive`: a directive is not
  blank, and neither opens nor closes a body.
-/

namespace BlockLexer

open Text Files Import

/-! ## Directives -/

namespace Lexeme

/-- A directive may have any blanks in front of it. -/
theorem directive_append_blanks {blanks : List Char} (h : ∀ c ∈ blanks, isBlank c = true)
    (cs : List Char) :
    directive (blanks ++ cs) = (directive cs).map fun cut => (blanks ++ cut.1, cut.2) := by
  have htake : gap (blanks ++ cs) =
      some (blanks ++ cs.takeWhile isBlank, cs.dropWhile isBlank) := by
    rw [gap, Pattern.many, List.takeWhile_append_of_pos h, List.dropWhile_append_of_pos h]
  have hgap : gap cs = some (cs.takeWhile isBlank, cs.dropWhile isBlank) := rfl
  unfold directive Pattern.seq
  rw [htake, hgap]
  dsimp only
  split <;> simp_all [List.append_assoc]

/-- A directive begins, behind its blanks, with the first letter of its keyword. -/
theorem exists_of_directive {cs : List Char} {cut : List Char × List Char}
    (h : directive cs = some cut) :
    ∃ c more, cs.dropWhile isBlank = c :: more ∧ c.toLower = 'i' := by
  obtain ⟨x, left⟩ := cut
  obtain ⟨gap', tail, between, hgap, htail, -⟩ := Pattern.exists_of_seq_eq_some h
  obtain ⟨word, _, _, hword, _, _⟩ := Pattern.exists_of_seq_eq_some htail
  obtain ⟨-, rfl⟩ := Prod.mk.inj (Option.some.inj hgap)
  have hsame := (Option.ite_none_right_eq_some.1 hword).1
  cases hdrop : cs.dropWhile isBlank with
  | nil =>
    rw [hdrop] at hsame
    cases hsame
  | cons c more =>
    rw [hdrop] at hsame
    simp only [equalsCaseless, importWord, List.length_cons, List.take_succ_cons, List.map_cons,
      decide_eq_true_eq, List.cons.injEq] at hsame
    exact ⟨c, more, rfl, hsame.1⟩

end Lexeme

namespace Import.Directive

theorem isSome_ofLine?_iff {cs : List Char} :
    (ofLine? cs).isSome = true ↔ ∃ x, Lexeme.directive cs = some (x, []) := by
  unfold ofLine?
  split
  · next x hcut => simp [hcut]
  · next hother =>
    constructor
    · rintro ⟨⟩
    · rintro ⟨x, hx⟩
      exact absurd hx (hother x)

/-- Blanks in front of a line decide nothing about whether it is a directive. -/
theorem isSome_ofLine?_append {blanks : List Char} (h : ∀ c ∈ blanks, isBlank c = true)
    (cs : List Char) : (ofLine? (blanks ++ cs)).isSome = (ofLine? cs).isSome := by
  rw [Bool.eq_iff_iff, isSome_ofLine?_iff, isSome_ofLine?_iff]
  simp only [Lexeme.directive_append_blanks h, Option.map_eq_some_iff, Prod.exists, Prod.mk.injEq]
  constructor
  · rintro ⟨-, x, left, hcut, -, rfl⟩
    exact ⟨x, hcut⟩
  · rintro ⟨x, hcut⟩
    exact ⟨blanks ++ x, x, [], hcut, rfl, rfl⟩

end Import.Directive

/-! ## Parts of a line -/

/-- A character that is no white space is not trimmed, nor is what stands in front of it. -/
theorem Text.trimEnd_cons {c : Char} (h : isSpace c = false) (cs : List Char) :
    trimEnd (c :: cs) = c :: trimEnd cs := by
  unfold trimEnd
  rw [List.reverse_cons, List.dropWhile_append]
  split
  · next hnil =>
    rw [List.isEmpty_iff] at hnil
    simp [hnil, h]
  · rw [List.reverse_append, List.reverse_singleton, List.singleton_append]

theorem Text.trimEnd_append {word : List Char} (h : ∀ c ∈ word, isSpace c = false) (cs : List Char) :
    trimEnd (word ++ cs) = word ++ trimEnd cs := by
  induction word with
  | nil => rfl
  | cons c word ih =>
    obtain ⟨hc, hword⟩ := List.forall_mem_cons.1 h
    rw [List.cons_append, trimEnd_cons hc, ih hword, List.cons_append]

/-- What is trimmed at the end of a text is white space. -/
theorem Text.exists_spaces (cs : List Char) :
    ∃ spaces, cs = trimEnd cs ++ spaces ∧ ∀ c ∈ spaces, isSpace c = true := by
  refine ⟨(cs.reverse.takeWhile isSpace).reverse, ?_, fun c hc => ?_⟩
  · rw [trimEnd, ← List.reverse_append, List.takeWhile_append_dropWhile, List.reverse_reverse]
  · exact List.mem_takeWhile_imp (List.mem_reverse.1 hc)

namespace Line

variable {line moved : Line} {blanks : List Char}

/-- Behind its blanks a line has its content, white space, and what begins with a semicolon. -/
theorem exists_content_append (line : Line) :
    ∃ spaces, (∀ c ∈ spaces, isSpace c = true) ∧ ';' ∉ line.content ++ spaces ∧
      line.chars.dropWhile Text.isBlank =
        line.content ++ (spaces ++ (line.chars.dropWhile Text.isBlank).dropWhile (· ≠ ';')) := by
  obtain ⟨spaces, hcut, hspaces⟩ :=
    exists_spaces ((line.chars.dropWhile Text.isBlank).takeWhile (· ≠ ';'))
  change _ = line.content ++ spaces at hcut
  refine ⟨spaces, hspaces, fun hmem => ?_, ?_⟩
  · rw [← hcut] at hmem
    have hne := List.mem_takeWhile_imp hmem
    simp at hne
  · rw [← List.append_assoc, ← hcut, List.takeWhile_append_dropWhile]

/-- The content of a line with blanks in front of it is the content of the line. -/
theorem content_of_chars_append (hblanks : ∀ c ∈ blanks, Text.isBlank c = true)
    (h : moved.chars = blanks ++ line.chars) : moved.content = line.content := by
  rw [content, content, h, List.dropWhile_append_of_pos hblanks]

/-- So is its comment. -/
theorem comment?_of_chars_append (hblanks : ∀ c ∈ blanks, Text.isBlank c = true)
    (h : moved.chars = blanks ++ line.chars) : moved.comment? = line.comment? := by
  have hpass : ∀ c ∈ blanks, decide (c ≠ ';') = true := by
    intro c hc
    exact decide_eq_true (ne_of_class (hblanks c hc) rfl)
  rw [comment?, comment?, h, List.dropWhile_append_of_pos hpass]

/-- A directive has content: its first letter. -/
theorem exists_content_of_directive (h : (Directive.ofLine? line.chars).isSome = true) :
    ∃ c more, line.content = c :: more ∧ c.toLower = 'i' := by
  obtain ⟨x, hcut⟩ := Directive.isSome_ofLine?_iff.1 h
  obtain ⟨c, more, hdrop, hc⟩ := Lexeme.exists_of_directive hcut
  have halpha : c.isAlpha = true := isAlpha_of_toLower (by rw [hc]; rfl)
  have hspace : isSpace c = false := by
    rw [isAlpha_iff] at halpha
    simp [isSpace]
    omega
  have hsemicolon : c ≠ ';' := ne_of_class halpha rfl
  refine ⟨c, trimEnd (more.takeWhile (· ≠ ';')), ?_, hc⟩
  rw [content, hdrop, List.takeWhile_cons_of_pos (by simpa using hsemicolon), trimEnd_cons hspace]

/-- A directive is no marker. -/
theorem isMarker_of_directive (h : (Directive.ofLine? line.chars).isSome = true) :
    line.isMarker = false := by
  obtain ⟨c, more, hcontent, hc⟩ := exists_content_of_directive h
  have hdash : ('-' == c) = false := by
    rw [beq_eq_false_iff_ne]
    rintro rfl
    exact absurd hc (by decide)
  rw [isMarker, hcontent, bodyMarker, List.isPrefixOf_cons_cons, hdash, Bool.false_and]

/-! ## Indented lines -/

/-- A line that stands for another one behind blanks of some width.  An empty line has
none in front of it. -/
structure Indents (width : Nat) (line moved : Line) : Prop where
  isMarker : moved.isMarker = line.isMarker
  isBlank : moved.isBlank = line.isBlank
  indent : line.isBlank = false → moved.indent = width + line.indent

end Line

/-- Blanks in front of a line add to its indentation. -/
theorem indentWidth_append {blanks : List Char} (tabWidth : Nat)
    (h : ∀ c ∈ blanks, isBlank c = true) (cs : List Char) :
    indentWidth tabWidth (blanks ++ cs) =
      indentWidth tabWidth blanks + indentWidth tabWidth cs := by
  induction blanks with
  | nil => simp [indentWidth]
  | cons c blanks ih =>
    obtain ⟨hc, hblanks⟩ := List.forall_mem_cons.1 h
    have hmore := ih hblanks
    unfold indentWidth at hmore ⊢
    rw [List.cons_append, List.takeWhile_cons_of_pos hc, List.takeWhile_cons_of_pos hc,
      List.foldr_cons, List.foldr_cons, hmore, Nat.add_assoc]

theorem Line.indents_of_chars {line moved : Line} {blanks : List Char} {tabWidth : Nat}
    (hblanks : ∀ c ∈ blanks, Text.isBlank c = true)
    (h : moved.chars = if line.chars.isEmpty then line.chars else blanks ++ line.chars)
    (hline : line.indent = indentWidth tabWidth line.chars)
    (hmoved : moved.indent = indentWidth tabWidth moved.chars) :
    line.Indents (indentWidth tabWidth blanks) moved := by
  split at h
  · next hempty =>
    have hsame : moved.content = line.content ∧ moved.comment? = line.comment? := by
      constructor
      · rw [content, content, h]
      · rw [comment?, comment?, h]
    have hnil : line.chars = [] := List.isEmpty_iff.1 hempty
    have hblank : line.isBlank = true := by
      rw [Line.isBlank, hasContent, content, comment?, hnil]
      rfl
    refine ⟨?_, ?_, ?_⟩
    · rw [isMarker, isMarker, hsame.1]
    · rw [Line.isBlank, Line.isBlank, hasContent, hasContent, hsame.1, hsame.2]
    · rw [hblank]
      rintro ⟨⟩
  · have hcontent : moved.content = line.content := content_of_chars_append hblanks h
    have hcomment : moved.comment? = line.comment? := comment?_of_chars_append hblanks h
    refine ⟨?_, ?_, ?_⟩
    · rw [isMarker, isMarker, hcontent]
    · rw [Line.isBlank, Line.isBlank, hasContent, hasContent, hcontent, hcomment]
    · intro _
      rw [hmoved, h, indentWidth_append tabWidth hblanks, hline]

end BlockLexer
