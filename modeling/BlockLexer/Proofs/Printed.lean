import BlockLexer.Proofs.Plain
import BlockLexer.Proofs.Terms

/-!
# The lines of a forest

Every line that is written for a forest begins with blanks and a name.  So it is plain, it
has content, and its indentation is the one it is written with.

* `IsNamed` is the form of such a line behind its blanks.
* `Members.isNamed_of_mem_lines` and `Forest.isPlain_of_mem_lines` go over all lines.
* `Members.exists_next` is the line that a header finds below it.
-/

namespace BlockLexer

open Text Lexeme

/-! ## Lines that begin with a name -/

/-- The blanks of a line are the ones it is written with. -/
theorem takeWhile_isBlank_indented {word : List Char} (hword : isIdentifier word = true)
    (indent : Nat) (tail : List Char) :
    (indented indent (word ++ tail)).takeWhile isBlank = List.replicate indent ' ' ∧
      (indented indent (word ++ tail)).dropWhile isBlank = word ++ tail :=
  takeWhile_append isBlank_of_mem_replicate
    (stops_of_isIdentifier tail hword not_isBlank_of_startsName)

theorem indentWidth_indented {word tail : List Char} {tabWidth indent : Nat}
    (hword : isIdentifier word = true) :
    indentWidth tabWidth (indented indent (word ++ tail)) = indent := by
  rw [indentWidth, (takeWhile_isBlank_indented hword indent tail).1]
  induction indent with
  | zero => rfl
  | succ indent ih =>
    rw [List.replicate_succ, List.foldr_cons, ih]
    exact Nat.add_comm 1 indent

/-- The content of a line that begins with a name. -/
theorem content_indented {word tail : List Char} {line : Line} {indent : Nat}
    (hword : isIdentifier word = true) (hline : line.chars = indented indent (word ++ tail)) :
    line.content = word ++ trimEnd (tail.takeWhile (· ≠ ';')) := by
  have hremark : ∀ c ∈ word, decide (c ≠ ';') = true := by
    intro c hc
    exact decide_eq_true (ne_of_class (continuesName_of_isIdentifier hword c hc) rfl)
  rw [Line.content, hline, (takeWhile_isBlank_indented hword indent tail).2,
    List.takeWhile_append_of_pos hremark,
    trimEnd_append fun c hc => not_isSpace_of_continuesName (continuesName_of_isIdentifier hword c hc)]

theorem hasContent_indented {word tail : List Char} {line : Line} {indent : Nat}
    (hword : isIdentifier word = true) (hline : line.chars = indented indent (word ++ tail)) :
    line.hasContent = true := by
  have hne : line.content ≠ [] := by
    rw [content_indented hword hline]
    exact List.append_ne_nil_of_left_ne_nil (ne_nil_of_isIdentifier hword) _
  simpa [Line.hasContent] using hne

/-- A name and what stands behind it on its line: nothing, or a space and more.  The name
`import` may only stand in front of an equals sign. -/
structure IsNamed (word tail : List Char) : Prop where
  name : isIdentifier word = true
  boundary : tail = [] ∨ ∃ more, tail = ' ' :: more
  ink : ∀ c ∈ tail, c = ' ' ∨ isInk c = true
  target : equalsCaseless word importWord = true → tail = [] ∨ ∃ more, tail = ' ' :: '=' :: more

theorem isNamed_nil {word : List Char} (hword : isIdentifier word = true) : IsNamed word [] where
  name := hword
  boundary := .inl rfl
  ink := by simp
  target := fun _ => .inl rfl

/-- What may stand behind a line: nothing, or a line feed and more. -/
def IsLineEnd (rest : List Char) : Prop :=
  rest = [] ∨ ∃ more, rest = '\n' :: more

namespace IsNamed

variable {word tail : List Char} (h : IsNamed word tail)

include h

theorem stops {rest : List Char} (hrest : IsLineEnd rest) : Stops continuesName (tail ++ rest) := by
  rcases h.boundary with rfl | ⟨more, rfl⟩
  · rcases hrest with rfl | ⟨more, rfl⟩
    · exact stops_nil
    · exact stops_cons rfl
  · exact stops_cons rfl

/-- No such line is a directive. -/
theorem directive (indent : Nat) {rest : List Char} (hrest : IsLineEnd rest) :
    Lexeme.directive (List.replicate indent ' ' ++ (word ++ (tail ++ rest))) = none := by
  refine directive_append indent h.name (h.stops hrest) fun hsame => ?_
  rcases h.target hsame with rfl | ⟨more, rfl⟩
  · rcases hrest with rfl | ⟨more, rfl⟩
    · exact stops_nil
    · exact stops_cons rfl
  · exact stops_cons rfl

theorem isInk_of_mem {indent : Nat} {c : Char} (hc : c ∈ indented indent (word ++ tail)) :
    c = ' ' ∨ isInk c = true := by
  rcases List.mem_append.1 hc with hblank | hline
  · exact .inl (List.eq_of_mem_replicate hblank)
  rcases List.mem_append.1 hline with hname | htail
  · exact .inr (isInk_of_continuesName (continuesName_of_isIdentifier h.name c hname))
  · exact h.ink c htail

theorem isPlain (indent : Nat) : IsPlain (indented indent (word ++ tail)) where
  lineFeed := by
    intro hmem
    rcases h.isInk_of_mem hmem with hspace | hink
    · exact absurd hspace (by decide)
    · cases hink
  carriageReturn := by
    intro hmem
    rcases h.isInk_of_mem hmem with hspace | hink
    · exact absurd hspace (by decide)
    · cases hink
  directive := by
    have hnone := h.directive indent (.inl rfl)
    rw [List.append_nil] at hnone
    rw [Import.Directive.ofLine?, indented, hnone]

/-- The content of a line is all that it has behind its blanks. -/
theorem content_eq {line : Line} {indent : Nat}
    (hline : line.chars = indented indent (word ++ tail)) :
    line.content = word ++ trimEnd tail := by
  have hremark : ∀ c ∈ tail, decide (c ≠ ';') = true := by
    intro c hc
    rw [decide_eq_true_eq]
    rintro rfl
    rcases h.ink _ hc with hspace | hink
    · exact absurd hspace (by decide)
    · cases hink
  rw [content_indented h.name hline, List.takeWhile_eq_self_iff.2 hremark]

end IsNamed

/-! ## The lines of a block -/

theorem isInk_of_mem_joinWith (terms : List Term) :
    ∀ c ∈ joinWith [' '] (terms.map Term.text), c = ' ' ∨ isInk c = true := by
  cases terms with
  | nil => simp [joinWith]
  | cons term terms =>
    intro c hc
    rw [joinWith_cons] at hc
    rcases List.mem_append.1 hc with hterm | hmore
    · exact .inr (term.isInk_of_mem_text c hterm)
    obtain ⟨other, -, hother⟩ := List.mem_flatMap.1 hmore
    rcases List.mem_cons.1 hother with hspace | hother
    · exact .inl hspace
    · exact .inr (other.isInk_of_mem_text c hother)

/-- What stands behind the class of a header. -/
def Header.tail (header : Header) : List Char :=
  header.name.elim [] fun name => ' ' :: name.chars

theorem Header.isNamed (header : Header) : IsNamed header.owner.chars header.tail := by
  obtain ⟨owner, name⟩ := header
  refine ⟨isIdentifier_of_isClassIdentifier owner.shape, ?_, ?_, fun hsame => ?_⟩
  · cases name with
    | none => exact .inl rfl
    | some name => exact .inr ⟨name.chars, rfl⟩
  · cases name with
    | none => simp [tail]
    | some name =>
      intro c hc
      rcases List.mem_cons.1 hc with hspace | hname
      · exact .inl hspace
      · exact .inr (isInk_of_continuesName (continuesName_of_isIdentifier name.shape c hname))
  · rw [owner.notImport] at hsame
    cases hsame

/-- What stands behind the name of an attribute. -/
def Attribute.tail (member : Attribute) : List Char :=
  ' ' :: '=' :: ' ' :: joinWith [' '] (member.expression.terms.map Term.text)

theorem Attribute.isNamed (member : Attribute) : IsNamed member.name.chars member.tail := by
  refine ⟨member.name.shape, .inr ⟨_, rfl⟩, ?_, fun _ => .inr ⟨_, rfl⟩⟩
  intro c hc
  simp only [tail, List.mem_cons] at hc
  rcases hc with hspace | rfl | hspace | hterms
  · exact .inl hspace
  · exact .inr rfl
  · exact .inl hspace
  · exact isInk_of_mem_joinWith _ c hterms

/-- Behind the equals sign of an attribute stands a single space. -/
theorem Expression.stops_isBlank (expression : Expression) (rest : List Char) :
    Stops isBlank (joinWith [' '] (expression.terms.map Term.text) ++ '\n' :: rest) := by
  obtain ⟨terms, -⟩ := expression
  cases terms with
  | nil => exact stops_cons rfl
  | cons term terms =>
    obtain ⟨first, more, htext, hblank, -⟩ := term.exists_cons
    rw [joinWith_cons, htext]
    exact stops_cons hblank

theorem assignment_append {rest : List Char} (hrest : Stops isBlank rest) :
    assignment (' ' :: '=' :: ' ' :: rest) = some ([' ', '=', ' '], rest) := by
  have hbefore : gap (' ' :: '=' :: ' ' :: rest) = some ([' '], '=' :: ' ' :: rest) :=
    gap_append 1 (stops_cons rfl)
  have hsign : Pattern.one (· = '=') ('=' :: ' ' :: rest) = some (['='], ' ' :: rest) := rfl
  have hafter : gap (' ' :: rest) = some ([' '], rest) := gap_append 1 hrest
  exact Pattern.seq_eq_some hbefore (Pattern.seq_eq_some hsign hafter)

theorem isNamed_endName : IsNamed endName [] :=
  isNamed_nil rfl

/-- Every line of the members of a block begins with blanks and a name. -/
theorem Members.isNamed_of_mem_lines {members : Members} {indent : Nat} {line : List Char}
    (hline : line ∈ members.lines indent) :
    ∃ indent' word tail, line = indented indent' (word ++ tail) ∧ IsNamed word tail := by
  induction members generalizing indent with
  | none => cases hline
  | assign first more ih =>
    rcases List.mem_cons.1 hline with rfl | hmore
    · exact ⟨indent, _, _, rfl, first.isNamed⟩
    · exact ih hmore
  | block header extra inner more ihinner ihmore =>
    rcases List.mem_cons.1 hline with rfl | hline
    · exact ⟨indent, _, _, rfl, header.isNamed⟩
    rcases List.mem_append.1 hline with hinner | hline
    · exact ihinner hinner
    rcases List.mem_cons.1 hline with rfl | hmore
    · exact ⟨indent, endName, [], by rw [List.append_nil], isNamed_endName⟩
    · exact ihmore hmore

/-- The lines of a forest are plain. -/
theorem Forest.isPlain_of_mem_lines {forest : Forest} {line : List Char}
    (hline : line ∈ forest.flatMap TopBlock.lines) : IsPlain line := by
  obtain ⟨block, -, hline⟩ := List.mem_flatMap.1 hline
  have hnamed : ∃ indent word tail,
      line = indented indent (word ++ tail) ∧ IsNamed word tail := by
    rcases List.mem_cons.1 hline with rfl | hline
    · exact ⟨block.indent, _, _, rfl, block.header.isNamed⟩
    rcases List.mem_append.1 hline with hmembers | hend
    · exact Members.isNamed_of_mem_lines hmembers
    · rw [List.mem_singleton.1 hend]
      exact ⟨block.indent, endName, [], by rw [List.append_nil], isNamed_endName⟩
  obtain ⟨indent, word, tail, rfl, hnamed⟩ := hnamed
  exact hnamed.isPlain indent

/-! ## The line below a header -/

/-- The line below a header is the first of the members, or the end of the block. -/
theorem Members.exists_next (members : Members) (indent inner : Nat) (more : List (List Char)) :
    ∃ next lines, members.lines inner ++ indented indent endName :: more = next :: lines ∧
      ((∃ word tail, next = indented inner (word ++ tail) ∧ IsNamed word tail) ∨
        next = indented indent endName) := by
  cases members with
  | none => exact ⟨_, more, rfl, .inr rfl⟩
  | assign first members => exact ⟨_, _, rfl, .inl ⟨_, _, rfl, first.isNamed⟩⟩
  | block header extra nested members => exact ⟨_, _, rfl, .inl ⟨_, _, rfl, header.isNamed⟩⟩

theorem isEnd_of_endName {line : Line} {indent : Nat}
    (hline : line.chars = indented indent endName) : line.isEnd = true := by
  have hcontent : line.content = endName := isNamed_endName.content_eq hline
  rw [Line.isEnd, hcontent]
  rfl

/-- Below a header the members are found where they are written, unless there are none. -/
theorem LineTable.Ahead.exists_expected {table : LineTable} {number indent inner : Nat}
    {line : List Char} {members : Members} {more : List (List Char)}
    (h : table.Ahead number (line :: (members.lines inner ++ indented indent endName :: more))) :
    ∃ next, ((table.nextContentAfter number).map fun found => (found.indent, found.isEnd)) =
      some next ∧ (next.2 = false → next.1 = inner) := by
  obtain ⟨next, lines, hlines, hnext⟩ := members.exists_next indent inner more
  rw [hlines] at h
  rcases hnext with ⟨word, tail, rfl, hnamed⟩ | rfl
  · obtain ⟨found, hfound, hindent, -⟩ :=
      h.exists_nextContent fun placed => hasContent_indented hnamed.name
    refine ⟨(found.indent, found.isEnd), by rw [hfound, Option.map_some], fun _ => ?_⟩
    rw [hindent, indentWidth_indented hnamed.name]
  · obtain ⟨found, hfound, -, hchars⟩ :=
      h.exists_nextContent fun placed => hasContent_indented isNamed_endName.name
    refine ⟨(found.indent, found.isEnd), by rw [hfound, Option.map_some], fun hopen => ?_⟩
    rw [isEnd_of_endName hchars] at hopen
    cases hopen

end BlockLexer
