import BlockLexer.Body
import BlockLexer.Proofs.Cursor
import BlockLexer.Proofs.Indented

/-!
# Lines without their indentation

The lines of a body lose the blanks in front of them up to the indentation of the body.

* `Strips` says which blanks a width takes off a line, and `exists_strips` that these are the
  ones that `dedentLine` takes.
* `Strips.width_lt` and `Strips.width_eq_iff`: a line may lose more than the width, but only
  where a tab reaches beyond it.
* `getElem?_splitLines_joinWith` finds the lines again.
-/

namespace BlockLexer

open Text

variable {tabWidth width : Nat} {lead left line : List Char}

/-! ## What a width takes off a line -/

/-- What a width of indentation takes off a line, and what it leaves: the shortest blanks in
front of the line that reach the width, or all of them if they are narrower. -/
structure Strips (tabWidth width : Nat) (lead left : List Char) : Prop where
  blank : ∀ c ∈ lead, isBlank c = true
  shortest : ∀ part, part <+: lead → part ≠ lead → indentWidth tabWidth part < width
  reaches : width ≤ indentWidth tabWidth lead ∨ left.head?.any isBlank = false

theorem indentWidth_cons {c : Char} (hc : isBlank c = true) (cs : List Char) :
    indentWidth tabWidth (c :: cs) = blankWidth tabWidth c + indentWidth tabWidth cs := by
  unfold indentWidth
  rw [List.takeWhile_cons_of_pos hc, List.foldr_cons]

/-- One more blank in front of what is taken off. -/
theorem Strips.cons {c : Char} (hc : isBlank c = true) (hwidth : 0 < width)
    (h : Strips tabWidth (width - blankWidth tabWidth c) lead left) :
    Strips tabWidth width (c :: lead) left := by
  refine ⟨List.forall_mem_cons.2 ⟨hc, h.blank⟩, fun part hpart hne => ?_, ?_⟩
  · cases part with
    | nil => exact hwidth
    | cons d part =>
      obtain ⟨rfl, hmore⟩ := List.cons_prefix_cons.1 hpart
      have hshort := h.shortest part hmore fun he => hne (he ▸ rfl)
      rw [indentWidth_cons hc]
      omega
  · rw [indentWidth_cons hc]
    exact h.reaches.imp_left fun hreaches => by omega

/-- These blanks are taken off. -/
theorem exists_strips (tabWidth width : Nat) (line : List Char) :
    ∃ lead, line = lead ++ dedentLine tabWidth width line ∧
      Strips tabWidth width lead (dedentLine tabWidth width line) := by
  have none_taken {width : Nat} {line : List Char}
      (h : width = 0 ∨ line.head?.any isBlank = false) : Strips tabWidth width [] line :=
    ⟨by simp, fun part hpart hne => absurd (List.prefix_nil.1 hpart) hne,
      h.imp_left fun hzero => by omega⟩
  fun_induction dedentLine tabWidth width line with
  | case1 line => exact ⟨[], rfl, none_taken (.inl rfl)⟩
  | case2 width cs hne ih =>
    obtain ⟨lead, hline, hstrips⟩ := ih
    exact ⟨' ' :: lead, congrArg (' ' :: ·) hline,
      hstrips.cons rfl (Nat.pos_of_ne_zero hne)⟩
  | case3 width cs hne ih =>
    obtain ⟨lead, hline, hstrips⟩ := ih
    exact ⟨'\t' :: lead, congrArg ('\t' :: ·) hline,
      hstrips.cons rfl (Nat.pos_of_ne_zero hne)⟩
  | case4 width cs _ hspace htab =>
    refine ⟨[], rfl, none_taken (.inr ?_)⟩
    cases cs with
    | nil => rfl
    | cons c cs =>
      rw [List.head?_cons, Option.any_some, isBlank, Bool.or_eq_false_iff,
        decide_eq_false_iff_not, decide_eq_false_iff_not]
      exact ⟨fun hc => hspace cs (hc ▸ rfl), fun hc => htab cs (hc ▸ rfl)⟩

/-! ## How much is taken off -/

/-- A line that is as wide as the width loses blanks of at least this width. -/
theorem Strips.le_width (h : Strips tabWidth width lead left)
    (hwide : width ≤ indentWidth tabWidth (lead ++ left)) : width ≤ indentWidth tabWidth lead := by
  rcases h.reaches with hreaches | hnone
  · exact hreaches
  · have hzero : indentWidth tabWidth left = 0 := by
      cases left with
      | nil => rfl
      | cons c left =>
        rw [indentWidth, List.takeWhile_cons_of_neg (by simpa using hnone)]
        rfl
    rwa [indentWidth_append tabWidth h.blank, hzero, Nat.add_zero] at hwide

/-- It loses less than one more tab beyond the width. -/
theorem Strips.width_lt (h : Strips tabWidth width lead left) :
    indentWidth tabWidth lead < width + max 1 tabWidth := by
  rcases List.eq_nil_or_concat lead with rfl | ⟨init, c, rfl⟩
  · show 0 < _
    omega
  · rw [List.concat_eq_append] at h ⊢
    have hinit : indentWidth tabWidth init < width :=
      h.shortest init (List.prefix_append init [c]) (by simp)
    obtain ⟨hblank, hlast⟩ := List.forall_mem_append.1 h.blank
    have hc : isBlank c = true := hlast c (List.mem_singleton_self c)
    have hlast : indentWidth tabWidth [c] = blankWidth tabWidth c := indentWidth_cons hc []
    have hle : blankWidth tabWidth c ≤ max 1 tabWidth := by
      unfold blankWidth
      split <;> omega
    rw [indentWidth_append tabWidth hblank, hlast]
    omega

/-- It loses just the width if some of the blanks in front of it make out the width. -/
theorem Strips.width_eq_iff (h : Strips tabWidth width lead left)
    (hwide : width ≤ indentWidth tabWidth (lead ++ left)) :
    indentWidth tabWidth lead = width ↔
      ∃ part, part <+: (lead ++ left).takeWhile isBlank ∧ indentWidth tabWidth part = width := by
  have hle := h.le_width hwide
  have hblanks : (lead ++ left).takeWhile isBlank = lead ++ left.takeWhile isBlank :=
    List.takeWhile_append_of_pos h.blank
  constructor
  · intro hwidth
    exact ⟨lead, hblanks ▸ List.prefix_append _ _, hwidth⟩
  · rintro ⟨part, hpart, hwidth⟩
    rw [hblanks] at hpart
    rcases List.prefix_or_prefix_of_prefix hpart (List.prefix_append lead _) with hshort | ⟨more, rfl⟩
    · by_cases hsame : part = lead
      · rw [← hsame, hwidth]
      · exact absurd hwidth (Nat.ne_of_lt (h.shortest part hshort hsame))
    · rw [indentWidth_append tabWidth h.blank] at hwidth
      omega

/-! ## Lines with line feeds between them -/

namespace Text

variable {lines : List (List Char)}

/-- Between lines there is a line feed, so all but the last one are closed. -/
theorem joinWith_append_singleton (lines : List (List Char)) (line : List Char) :
    joinWith ['\n'] (lines ++ [line]) = unlines lines ++ line := by
  induction lines with
  | nil => simp [joinWith, List.intercalate]
  | cons first lines ih =>
    have hmore : joinWith ['\n'] (first :: (lines ++ [line])) =
        first ++ '\n' :: joinWith ['\n'] (lines ++ [line]) := by
      cases lines <;> simp [joinWith, List.intercalate]
    rw [List.cons_append, hmore, ih, unlines_cons, List.append_assoc, List.cons_append]

theorem splitLines_of_not_mem {line : List Char} (hne : line ≠ []) (h : '\n' ∉ line) :
    splitLines line = [line] := by
  induction line with
  | nil => exact absurd rfl hne
  | cons c line ih =>
    rw [List.mem_cons, not_or] at h
    rw [splitLines_cons]
    by_cases hnil : line = []
    · simp [hnil, consLine, Ne.symm h.1]
    · simp [ih hnil h.2, consLine, Ne.symm h.1]

/-- A line that is not empty is found again, if line feeds stand only between the lines. -/
theorem getElem?_splitLines_joinWith {i : Nat} {line : List Char}
    (hlines : ∀ line ∈ lines, '\n' ∉ line) (hline : lines[i]? = some line) (hne : line ≠ []) :
    (splitLines (joinWith ['\n'] lines))[i]? = some line := by
  rcases List.eq_nil_or_concat lines with rfl | ⟨init, last, rfl⟩
  · cases hline
  rw [List.concat_eq_append] at hline hlines ⊢
  obtain ⟨hinit, hlast⟩ := List.forall_mem_append.1 hlines
  rw [joinWith_append_singleton, splitLines_unlines_append hinit]
  rcases Nat.lt_or_ge i init.length with hlt | hge
  · rw [List.getElem?_append_left hlt] at hline ⊢
    exact hline
  · rw [List.getElem?_append_right hge] at hline ⊢
    obtain rfl := List.mem_singleton.1 (List.mem_of_getElem? hline)
    rwa [splitLines_of_not_mem hne (hlast line (List.mem_singleton_self line))]

end Text

end BlockLexer
