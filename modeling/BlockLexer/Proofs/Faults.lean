import BlockLexer.Proofs.Places
import BlockLexer.Proofs.Refusals

/-!
# Where faults are found

A fault takes its place from wherever its stage has one: from the place of the scan, from
what was opened, from the span of a token, or from the last line.  This module says that a
text has such a place.

* `IsPlace` is a line of a text and a column on it, and `Scan.StandsIn.isPlace` says that a
  scan is at one as long as something is left.
* `Scan.OnTrack` is what a scan keeps: all that is open was opened at a place of the text.
* `Scan.OnTrack.isPlace_of_step`, `Assembly.isPlace_of_next` and `Stream.lies_of_next` are the
  faults of the three stages.  One kind of them may be in no place: of a string in single
  quotes that runs over the end of a line, the line is that of its end and the column that of
  its beginning (`Fault.IsAtBroken`).
-/

namespace BlockLexer

open Text

/-! ## Places of a text -/

/-- A line of a text, and a column on it: that of a character, or the one behind the last. -/
def IsPlace (text : List Char) (line column : Nat) : Prop :=
  0 < line ∧ 0 < column ∧ ∃ chars ∈ (splitLines text)[line - 1]?, column ≤ chars.length + 1

instance (text : List Char) (line column : Nat) : Decidable (IsPlace text line column) :=
  inferInstanceAs (Decidable (_ ∧ _ ∧ _))

variable {text : List Char} {line column : Nat}

/-- A line begins with a place. -/
theorem IsPlace.first (h : IsPlace text line column) : IsPlace text line 1 := by
  obtain ⟨hline, -, chars, hchars, -⟩ := h
  exact ⟨hline, Nat.one_pos, chars, hchars, Nat.le_add_left 1 _⟩

/-- A text with a place has lines. -/
theorem IsPlace.lines_ne_nil (h : IsPlace text line column) : splitLines text ≠ [] := by
  intro hnil
  obtain ⟨-, -, chars, hchars, -⟩ := h
  rw [hnil] at hchars
  cases hchars

theorem columnBehind_pos (before : List Char) : 0 < columnBehind before :=
  Nat.lt_of_lt_of_le Nat.one_pos (Nat.le_add_right 1 _)

/-- Two places of a text with the same line and column are the same. -/
theorem eq_of_place {before behind before' behind' : List Char}
    (htext : before ++ behind = before' ++ behind') (hline : lineBehind before = lineBehind before')
    (hcolumn : columnBehind before = columnBehind before') :
    before = before' ∧ behind = behind' := by
  have nothing {before more : List Char} (hline : lineBehind (before ++ more) = lineBehind before)
      (hcolumn : columnBehind (before ++ more) = columnBehind before) : more = [] := by
    unfold lineBehind at hline
    rw [List.count_append] at hline
    rw [columnBehind_append (List.count_eq_zero.1 (by omega))] at hcolumn
    exact List.length_eq_zero_iff.1 (by omega)
  have hsame : before = before' := by
    rcases List.append_eq_append_iff.1 htext with ⟨more, rfl, -⟩ | ⟨more, rfl, -⟩
    · rw [nothing hline.symm hcolumn.symm, List.append_nil]
    · rw [nothing hline hcolumn, List.append_nil]
  subst hsame
  exact ⟨rfl, List.append_cancel_left htext⟩

/-- A place of a line, as the line table has it. -/
theorem isPlace_of_get? {tabWidth : Nat} {placed : Line}
    (h : (LineTable.ofText tabWidth text).get? line = some placed) (hpos : 0 < column)
    (hle : column ≤ placed.chars.length + 1) : IsPlace text line column := by
  obtain ⟨i, rfl, hget, -⟩ := LineTable.exists_of_get?_ofText h
  exact ⟨Nat.succ_pos i, hpos, placed.chars, hget, hle⟩

namespace Scan

variable {tabWidth : Nat} {s t u : Scan} {pieces : List Piece} {piece : Piece} {fault : Fault}

/-- As long as something is left, a scan is at a place of its text. -/
theorem StandsIn.isPlace (h : StandsIn text s) (hrest : s.rest ≠ []) :
    IsPlace text s.position.line s.position.column := by
  obtain ⟨passed, htext, hposition⟩ := id h
  obtain ⟨line, hline, hchars, -⟩ := h.exists_line_at htext hrest 0
  have hcolumn : s.position.column = columnBehind passed := by
    rw [hposition, Position.column_eq]
  refine isPlace_of_get? hline (hcolumn ▸ columnBehind_pos passed) ?_
  rw [hcolumn, columnBehind_eq, hchars, List.length_append]
  omega

/-- The end of a text is a place, if the text has lines. -/
theorem isPlace_faultAtEnd (htext : splitLines text ≠ []) (cause : Cause) :
    IsPlace text (faultAtEnd (.ofText tabWidth text) cause).line
      (faultAtEnd (.ofText tabWidth text) cause).column := by
  have hsize : 0 < (LineTable.ofText tabWidth text).size := by
    rw [LineTable.size_ofText]
    exact List.length_pos_iff.2 htext
  obtain ⟨last, hlast⟩ := (LineTable.ofText tabWidth text).exists_get? _ hsize (Nat.le_refl _)
  unfold faultAtEnd
  dsimp only
  rw [Nat.max_eq_left hsize, hlast, Option.elim_some]
  exact isPlace_of_get? hlast (Nat.succ_pos _) (Nat.le_refl _)

end Scan

/-! ## What is open -/

/-- What is open was opened at a place of the text. -/
def Activation.OpensIn (text : List Char) : Activation → Prop
  | .block | .expression _ => splitLines text ≠ []
  | .body opened => IsPlace text opened.marker 1
  | .string _ _ line column => IsPlace text line column

namespace Scan

variable {tabWidth : Nat} {s t u : Scan} {pieces : List Piece} {piece : Piece} {fault : Fault}

/-- What a scan keeps that its faults take their places from. -/
structure OnTrack (tabWidth : Nat) (text : List Char) (s : Scan) : Prop where
  way : OnWay (.ofText tabWidth text) text s
  opened : ∀ activation ∈ s.modes, activation.OpensIn text

/-- What a step opens, it opens at the place of the scan. -/
theorem Effect.opensIn {piece? : Option Piece} (he : Effect (.ofText tabWidth text) s t piece?)
    (hstep : s.step (.ofText tabWidth text) = (t, piece?.map Except.ok))
    (hplace : IsPlace text s.position.line s.position.column)
    (h : ∀ activation ∈ s.modes, activation.OpensIn text) :
    ∀ activation ∈ t.modes, activation.OpensIn text := by
  have hlines := hplace.lines_ne_nil
  cases he with
  | still _ hmodes | membersBegin _ _ hmodes | named _ _ _ hmodes | term _ _ _ hmodes =>
    rw [hmodes]
    exact h
  | blockOpens _ _ _ _ _ hmodes =>
    rw [hmodes]
    exact List.forall_mem_cons.2 ⟨hlines, h⟩
  | expressionOpens _ _ _ hmodes =>
    rw [hmodes]
    exact List.forall_mem_cons.2 ⟨hlines, h⟩
  | blockCloses _ _ hmodes | expressionCloses _ _ hmodes | bodyCloses _ hmodes
  | stringCloses _ hmodes =>
    rw [hmodes] at h
    exact (List.forall_mem_cons.1 h).2
  | bracketTurns _ _ hmode hmodes =>
    rw [hmode] at h
    rw [hmodes]
    exact List.forall_mem_cons.2 ⟨hlines, (List.forall_mem_cons.1 h).2⟩
  | bodyOpens hmode hmodes =>
    obtain ⟨marker, hmarker, rfl, -⟩ := exists_marker_of_step hstep hmode hmodes
    rw [hmodes]
    refine List.forall_mem_cons.2 ⟨?_, h⟩
    have hnumber := LineTable.numbered_ofText _ _ _ _ hmarker
    show IsPlace text marker.number 1
    rw [hnumber]
    exact hplace.first
  | @stringOpens piece style raw _ _ hkind hmode hmodes =>
    rcases exists_of_step (some piece) hstep with ⟨hnil, rfl, -⟩ | ⟨rule, m, a, left, hselect,
      -, hact, htmodes, -⟩
    · exact h
    have hmem := mem_rules_of_select hselect
    rw [hmode] at hmem
    obtain rfl := eq_openString_of_act hmem hact hkind
    cases hact
    cases hkind
    rw [htmodes]
    exact List.forall_mem_cons.2 ⟨hplace, h⟩

theorem OnTrack.step (piece? : Option Piece) (h : OnTrack tabWidth text s) (hs : s.isDone = false)
    (hstep : s.step (.ofText tabWidth text) = (t, piece?.map Except.ok)) :
    OnTrack tabWidth text t := by
  refine ⟨h.way.step piece? (LineTable.numbered_ofText tabWidth text) hs hstep, ?_⟩
  by_cases hrest : s.rest = []
  · rcases exists_of_step piece? hstep with ⟨-, rfl, -⟩ | ⟨rule, m, a, left, hselect, -⟩
    · exact h.opened
    · exact absurd hrest (Mode.ne_nil_of_select hselect)
  · exact (effect_of_rest piece? hs hrest hstep).opensIn hstep
      (h.way.stands.isPlace hrest) h.opened

theorem OnTrack.settles (h : OnTrack tabWidth text s)
    (hsettles : Settles (.ofText tabWidth text) piece s t) : OnTrack tabWidth text t :=
  ⟨h.way.settles hsettles, hsettles.same.1.symm ▸ h.opened⟩

theorem OnTrack.run (h : OnTrack tabWidth text s)
    (hrun : Run (.ofText tabWidth text) s pieces t) : OnTrack tabWidth text t := by
  induction hrun with
  | refl s => exact h
  | quiet hs hstep _ ih => exact ih (h.step none hs hstep)
  | piece hs hstep hsettles _ ih => exact ih ((h.step (some _) hs hstep).settles hsettles)

/-! ## Faults of the scan -/

/-- A step that fails does so at a place of the text. -/
theorem OnTrack.isPlace_of_step (h : OnTrack tabWidth text s)
    (hstep : s.step (.ofText tabWidth text) = (t, some (.error fault))) :
    IsPlace text fault.line fault.column := by
  cases fails_of_step hstep with
  | finish hrest hfinish =>
    -- At the end of the text something is open.
    have hopened := h.opened
    unfold Scan.finish at hfinish
    split at hfinish
    · cases hfinish
    · next hmodes =>
      obtain rfl := Except.error.inj hfinish
      exact hopened _ (hmodes ▸ List.mem_cons_self)
    · next hmodes =>
      obtain rfl := Except.error.inj hfinish
      exact hopened _ (hmodes ▸ List.mem_cons_self)
    · next brackets _ hmodes =>
      have hlines : splitLines text ≠ [] :=
        hopened (.expression brackets) (hmodes ▸ List.mem_cons_self)
      split at hfinish
      · obtain rfl := Except.error.inj hfinish
        exact isPlace_faultAtEnd hlines _
      · obtain rfl := Except.error.inj hfinish
        exact isPlace_faultAtEnd hlines _
    · next hmodes =>
      have hlines : splitLines text ≠ [] := hopened .block (hmodes ▸ List.mem_cons_self)
      obtain rfl := Except.error.inj hfinish
      exact isPlace_faultAtEnd hlines _
  | @stuck c cs hrest _ =>
    have hplace := h.way.stands.isPlace (hrest ▸ List.cons_ne_nil c cs)
    unfold Scan.stuck
    repeat' split
    all_goals exact hplace
  | refused hselect _ => exact h.way.stands.isPlace (Mode.ne_nil_of_select hselect)

/-- A piece that is neither a body nor the end of the text begins at a place of the text. -/
theorem OnTrack.isPlace_of_piece (h : OnTrack tabWidth text s)
    (hstep : s.step (.ofText tabWidth text) = (t, some (.ok piece)))
    (hbody : piece.kind ≠ .token .body) (hend : piece.kind ≠ .token .endOfText) :
    IsPlace text piece.span.line piece.span.column := by
  obtain ⟨lexeme, more, hcuts, -⟩ := exists_cuts_of_step hstep hbody
  have hrest : s.rest ≠ [] := by
    intro hnil
    rcases exists_of_step (some piece) hstep with ⟨-, -, hfinish⟩ | ⟨rule, m, a, left, hselect, -⟩
    · obtain ⟨-, rfl⟩ := eq_of_finish (Option.some.inj hfinish).symm
      exact hend rfl
    · exact Mode.ne_nil_of_select hselect hnil
  rw [hcuts.span]
  exact h.way.stands.isPlace hrest

theorem OnTrack.isPlace_of_next (h : OnTrack tabWidth text s)
    (hnext : s.next (.ofText tabWidth text) = (t, some (.error fault))) :
    IsPlace text fault.line fault.column := by
  obtain ⟨m, hrun, -, hstep⟩ := run_of_next hnext
  exact (h.run hrun).isPlace_of_step hstep

/-- A pull of a piece stays on track. -/
theorem OnTrack.next (h : OnTrack tabWidth text s)
    (hnext : s.next (.ofText tabWidth text) = (t, some (.ok piece))) :
    OnTrack tabWidth text t ∧ (piece.kind ≠ .token .body → piece.kind ≠ .token .endOfText →
      IsPlace text piece.span.line piece.span.column) := by
  obtain ⟨m, hrun, hm, hstep⟩ := run_of_next hnext
  have hm' := h.run hrun
  exact ⟨hm'.step (some piece) hm hstep, hm'.isPlace_of_piece hstep⟩

end Scan

/-! ## Strings -/

namespace Assembly

variable {tabWidth : Nat} {a a' : Assembly} {s t : Scan} {start piece : Piece} {fault : Fault}

open Scan (OnTrack Settles Run)

/-- A string that is not complete fails at its beginning, or where the scan fails. -/
theorem isPlace_of_parts {afterBreak : Bool} (h : OnTrack tabWidth text s)
    (hstart : IsPlace text start.span.line start.span.column)
    (hparts : parts (.ofText tabWidth text) start afterBreak s = (t, .error fault)) :
    IsPlace text fault.line fault.column := by
  fun_induction parts (.ofText tabWidth text) start afterBreak s generalizing fault with
  | case1 | case7 | case8 =>
    obtain rfl := Except.error.inj (Prod.mk.inj hparts).2
    exact hstart
  | case2 _ s s' fault' hpull =>
    obtain rfl := Except.error.inj (Prod.mk.inj hparts).2
    exact h.isPlace_of_next hpull
  | case3 _ s s' piece hpull _ last rest hrec ih
  | case4 _ s s' piece hpull _ last rest hrec ih
  | case5 _ s s' piece hpull _ last rest hrec ih =>
    obtain ⟨rfl, hrest⟩ := Prod.mk.inj hparts
    exact ih (h.next hpull).1 (by rw [hrec, eq_error_of_map_eq_error hrest])
  | case6 => cases (Prod.mk.inj hparts).2

/-- A token that is refused is so at its beginning, or where the scan fails. -/
theorem isPlace_of_tokenOf (h : OnTrack tabWidth text s)
    (hpiece : piece.kind ≠ .token .body → piece.kind ≠ .token .endOfText →
      IsPlace text piece.span.line piece.span.column)
    (htoken : tokenOf (.ofText tabWidth text) piece s = (t, .error fault)) :
    IsPlace text fault.line fault.column := by
  unfold tokenOf at htoken
  split at htoken
  · cases (Prod.mk.inj htoken).2
  · next hkind =>
    have hstart := hpiece (by simp [hkind]) (by simp [hkind])
    split at htoken
    · next hparts =>
      obtain rfl := Except.error.inj (Prod.mk.inj htoken).2
      exact isPlace_of_parts h hstart hparts
    split at htoken
    · next hliteral =>
      obtain rfl := Except.error.inj (Prod.mk.inj htoken).2
      unfold literal at hliteral
      split at hliteral
      · obtain rfl := Except.error.inj hliteral
        exact hstart
      · cases hliteral
    · cases (Prod.mk.inj htoken).2
  all_goals
    next hkind =>
    obtain rfl := Except.error.inj (Prod.mk.inj htoken).2
    exact hpiece (by simp [hkind]) (by simp [hkind])

/-- The faults of the assembly are at places of the text. -/
theorem isPlace_of_next (h : OnTrack tabWidth text a.scan)
    (hnext : a.next (.ofText tabWidth text) = (a', some (.error fault))) :
    IsPlace text fault.line fault.column := by
  unfold next at hnext
  split at hnext
  · cases hnext
  split at hnext
  · cases hnext
  · next hpull =>
    obtain rfl := Except.error.inj (Option.some.inj (Prod.mk.inj hnext).2)
    exact h.isPlace_of_next hpull
  next hpull =>
  obtain ⟨hs, hpiece⟩ := h.next hpull
  split at hnext
  · cases hnext
  · next htoken =>
    obtain rfl := Except.error.inj (Option.some.inj (Prod.mk.inj hnext).2)
    exact isPlace_of_tokenOf hs hpiece htoken

end Assembly

/-! ## Tokens and their check -/

/-- A string in single quotes that runs over the end of a line.  Its line is the one on which
it ends, and its column the one in which it begins. -/
def Token.RunsOver (text : List Char) (token : Token) : Prop :=
  ∃ before lexeme after, Placed text token before lexeme after ∧ token.IsBroken lexeme ∧
    token.span.line = lineBehind (before ++ lexeme)

/-- A fault at such a string, which stands where no literal may stand. -/
def Fault.IsAtBroken (text : List Char) (fault : Fault) : Prop :=
  ∃ token clash previous, token.RunsOver text ∧
    fault = Stream.faultAt token (.adjacency clash previous .string)

/-- A fault lies at a place of a text, or at a string that runs over the end of a line. -/
def Fault.Lies (text : List Char) (fault : Fault) : Prop :=
  IsPlace text fault.line fault.column ∨ IsPlace text fault.line 1 ∧ fault.IsAtBroken text

namespace Assembly

variable {tabWidth : Nat} {a a' : Assembly} {token : Token}

open Scan (OnTrack Settles Run)

/-- A pull of a token stays on track. -/
theorem onTrack_of_next (h : OnTrack tabWidth text a.scan)
    (hnext : a.next (.ofText tabWidth text) = (a', some (.ok token))) :
    OnTrack tabWidth text a'.scan := by
  obtain ⟨pieces, m, piece, t, hrun, -, hm, hstep, -, hscan, hevent, -⟩ := run_of_next hnext
  have ht := (h.run hrun).step (some piece) hm hstep
  by_cases hstring : piece.kind = .stringEnd
  · obtain ⟨event, hreport⟩ := hevent hstring
    rw [hreport]
    exact ht.settles (.string event hstring)
  · rw [hscan hstring]
    exact ht

/-- A token that is neither a body nor the end of the text begins at a place of the text,
unless it is a string that runs over the end of a line. -/
theorem isPlace_or_runsOver_of_next (h : OnTrack tabWidth text a.scan)
    (hnext : a.next (.ofText tabWidth text) = (a', some (.ok token)))
    (hbody : token.kind ≠ .body) (hend : token.kind ≠ .endOfText) :
    IsPlace text token.span.line token.span.column ∨
      IsPlace text token.span.line 1 ∧ token.RunsOver text := by
  obtain ⟨pieces, m, piece, t, hrun, hmakes, hm, hstep, -⟩ := run_of_next hnext
  have hm' := h.run hrun
  generalize hall : pieces ++ [piece] = all at hmakes
  cases hmakes with
  | @token piece' kind hkind =>
    obtain ⟨-, hpiece⟩ := List.append_inj' (hall.trans (List.nil_append [piece']).symm) rfl
    obtain rfl : piece = piece' := by simpa using hpiece
    refine .inl (hm'.isPlace_of_piece hstep ?_ ?_)
    · rw [hkind]
      exact fun he => hbody (PieceKind.token.inj he)
    · rw [hkind]
      exact fun he => hend (PieceKind.token.inj he)
  | @string start stop parts style raw _ hstart hparts hstop hliteral =>
    obtain ⟨rfl, hpiece⟩ := List.append_inj' hall rfl
    obtain rfl : piece = stop := by simpa using hpiece
    obtain ⟨m₁, t₁, v, hquiet, hm₁, hopen, hsettles, hparts'⟩ := Run.uncons hrun
    have htrack := h.run hquiet
    obtain ⟨letter, inner, hencloses⟩ :=
      Scan.exists_encloses hm₁ hopen hsettles hparts' hstep hstart hparts hstop
    obtain ⟨hkind, hspan⟩ := Scan.span_of_literal hliteral
    have hplace := htrack.isPlace_of_piece hopen (by simp [hstart]) (by simp [hstart])
    have hlast := hm'.isPlace_of_piece hstep (by simp [hstop]) (by simp [hstop])
    rw [hspan]
    by_cases htriple : style.isTriple = true
    · rw [if_pos htriple]
      exact .inl hplace
    rw [if_neg htriple]
    have hends := hencloses.endLine
    rw [← hencloses.line] at hends
    by_cases hfeed : '\n' ∈ letter ++ style.quotes ++ inner
    · refine .inr ⟨hlast.first, ?_⟩
      obtain ⟨before, hposition, hplaced, -⟩ :=
        hencloses.exists_placed htrack.way.stands hliteral
      refine ⟨before, _, _, hplaced, ⟨hkind, ?_, List.mem_append_left _ hfeed⟩, ?_⟩
      · rw [← hencloses.triple]
        exact eq_false_of_ne_true htriple
      · rw [hspan]
        show (if style.isTriple = true then start.span.line else piece.span.line) = _
        rw [if_neg htriple, hends, hencloses.line, hposition, Position.line_eq]
        simp only [lineBehind, List.count_append, style.count_quotes]
        omega
    · rw [hends, List.count_eq_zero.2 hfeed]
      exact .inl hplace

end Assembly

namespace Stream

variable {tabWidth : Nat} {s s' : Stream} {fault : Fault}

open Scan (OnTrack)

/-- Why a token is refused. -/
theorem check_eq_error {table : LineTable} {previous : Option Kind} {blocks : BlockStack}
    {token : Token} (h : check table previous blocks token = .error fault) :
    (∃ clash kind, kind.clash? token.kind = some clash ∧
      fault = faultAt token (.adjacency clash kind token.kind)) ∨
    token.kind = .attributeName ∧ ∃ cause, fault = faultAt token cause := by
  unfold check at h
  split at h
  · next clash kind hclash =>
    obtain ⟨kind', -, hmap⟩ := Option.bind_eq_some_iff.1 hclash
    obtain ⟨clash', hclash', hpair⟩ := Option.map_eq_some_iff.1 hmap
    obtain ⟨rfl, rfl⟩ := Prod.mk.inj hpair
    exact .inl ⟨clash', kind', hclash', (Except.error.inj h).symm⟩
  · split at h
    · next hkind =>
      split at h
      · cases h
      · next cause _ => exact .inr ⟨hkind, cause, (Except.error.inj h).symm⟩
    · cases h

/-- Only literals and identifiers clash with what stands in front of them. -/
theorem ne_structural_of_clash {previous next : Kind} {clash : Clash}
    (h : previous.clash? next = some clash) : next.category ≠ .structural := by
  intro hcategory
  unfold Kind.clash? at h
  rw [hcategory] at h
  split at h <;> simp_all

/-- The faults of the checked stream lie in the text. -/
theorem lies_of_next (h : OnTrack tabWidth text s.assembly.scan)
    (hnext : s.next (.ofText tabWidth text) = (s', some (.error fault))) : fault.Lies text := by
  fun_induction next (.ofText tabWidth text) s with
  | case1 | case2 | case6 => cases (Prod.mk.inj hnext).2
  | case3 s hdone assembly fault' hpull =>
    obtain rfl := Except.error.inj (Option.some.inj (Prod.mk.inj hnext).2)
    exact .inl (Assembly.isPlace_of_next h hpull)
  | case4 s hdone assembly token hpull hfiltered ih =>
    exact ih (Assembly.onTrack_of_next h hpull) hnext
  | case5 s hdone assembly token hpull hkept fault' hcheck =>
    obtain rfl := Except.error.inj (Option.some.inj (Prod.mk.inj hnext).2)
    rcases check_eq_error hcheck with ⟨clash, kind, hclash, rfl⟩ | ⟨hkind, cause, rfl⟩
    · have hcategory := ne_structural_of_clash hclash
      rcases Assembly.isPlace_or_runsOver_of_next h hpull
        (fun he => hcategory (he ▸ rfl)) (fun he => hcategory (he ▸ rfl)) with
        hplace | ⟨hline, hover⟩
      · exact .inl hplace
      · refine .inr ⟨hline, token, clash, kind, hover, ?_⟩
        obtain ⟨-, -, -, -, ⟨hstring, -⟩, -⟩ := hover
        rw [hstring]
    · rcases Assembly.isPlace_or_runsOver_of_next h hpull (by simp [hkind])
        (by simp [hkind]) with hplace | ⟨-, hover⟩
      · exact .inl hplace
      · obtain ⟨-, -, -, -, ⟨hstring, -⟩, -⟩ := hover
        cases hkind.symm.trans hstring

end Stream

end BlockLexer
