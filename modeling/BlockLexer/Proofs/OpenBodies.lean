import BlockLexer.Proofs.Cursor
import BlockLexer.Proofs.Memory
import BlockLexer.Proofs.Nesting
import Mathlib.Data.List.TakeWhile

/-!
# Bodies of a scan

A scan that has opened a body looks one line ahead at every line of it.  This module says
which lines belong to the body, in the words that are used for the bodies of a file.

* `OpenBody.continues_of_step` and `OpenBody.exists_of_step`: a body goes on with the next
  line, or ends in front of it.
* `Scan.HoldsBody` is a body that is open at a line, and `Scan.holdsBodies_of_run` says that
  every body that a scan has open is one.
* `Scan.exists_of_body_piece` is a body that is yielded.
* `Scan.modes_of_runsTo`: a body stays open as long as the lines go on with it.
* `Scan.mem_blockKinds_of_act`: a rule of a block yields only pieces of its own kinds.
-/

namespace BlockLexer

open Text

/-! ## The end of a body -/

namespace OpenBody

variable {table : LineTable} {body : OpenBody} {current : Nat} {ahead : Line}
  {closed : ClosedBody}

theorem lastFilled_le (table : LineTable) (marker number : Nat) :
    lastFilled table marker number ≤ number := by
  fun_induction lastFilled table marker number with
  | case1 => exact Nat.le_refl 0
  | case2 number _ ih => exact Nat.le_succ_of_le ih
  | case3 => exact Nat.le_refl _

/-- A body that does not end goes on with the next line. -/
theorem continues_of_step (h : body.step table current = none)
    (hahead : table.get? (current + 1) = some ahead) : ahead.continues body.indent = true := by
  unfold step at h
  rw [hahead] at h
  dsimp only at h
  unfold Line.continues
  split at h
  · cases h
  next hmarker =>
  split at h
  · cases h
  next hleft =>
  simp only [Bool.and_eq_true, Bool.not_eq_true', decide_eq_true_eq, not_and, Nat.not_lt] at hleft
  rw [Bool.not_eq_true] at hmarker
  rw [hmarker, Bool.not_false, Bool.true_and, Bool.or_eq_true, decide_eq_true_eq]
  cases hblank : ahead.isBlank with
  | true => exact .inl rfl
  | false => exact .inr (hleft hblank)

/-- A body that ends does so in front of a line that does not go on with it, and its text
reaches no further than the line before. -/
theorem exists_of_step (h : body.step table current = some closed) :
    ∃ ahead last, table.get? (current + 1) = some ahead ∧
      ahead.continues body.indent = false ∧ last ≤ current ∧
      closed = body.close table (if body.marker < last then some last else none) := by
  unfold step at h
  split at h
  · cases h
  next ahead hahead =>
  dsimp only at h
  split at h
  · next hmarker =>
    refine ⟨ahead, current, hahead, ?_, Nat.le_refl _, (Option.some.inj h).symm⟩
    rw [Line.continues, hmarker]
    rfl
  next hmarker =>
  split at h
  · next hleft =>
    simp only [Bool.and_eq_true, Bool.not_eq_true', decide_eq_true_eq] at hleft
    refine ⟨ahead, _, hahead, ?_, lastFilled_le table body.marker current, (Option.some.inj h).symm⟩
    rw [Line.continues, hleft.1, Bool.false_or, decide_eq_false (Nat.not_le_of_lt hleft.2),
      Bool.and_false]
  · cases h

end OpenBody

/-! ## Markers -/

section Markers

variable {cs : List Char} {m : Match}

/-- A marker takes three dashes and what follows them on its line up to a comment. -/
theorem Rule.exists_of_bodyMarker (h : Rule.match? .bodyMarker cs = some m) :
    ∃ more, cs = '-' :: '-' :: '-' :: more ∧
      m.lexeme = '-' :: '-' :: '-' :: more.takeWhile (fun c => c ≠ '\n' && c ≠ ';') := by
  obtain ⟨left, hcut, -⟩ := Match.exists_append_of_ofPattern
    ((Pattern.isCut_word _).seq (Pattern.isCut_many _)) h
  obtain ⟨dashes, names, between, hdashes, hnames, hlexeme⟩ := Pattern.exists_of_seq_eq_some hcut
  obtain ⟨hword, hpair⟩ := Option.ite_none_right_eq_some.1 hdashes
  obtain ⟨rfl, rfl⟩ := Prod.mk.inj (Option.some.inj hpair)
  obtain ⟨rfl, -⟩ := Prod.mk.inj (Option.some.inj hnames)
  refine ⟨cs.drop 3, ?_, hlexeme.trans (congrArg (· ++ _) hword)⟩
  exact (List.take_append_drop 3 cs).symm.trans (congrArg (· ++ _) hword)

/-- A marker takes no end of a line. -/
theorem Rule.lineFeed_not_mem_of_bodyMarker (h : Rule.match? .bodyMarker cs = some m) :
    '\n' ∉ m.lexeme := by
  obtain ⟨more, -, hlexeme⟩ := exists_of_bodyMarker h
  rw [hlexeme]
  intro hfeed
  simp only [List.mem_cons, Char.reduceEq, false_or] at hfeed
  have hin := List.mem_takeWhile_imp hfeed
  simp at hin

end Markers

namespace Scan

variable {table : LineTable} {s t u : Scan} {pieces : List Piece} {piece? : Option Piece}
  {body : OpenBody} {outer : List Activation}

/-! ## One line of a body -/

theorem count_takeWhile_eq_zero {p : Char → Bool} {c : Char} (hc : p c = false)
    {cs : List Char} : (cs.takeWhile p).count c = 0 := by
  rw [List.count_eq_zero]
  intro hmem
  rw [List.mem_takeWhile_imp hmem] at hc
  cases hc

/-- In a body a step takes the rest of the line, and the body ends with it or not. -/
theorem step_in_body (piece? : Option Piece) (hmodes : s.modes = .body body :: outer)
    (h : s.step table = (t, piece?.map Except.ok)) :
    t.position.line = s.position.line + 1 ∧
      ((body.step table s.position.line = none ∧ piece? = none ∧ t.modes = s.modes) ∨
        ∃ closed, body.step table s.position.line = some closed ∧ t.modes = outer ∧
          piece? = some
            { kind := .token .body
              value := .body closed.text
              span :=
                { start := closed.start, stop := closed.stop, line := closed.text.startLine,
                  column := 1 } }) := by
  rcases exists_of_step piece? h with ⟨-, -, hfinish⟩ | ⟨rule, m, a, left, hselect, hrest, hact,
    htmodes, -, hposition⟩
  · rw [finish, hmodes] at hfinish
    cases piece? <;> cases hfinish
  have hmode : s.mode = .body := by rw [mode, hmodes]; rfl
  have hrule : rule = .bodyLine := by
    have hmem := mem_rules_of_select hselect
    rw [hmode] at hmem
    exact List.mem_singleton.1 hmem
  subst hrule
  refine ⟨?_, ?_⟩
  · obtain ⟨left', hcut, -⟩ := Match.exists_append_of_ofPattern
      ((Pattern.isCut_many _).seq (Pattern.isCut_one _)) (Mode.match?_of_select hselect)
    obtain ⟨line, feed, between, hline, hfeed, hlexeme⟩ := Pattern.exists_of_seq_eq_some hcut
    obtain ⟨rfl, rfl⟩ := Prod.mk.inj (Option.some.inj hline)
    have hone : feed.count '\n' = 1 := by
      obtain ⟨c, hc, rfl, -⟩ := Pattern.exists_of_one_eq_some hfeed
      rw [of_decide_eq_true hc]
      rfl
    rw [hposition, Position.line_after, hlexeme, List.count_append,
      count_takeWhile_eq_zero (by decide), hone]
  · rw [htmodes]
    cases accepts_of_act hact with
    | bodyLine hgoes => exact .inl ⟨hgoes body outer hmodes, rfl, rfl⟩
    | @lastBodyLine _ _ closed hopen hstep =>
      obtain ⟨hsame, rfl⟩ := List.cons.inj (hopen.symm.trans hmodes)
      obtain rfl := Activation.body.inj hsame
      exact .inr ⟨closed, hstep, congrArg List.tail hmodes, rfl⟩

/-! ## Open bodies -/

/-- A body that is open at a line: its marker has been passed, and so far all lines behind
the marker go on with it. -/
structure HoldsBody (table : LineTable) (body : OpenBody) (line : Nat) : Prop where
  pos : 0 < body.marker
  start : ∀ ahead, table.get? (body.marker + 1) = some ahead → body.start = ahead.start
  indent : body.indent = table.bodyIndent body.marker
  le : body.marker ≤ line
  runs : table.RunsTo body.marker (min line table.size)

/-- Below the innermost activation there is no body. -/
theorem Stacked.not_body_below {n : Nat} {top : Activation}
    (h : Stacked n (top :: .body body :: outer)) : False := by
  have hnot (hrest : .body body :: outer = List.replicate n .block) : False := by
    have hmem : Activation.body body ∈ List.replicate n Activation.block :=
      hrest ▸ List.mem_cons_self
    cases List.eq_of_mem_replicate hmem
  rcases h with h | ⟨_, -, h⟩ | ⟨_, -, h⟩ | ⟨_, _, _, _, _, -, h⟩
  · have hmem : Activation.body body ∈ List.replicate n Activation.block :=
      h ▸ List.mem_cons_of_mem top List.mem_cons_self
    cases List.eq_of_mem_replicate hmem
  · exact hnot (List.cons.inj h).2
  · exact hnot (List.cons.inj h).2
  · cases (List.cons.inj (List.cons.inj h).2).1

/-- Only a marker in a block opens a body. -/
theorem Effect.opens_body {n : Nat} (he : Effect table s t piece?) (hstacked : Stacked n s.modes)
    (hnot : ∀ outer, s.modes ≠ .body body :: outer) (hmodes : t.modes = .body body :: outer) :
    piece? = none ∧ s.mode = .block ∧ outer = s.modes := by
  cases he with
  | still _ hsame | membersBegin _ _ hsame | named _ _ _ hsame | term _ _ _ hsame =>
    exact absurd (hsame.symm.trans hmodes) (hnot outer)
  | blockOpens _ _ _ _ _ hsame | expressionOpens _ _ _ hsame | bracketTurns _ _ _ hsame
  | stringOpens _ _ hsame =>
    cases hsame.symm.trans hmodes
  | blockCloses _ _ hsame | expressionCloses _ _ hsame | stringCloses _ hsame
  | bodyCloses _ hsame =>
    rw [hsame, hmodes] at hstacked
    exact hstacked.not_body_below.elim
  | bodyOpens hmode hsame =>
    obtain ⟨-, rfl⟩ := List.cons.inj (hsame.symm.trans hmodes)
    exact ⟨rfl, hmode, rfl⟩

/-- The kinds of what a rule of a block may yield, or that it yields nothing. -/
def blockKinds : Rule → List (Option PieceKind)
  | .className => [some (.token .className), some (.token .instanceName)]
  | .instanceName => [some (.token .instanceName)]
  | .blockEnd => [some (.token .blockEnd)]
  | .attributeName => [some (.token .attributeName)]
  | .headerNewline => [some (.token .newline)]
  | .blanks => [some (.token .blanks)]
  | .directive | .comment | .bodyMarker => [none]
  | _ => []

theorem mem_blockKinds_of_act {a : Scan} {rule : Rule} {m : Match} {piece? : Option Piece}
    (hrule : rule ∈ Mode.block.rules) (h : s.act table rule m = (a, .ok piece?)) :
    piece?.map Piece.kind ∈ blockKinds rule := by
  cases accepts_of_act h with
  | directive | comment | blanks | blockEnd | attributeName | bodyMarker | closingMarker
  | strayMarker | instanceName | headerNewline | memberNewline => exact List.mem_singleton_self _
  | className => exact List.mem_cons_self
  | capitalName => exact .tail _ (List.mem_singleton_self _)
  | _ => simp [Mode.rules] at hrule

/-- Of the rules that have nothing to yield in a block, only that of markers changes the
modes. -/
theorem eq_bodyMarker_of_act {a : Scan} {rule : Rule} {m : Match} (hrule : rule ∈ Mode.block.rules)
    (h : s.act table rule m = (a, .ok none)) (hmodes : a.modes ≠ s.modes) :
    rule = .bodyMarker := by
  cases accepts_of_act h with
  | bodyMarker | closingMarker | strayMarker => rfl
  | directive | comment => exact absurd rfl hmodes
  | continuation | bodyLine => simp [Mode.rules] at hrule

/-- A body that is opened is that of the line at the place of the scan, on which a marker is
matched. -/
theorem exists_marker_of_step (h : s.step table = (t, none)) (hmode : s.mode = .block)
    (hmodes : t.modes = .body body :: s.modes) :
    ∃ marker, table.get? s.position.line = some marker ∧ body = .ofMarker table marker ∧
      t.position.line = s.position.line ∧ ∃ m, s.mode.select s.rest = some (.bodyMarker, m) := by
  have hne : t.modes ≠ s.modes := by
    intro hsame
    have hlength := congrArg List.length (hmodes.symm.trans hsame)
    rw [List.length_cons] at hlength
    omega
  rcases exists_of_step none h with ⟨-, rfl, -⟩ | ⟨rule, m, a, left, hselect, hrest,
    hact, htmodes, -, hposition⟩
  · exact absurd rfl hne
  have hmem := mem_rules_of_select hselect
  rw [hmode] at hmem
  obtain rfl : rule = .bodyMarker :=
    eq_bodyMarker_of_act hmem hact fun hsame => hne (htmodes.trans hsame)
  have hline : t.position.line = s.position.line := by
    have hfree := Rule.lineFeed_not_mem_of_bodyMarker (Mode.match?_of_select hselect)
    rw [hposition, Position.line_after, List.count_eq_zero.2 hfree]
    rfl
  cases accepts_of_act hact with
  | closingMarker | strayMarker => exact absurd htmodes hne
  | @bodyMarker marker _ hmarker =>
    have hopened : Activation.body body :: s.modes =
        .body (.ofMarker table marker) :: s.modes := hmodes.symm.trans htmodes
    exact ⟨marker, hmarker, Activation.body.inj (List.cons.inj hopened).1, hline, m, hselect⟩

/-- What holds of the body that a scan has open, if it has one open. -/
def HoldsBodies (table : LineTable) (s : Scan) : Prop :=
  ∀ body outer, s.modes = .body body :: outer → HoldsBody table body s.position.line

/-- A scan begins without a body. -/
theorem holdsBodies_of_start (table : LineTable) (hmodes : s.modes = []) :
    HoldsBodies table s := by
  intro body outer hbody
  cases hmodes.symm.trans hbody

/-- A line that goes on with a body keeps it open. -/
theorem HoldsBody.next {line : Nat} (h : HoldsBody table body line)
    (hstep : body.step table line = none) : HoldsBody table body (line + 1) := by
  refine ⟨h.pos, h.start, h.indent, Nat.le_succ_of_le h.le, ?_⟩
  have hruns := h.runs
  rcases Nat.lt_or_ge line table.size with hlt | hge
  · obtain ⟨ahead, hahead⟩ := table.exists_get? (line + 1) (Nat.succ_pos line) hlt
    rw [Nat.min_eq_left (Nat.le_of_lt hlt)] at hruns
    rw [Nat.min_eq_left hlt]
    refine hruns.snoc hahead ?_
    rw [← h.indent]
    exact OpenBody.continues_of_step hstep hahead
  · rw [Nat.min_eq_right hge] at hruns
    rwa [Nat.min_eq_right (Nat.le_succ_of_le hge)]

/-- A step keeps what holds of an open body. -/
theorem holdsBodies_of_step {n : Nat} (piece? : Option Piece) (hnumbered : table.Numbered)
    (hstacked : Stacked n s.modes) (he : Effect table s t piece?)
    (hstep : s.step table = (t, piece?.map Except.ok)) (h : HoldsBodies table s) :
    HoldsBodies table t := by
  intro body outer hmodes
  by_cases hin : ∃ body' outer', s.modes = .body body' :: outer'
  · obtain ⟨body', outer', hin⟩ := hin
    obtain ⟨hline, ⟨hstays, -, hsame⟩ | ⟨closed, -, hleft, -⟩⟩ := step_in_body piece? hin hstep
    · rw [hsame] at hmodes
      rw [hline]
      obtain ⟨hbody, -⟩ := List.cons.inj (hin.symm.trans hmodes)
      obtain rfl := Activation.body.inj hbody
      exact (h body' outer hmodes).next hstays
    · rw [hin, ← hleft, hmodes] at hstacked
      exact hstacked.not_body_below.elim
  · obtain ⟨rfl, hmode, rfl⟩ :=
      he.opens_body hstacked (fun outer' hout => hin ⟨body, outer', hout⟩) hmodes
    obtain ⟨marker, hmarker, rfl, hline, -⟩ := exists_marker_of_step hstep hmode hmodes
    have hnumber : marker.number = s.position.line := hnumbered _ _ hmarker
    refine ⟨?_, fun ahead hahead => ?_, rfl, ?_, ?_⟩
    · change 0 < marker.number
      rw [hnumber]
      exact LineTable.pos_of_get? hmarker
    · have hget : table.get? (marker.number + 1) = some ahead := hahead
      rw [OpenBody.ofMarker, hget]
      rfl
    · change marker.number ≤ _
      rw [hnumber, hline]
    · change table.RunsTo marker.number _
      rw [hnumber, hline]
      exact (table.runsTo_self _).mono (Nat.min_le_left _ _)

/-- Every body that a scan has open on its way is open at its line. -/
theorem holdsBodies_of_run {before : List Piece} (hnumbered : table.Numbered)
    (hrun : Run table s pieces t) (hnested : Nested table before s) (h : HoldsBodies table s) :
    HoldsBodies table t := by
  induction hrun generalizing before with
  | refl s => exact h
  | quiet hs hstep _ ih =>
    have he := (effect_of_step_quiet hstep).1
    exact ih (nested_of_effect hnested hs he)
      (holdsBodies_of_step none hnumbered hnested.stacked he hstep h)
  | @piece s t t' u piece pieces hs hstep hsettles _ ih =>
    have hlater := nested_of_settles hsettles (nested_of_step hnested hs hstep)
    obtain ⟨hmodes', -, -⟩ := hsettles.same
    have hposition : t'.position = t.position := congrArg (·.2.1) hsettles.place_eq
    refine ih hlater fun body outer hmodes => ?_
    rw [hmodes'] at hmodes
    rw [hposition]
    rcases effect_of_step hs hstep with ⟨hend, -, rfl⟩ | ⟨-, he, -⟩
    · cases hend.symm.trans hmodes
    · exact holdsBodies_of_step (some piece) hnumbered hnested.stacked he hstep h body
        outer hmodes

/-! ## Bodies that are yielded -/

/-- A run passes the state in which it yields a piece. -/
theorem Run.exists_of_mem {piece : Piece} (hrun : Run table s pieces u) (h : piece ∈ pieces) :
    ∃ before m t, Run table s before m ∧ m.isDone = false ∧
      m.step table = (t, some (.ok piece)) := by
  induction hrun with
  | refl s => cases h
  | quiet hs hstep _ ih =>
    obtain ⟨before, m, t, hbefore, hm, hlast⟩ := ih h
    exact ⟨before, m, t, .quiet hs hstep hbefore, hm, hlast⟩
  | piece hs hstep hsettles _ ih =>
    rcases List.mem_cons.1 h with rfl | hmem
    · exact ⟨[], _, _, .refl _, hs, hstep⟩
    · obtain ⟨before, m, t, hbefore, hm, hlast⟩ := ih hmem
      exact ⟨_ :: before, m, t, .piece hs hstep hsettles hbefore, hm, hlast⟩

/-- Only a body that closes yields a body. -/
theorem Effect.closes_body {piece : Piece} (he : Effect table s t (some piece))
    (hkind : piece.kind = .token .body) : ∃ body, s.modes = .body body :: t.modes := by
  cases he.delimits hkind rfl with
  | bodyCloses hmodes => exact ⟨_, hmodes⟩

/-- A body that a scan yields was open at the line before its end. -/
theorem exists_of_body_piece {piece : Piece} (hnumbered : table.Numbered)
    (hrun : Run table s pieces u) (hmodes : s.modes = []) (hblocks : s.blocks = [])
    (hpiece : piece ∈ pieces) (hkind : piece.kind = .token .body) :
    ∃ body current closed, HoldsBody table body current ∧
      body.step table current = some closed ∧ piece.value = .body closed.text ∧
      piece.span.stop = closed.stop := by
  obtain ⟨before, m, t, hbefore, hm, hstep⟩ := hrun.exists_of_mem hpiece
  have hholds : HoldsBodies table m :=
    holdsBodies_of_run hnumbered hbefore (nested_of_start hmodes hblocks)
      (holdsBodies_of_start table hmodes)
  rcases effect_of_step hm hstep with ⟨-, hend, -⟩ | ⟨-, he, -⟩
  · cases hend.symm.trans hkind
  obtain ⟨body, htop⟩ := he.closes_body hkind
  obtain ⟨-, ⟨-, hnone, -⟩ | ⟨closed, hclosed, -, hsome⟩⟩ :=
    step_in_body (some piece) htop hstep
  · cases hnone
  · obtain rfl := Option.some.inj hsome
    exact ⟨body, m.position.line, closed, hholds body _ htop, hclosed, rfl, rfl⟩

/-! ## Bodies that stay open -/

/-- A body is open as long as the lines go on with it. -/
theorem modes_of_runsTo (hrun : Run table s pieces t) (hmodes : s.modes = .body body :: outer)
    (hindent : body.indent = table.bodyIndent body.marker) (hle : body.marker ≤ s.position.line)
    (h : table.RunsTo body.marker t.position.line) : t.modes = .body body :: outer := by
  induction hrun with
  | refl s => exact hmodes
  | quiet hs hstep hrest ih =>
    obtain ⟨hline, ⟨-, -, hsame⟩ | ⟨closed, -, -, hpiece⟩⟩ :=
      step_in_body none hmodes hstep
    · exact ih (hsame.trans hmodes) (by omega) h
    · cases hpiece
  | @piece s t t' u piece pieces hs hstep hsettles hrest ih =>
    obtain ⟨hline, ⟨-, hpiece, -⟩ | ⟨closed, hclosed, -, -⟩⟩ :=
      step_in_body (some piece) hmodes hstep
    · cases hpiece
    · -- The scan has come to the line in front of which the body ends.
      obtain ⟨ahead, last, hahead, hstops, -, -⟩ := OpenBody.exists_of_step hclosed
      have hsame : t'.position = t.position := congrArg (·.2.1) hsettles.place_eq
      have hlater := line_le_of_run hrest
      rw [hsame, hline] at hlater
      have hcontinues := h (s.position.line + 1) (by omega) hlater
      rw [hahead, Option.any_some, ← hindent, hstops] at hcontinues
      cases hcontinues

end Scan

end BlockLexer
