import BlockLexer.Proofs.Crossing
import BlockLexer.Proofs.Select

/-!
# The extent of an expression

An expression begins behind the sign of its attribute and goes on over as many lines as its
brackets need.  A scan counts the brackets as it comes to them; this module says that it stops
where `ExpressionEnds` says, which only looks at the text.

* `Scan.RunToBlock` is the way of a scan for as long as it is not in a block.
* `Scan.Amid` holds of a scan in an expression: it knows what was seen of the text so far.
  `Scan.Amid.of_crosses` keeps it over a step and `Scan.Amid.of_run` over a way.
* `Scan.extent_of_attribute` is the extent of the expression of an attribute.
-/

namespace BlockLexer

open Text Pattern Lexeme

namespace Scan

variable {table : LineTable} {s t t' u : Scan} {brackets : Brackets} {outer : List Activation}
  {name piece : Piece} {pieces : List Piece} {cs left : List Char}
  {before : List (Char × List Char)} {bracket : Bracket} {rule : Rule} {m : Match}

/-! ## Ways up to a block -/

/-- Behind a piece the later stages do something, unless the scan is alone. -/
def MaySettle (table : LineTable) (piece : Piece) (s t : Scan) : Prop :=
  t = s ∨ Settles table piece s t

theorem MaySettle.same (h : MaySettle table piece t t') :
    t'.modes = t.modes ∧ t'.rest = t.rest ∧ t'.isDone = t.isDone := by
  rcases h with rfl | hsettles
  · exact ⟨rfl, rfl, rfl⟩
  · exact ⟨hsettles.same.1, hsettles.rest_eq, hsettles.same.2.2⟩

/-- The way of a scan without a fault.  It ends where it comes to a block, or before. -/
inductive RunToBlock (table : LineTable) : Scan → List Piece → Scan → Prop
  | refl (s : Scan) : RunToBlock table s [] s
  | quiet {s t u : Scan} {pieces : List Piece} (hs : s.isDone = false) (hmode : s.mode ≠ .block)
      (hstep : s.step table = (t, none)) (hrest : RunToBlock table t pieces u) :
      RunToBlock table s pieces u
  | piece {s t t' u : Scan} {piece : Piece} {pieces : List Piece} (hs : s.isDone = false)
      (hmode : s.mode ≠ .block) (hstep : s.step table = (t, some (.ok piece)))
      (hsettles : MaySettle table piece t t') (hrest : RunToBlock table t' pieces u) :
      RunToBlock table s (piece :: pieces) u

theorem RunToBlock.eq_of_block (h : RunToBlock table s pieces u) (hmode : s.mode = .block) :
    pieces = [] ∧ u = s := by
  cases h with
  | refl => exact ⟨rfl, rfl⟩
  | quiet _ hne | piece _ hne => exact absurd hmode hne

/-- A run goes its way up to a block, and then on. -/
theorem Run.exists_runToBlock (h : Run table s pieces u) :
    ∃ own more w, pieces = own ++ more ∧ RunToBlock table s own w ∧ Run table w more u ∧
      (w.mode = .block ∨ more = [] ∧ w = u) := by
  induction h with
  | refl s => exact ⟨[], [], s, rfl, .refl s, .refl s, .inr ⟨rfl, rfl⟩⟩
  | @quiet s t u pieces hs hstep hrest ih =>
    by_cases hmode : s.mode = .block
    · exact ⟨[], pieces, s, rfl, .refl s, .quiet hs hstep hrest, .inl hmode⟩
    · obtain ⟨own, more, w, hpieces, hown, hmore, hend⟩ := ih
      exact ⟨own, more, w, hpieces, .quiet hs hmode hstep hown, hmore, hend⟩
  | @piece s t t' u piece pieces hs hstep hsettles hrest ih =>
    by_cases hmode : s.mode = .block
    · exact ⟨[], piece :: pieces, s, rfl, .refl s, .piece hs hstep hsettles hrest, .inl hmode⟩
    · obtain ⟨own, more, w, rfl, hown, hmore, hend⟩ := ih
      exact ⟨piece :: own, more, w, rfl, .piece hs hmode hstep (.inr hsettles) hown, hmore, hend⟩

/-! ## Amid an expression -/

/-- A scan in an expression that began with a text has seen so much of it.  All brackets that
were closed were open, and no line ended where the expression could end. -/
structure Amid (cs : List Char) (outer : List Activation) (brackets : Brackets)
    (before : List (Char × List Char)) (s : Scan) : Prop where
  inside : s.InExpression brackets outer
  seen : visible cs = before ++ s.ahead
  counts : CountsTo (before.map Prod.fst) brackets
  opened : IsOpened (before.map Prod.fst)
  goesOn : GoesOn (before.map Prod.fst)

/-- At the beginning of an expression nothing of it is seen. -/
theorem amid_nil (hmodes : s.modes = .expression {} :: outer) : s.Amid s.rest outer {} [] where
  inside := .bare hmodes
  seen := (ahead_of_expression hmodes).symm
  counts := countsTo_nil
  opened := isOpened_nil
  goesOn := goesOn_nil

/-- A scan is amid an expression by its modes and what it has left. -/
theorem Amid.of_same (h : t.Amid cs outer brackets before) (hmodes : t'.modes = t.modes)
    (hrest : t'.rest = t.rest) : t'.Amid cs outer brackets before where
  inside := by
    rcases h.inside with ht | ht
    · exact .bare (hmodes.trans ht)
    · exact .string (hmodes.trans ht)
  seen := by
    have hahead : t'.ahead = t.ahead := by rw [ahead, hmodes, hrest, ahead]
    rw [hahead, h.seen]
  counts := h.counts
  opened := h.opened
  goesOn := h.goesOn

/-- A bracket that is closed and taken was open. -/
theorem Amid.lt_of_take? {c : Char} {kind : Kind} {brackets' : Brackets}
    (h : s.Amid cs outer brackets before) (hc : isBracket c = true)
    (htake : brackets.take? [c] = some (kind, brackets')) (bracket : Bracket)
    (hclosing : c = bracket.closingChar) :
    (before.map Prod.fst).count bracket.closingChar <
      (before.map Prod.fst).count bracket.openingChar := by
  have hpos : brackets.depth bracket ≠ 0 := by
    intro hdepth
    have hnone := (Brackets.take?_eq_none_iff hc).2 ⟨bracket, hclosing, hdepth⟩
    rw [htake] at hnone
    cases hnone
  have hcount := h.counts bracket
  omega

/-- A step goes on in the expression, or it ends it where it ends. -/
theorem Amid.of_crosses (h : s.Amid cs outer brackets before)
    (hcross : Crosses brackets outer s t) :
    (∃ brackets' before', t.Amid cs outer brackets' before') ∨
      (t.modes = outer ∧ ExpressionEnds cs t.rest) := by
  have hsee {seen behind : List (Char × List Char)} (hahead : s.ahead = seen ++ behind) :
      visible cs = (before ++ seen) ++ behind := by
    rw [h.seen, hahead, List.append_assoc]
  cases hcross with
  | @inert seen hseen hahead ht =>
    have hinert : ∀ c ∈ seen.map Prod.fst, isInert c = true := List.forall_mem_map.2 hseen
    refine .inl ⟨brackets, before ++ seen, ht, hsee hahead, ?_, ?_, ?_⟩
    all_goals rw [List.map_append]
    · exact h.counts.append hinert
    · exact h.opened.append hinert
    · exact h.goesOn.append hinert
  | @bracket c kind brackets' hc htake hahead ht =>
    have hfeed : c ≠ '\n' := by
      rintro rfl
      cases hc
    have hmore : t.ahead = visible t.rest := ahead_of_expression ht
    refine .inl ⟨brackets', before ++ [(c, t.rest)], .bare ht, hsee hahead, ?_, ?_, ?_⟩
    all_goals rw [List.map_append]
    · exact h.counts.bracket hc htake
    · exact h.opened.snoc (h.lt_of_take? hc htake)
    · exact h.goesOn.snoc fun heq => absurd heq hfeed
  | lineFeed hahead ht =>
    by_cases hbalanced : brackets.isBalanced = true
    · rw [if_pos hbalanced] at ht
      have heven := h.counts.isEven_iff.2 hbalanced
      exact .inr ⟨ht, before, visible t.rest, by rw [h.seen, hahead], heven, h.goesOn⟩
    · rw [if_neg hbalanced] at ht
      rw [← ahead_of_expression ht] at hahead
      refine .inl ⟨brackets, before ++ [('\n', t.rest)], .bare ht, hsee hahead, ?_, ?_, ?_⟩
      all_goals rw [List.map_append]
      · exact h.counts.lineFeed
      · refine h.opened.snoc fun bracket hclosing => ?_
        cases bracket <;> cases hclosing
      · exact h.goesOn.snoc fun _ heven => hbalanced (h.counts.isEven_iff.1 heven)

/-- On its way up to a block a scan stays in the expression, unless it comes to its end. -/
theorem Amid.of_run (houter : modeOf outer = .block) (h : s.Amid cs outer brackets before)
    (hrun : RunToBlock table s pieces u) :
    (∀ piece ∈ pieces, piece.kind.IsInExpression) ∧
      ((∃ brackets' before', u.Amid cs outer brackets' before') ∨
        (u.modes = outer ∧ ExpressionEnds cs u.rest)) := by
  have block {t : Scan} (hmodes : t.modes = outer) : t.mode = .block :=
    (congrArg modeOf hmodes).trans houter
  induction hrun generalizing brackets before with
  | refl s => exact ⟨List.forall_mem_nil _, .inl ⟨brackets, before, h⟩⟩
  | quiet hs _ hstep hrest ih =>
    rcases h.of_crosses (crosses_of_step none h.inside hstep) with ⟨_, _, ht⟩ | hend
    · exact ih ht
    · obtain ⟨rfl, rfl⟩ := hrest.eq_of_block (block hend.1)
      exact ⟨List.forall_mem_nil _, .inr hend⟩
  | @piece s t t' u piece pieces hs _ hstep hsettles hrest ih =>
    obtain ⟨hmodes, hleft, -⟩ := hsettles.same
    have hpiece := isInExpression_of_step hs h.inside hstep
    rcases h.of_crosses (crosses_of_step (some piece) h.inside hstep) with ⟨_, _, ht⟩ | hend
    · obtain ⟨hpieces, hu⟩ := ih (ht.of_same hmodes hleft)
      exact ⟨List.forall_mem_cons.2 ⟨hpiece, hpieces⟩, hu⟩
    · rw [← hmodes, ← hleft] at hend
      obtain ⟨rfl, rfl⟩ := hrest.eq_of_block (block hend.1)
      exact ⟨List.forall_mem_singleton.2 hpiece, .inr hend⟩

/-! ## Where an expression ends, and where a bracket is refused -/

/-- A place that an expression sees is behind a scan or ahead of it. -/
theorem Amid.or_of_visible {front more : List (Char × List Char)} {spot : Char × List Char}
    (h : u.Amid cs outer brackets before) (hcs : visible cs = front ++ spot :: more) :
    (∃ between, before = front ++ spot :: between) ∨
      ∃ between, u.ahead = between ++ spot :: more ∧ front = before ++ between := by
  rcases List.append_eq_append_iff.1 (h.seen.symm.trans hcs) with
    ⟨between, hfront, hahead⟩ | ⟨between, hbefore, hmore⟩
  · exact .inr ⟨between, hahead, hfront⟩
  · cases between with
    | nil => exact .inr ⟨[], hmore.symm, by rw [hbefore, List.append_nil, List.append_nil]⟩
    | cons first between =>
      obtain ⟨rfl, -⟩ := List.cons.inj hmore
      exact .inl ⟨between, hbefore⟩

theorem length_lt_of_mem_ahead {c : Char} (h : (c, left) ∈ s.ahead) :
    left.length < s.rest.length := by
  unfold ahead at h
  split at h
  · exact Nat.lt_of_succ_lt (length_lt_of_mem_visibleBehind h)
  · exact length_lt_of_mem_visible h

/-- A scan amid an expression is not where it ends. -/
theorem Amid.not_expressionEnds (h : u.Amid cs outer brackets before) :
    ¬ ExpressionEnds cs u.rest := by
  rintro ⟨front, more, hcs, heven, -⟩
  rcases h.or_of_visible hcs with ⟨between, hbefore⟩ | ⟨between, hahead, -⟩
  · exact h.goesOn _ (between.map Prod.fst) (by rw [hbefore, List.map_append, List.map_cons]) heven
  · have hmem : ('\n', u.rest) ∈ u.ahead := hahead ▸ List.mem_append_right _ List.mem_cons_self
    exact Nat.lt_irrefl _ (length_lt_of_mem_ahead hmem)

/-- Only a closing bracket without an open one of its kind is refused as one. -/
theorem InExpression.exists_of_closingBracket {fault : Fault} (h : s.InExpression brackets outer)
    (hstep : s.step table = (t, some (.error fault))) (hcause : fault.cause = .closingBracket) :
    s.modes = .expression brackets :: outer ∧
      ∃ bracket left, s.rest = bracket.closingChar :: left ∧ brackets.depth bracket = 0 := by
  cases fails_of_step hstep with
  | finish _ hfinish =>
    unfold finish at hfinish
    rcases h with hmodes | hmodes
    · rw [hmodes] at hfinish
      dsimp only at hfinish
      split at hfinish <;> cases hfinish <;> cases hcause
    · rw [hmodes] at hfinish
      cases hfinish
      cases hcause
  | stuck =>
    unfold stuck at hcause
    repeat' split at hcause
    all_goals cases hcause
  | @refused rule m cause hselect hrefuses =>
    obtain rfl : cause = .closingBracket := hcause
    have hmem := mem_rules_of_select hselect
    cases hrefuses with
    | member hmode => exact absurd hmode h.mode_ne_block
    | close => exact absurd (Mode.eq_of_mem_rules hmem rfl) h.mode_ne_block
    | bracket hmodes htake =>
      rcases h with hbare | hstring
      · obtain ⟨hsame, rfl⟩ := List.cons.inj (hmodes.symm.trans hbare)
        cases hsame
        refine ⟨hbare, ?_⟩
        obtain ⟨c, left, hc, hlexeme, hrest⟩ :=
          Match.exists_of_one (Mode.match?_of_select hselect)
        rw [hlexeme] at htake
        obtain ⟨bracket, rfl, hdepth⟩ := (Brackets.take?_eq_none_iff hc).1 htake
        exact ⟨bracket, left, hrest, hdepth⟩
      · cases hmodes.symm.trans hstring

/-- A closing bracket without an open one of its kind is refused. -/
theorem exists_step_of_closingChar (hmodes : s.modes = .expression brackets :: outer)
    (hrest : s.rest = bracket.closingChar :: left) (hdepth : brackets.depth bracket = 0) :
    ∃ t, s.step table = (t, some (.error (s.fault .closingBracket))) := by
  have hmode : s.mode = .expression := by rw [mode, hmodes]; rfl
  have hselect : s.mode.select s.rest = some (.bracket, { lexeme := [bracket.closingChar] }) := by
    rw [hmode, hrest]
    exact Mode.select_expression_closing bracket left
  have hnone : brackets.take? [bracket.closingChar] = none :=
    (Brackets.take?_eq_none_iff (isBracket_closingChar bracket)).2 ⟨bracket, rfl, hdepth⟩
  have hact (event : Event) : (s.report event).takeBracket { lexeme := [bracket.closingChar] } =
      (s.report event, .error (s.fault .closingBracket)) := by
    unfold takeBracket
    rw [show (s.report event).modes = _ from hmodes]
    dsimp only
    rw [hnone]
    rfl
  exact ⟨_, step_of_select_error hselect (hact _)⟩

/-- What is refused as a closing bracket is the first one that nothing opens. -/
theorem Amid.unopenedAt {fault : Fault} (h : u.Amid cs outer brackets before)
    (hstep : u.step table = (t, some (.error fault))) (hcause : fault.cause = .closingBracket) :
    ∃ bracket left, u.rest = bracket.closingChar :: left ∧ UnopenedAt cs bracket left := by
  obtain ⟨hmodes, bracket, left, hrest, hdepth⟩ := h.inside.exists_of_closingBracket hstep hcause
  have hahead : u.ahead = (bracket.closingChar, left) :: visible left := by
    rw [ahead_of_expression hmodes, hrest]
    exact visible_of_not_hides (hides_of_isBracket (isBracket_closingChar bracket)) left
  have hcount := h.counts bracket
  refine ⟨bracket, left, hrest, before, visible left, ?_, by omega, h.opened, h.goesOn⟩
  rw [h.seen, hahead]

/-- The first closing bracket that nothing opens is refused. -/
theorem Amid.exists_step_of_unopenedAt (h : u.Amid cs outer brackets before)
    (hrest : u.rest = bracket.closingChar :: left) (hunopened : UnopenedAt cs bracket left) :
    ∃ t, u.step table = (t, some (.error (u.fault .closingBracket))) := by
  obtain ⟨front, more, hcs, hle, -⟩ := hunopened
  have hlength : u.rest.length = left.length + 1 := by rw [hrest, List.length_cons]
  rcases h.or_of_visible hcs with ⟨between, hbefore⟩ | ⟨between, hahead, rfl⟩
  · have hlt := h.opened _ (between.map Prod.fst) bracket
      (by rw [hbefore, List.map_append, List.map_cons])
    omega
  have hmem : (bracket.closingChar, left) ∈ u.ahead :=
    hahead ▸ List.mem_append_right _ List.mem_cons_self
  cases h.inside with
  | string hmodes =>
    rw [ahead_of_string hmodes] at hmem
    have hlt := length_lt_of_mem_visibleBehind hmem
    omega
  | bare hmodes =>
    -- Only the place of the scan itself has so much behind it.
    have hfirst : u.ahead = (bracket.closingChar, left) :: visible left := by
      rw [ahead_of_expression hmodes, hrest]
      exact visible_of_not_hides (hides_of_isBracket (isBracket_closingChar bracket)) left
    cases between with
    | nil =>
      have hcount := h.counts bracket
      rw [List.append_nil] at hle
      exact exists_step_of_closingChar hmodes hrest (by omega)
    | cons first between =>
      obtain ⟨-, hbehind⟩ := List.cons.inj (hfirst.symm.trans hahead)
      have hlate : (bracket.closingChar, left) ∈ visible left :=
        hbehind ▸ List.mem_append_right _ List.mem_cons_self
      exact absurd (length_lt_of_mem_visible hlate) (Nat.lt_irrefl _)

/-! ## Every expression ends, or there is a fault -/

theorem Crosses.inside_or (h : Crosses brackets outer s t) :
    (∃ brackets', t.InExpression brackets' outer) ∨ t.modes = outer := by
  cases h with
  | inert _ _ ht => exact .inl ⟨brackets, ht⟩
  | bracket _ _ _ ht => exact .inl ⟨_, .bare ht⟩
  | lineFeed _ ht =>
    split at ht
    · exact .inr ht
    · exact .inl ⟨brackets, .bare ht⟩

/-- A scan in an expression comes back to the block, or to a fault. -/
theorem InExpression.exists_runToBlock (table : LineTable) (houter : modeOf outer = .block)
    (hs : s.isDone = false) (h : s.InExpression brackets outer) :
    ∃ pieces u, RunToBlock table s pieces u ∧
      (u.mode = .block ∨ ∃ v fault, u.step table = (v, some (.error fault))) := by
  induction hlength : s.rest.length using Nat.strong_induction_on generalizing s brackets with
  | _ n ih =>
    subst hlength
    have further (piece? : Option Piece) {t : Scan}
        (hstep : s.step table = (t, piece?.map Except.ok)) (ht : t.isDone = false) :
        ∃ pieces u, RunToBlock table t pieces u ∧
          (u.mode = .block ∨ ∃ v fault, u.step table = (v, some (.error fault))) := by
      obtain ⟨rule, m, a, hselect, hrest, -⟩ := h.exists_of_step piece? hstep
      rcases (crosses_of_step piece? h hstep).inside_or with ⟨brackets', hinside⟩ | hmodes
      · have hlength := congrArg List.length hrest
        have hpos := List.length_pos_iff.2 (Mode.select_lexeme_ne_nil hselect)
        rw [List.length_append] at hlength
        exact ih t.rest.length (by omega) ht hinside rfl
      · exact ⟨[], t, .refl t, .inl ((congrArg modeOf hmodes).trans houter)⟩
    rcases hstep : s.step table with ⟨t, _ | fault | piece⟩
    · obtain ⟨pieces, u, hrun, hend⟩ := further none hstep ((step_quiet table hstep).2.trans hs)
      exact ⟨pieces, u, .quiet hs h.mode_ne_block hstep hrun, hend⟩
    · exact ⟨[], s, .refl s, .inr ⟨t, fault, hstep⟩⟩
    · obtain ⟨rule, m, a, hselect, -⟩ := h.exists_of_step (some piece) hstep
      have ht := isDone_of_step hs (Mode.ne_nil_of_select hselect) hstep
      obtain ⟨pieces, u, hrun, hend⟩ := further (some piece) hstep ht
      exact ⟨piece :: pieces, u, .piece hs h.mode_ne_block hstep (.inl rfl) hrun, hend⟩

/-! ## Attributes -/

/-- A text is a word, a sign with the blanks around it, and what is left. -/
def IsAssignment (word cs left : List Char) : Prop :=
  ∃ front back, front.all isBlank ∧ back.all isBlank ∧
    cs = word ++ (front ++ '=' :: (back ++ left)) ∧ Stops isBlank left

theorem all_of_gap {word : List Char} (h : gap cs = some (word, left)) :
    word.all isBlank = true := by
  obtain ⟨rfl, -⟩ := Prod.mk.inj (Option.some.inj h)
  exact List.all_takeWhile

theorem isAssignment_of_match? (h : Rule.attributeName.match? (m.lexeme ++ left) = some m) :
    IsAssignment m.groupText (m.lexeme ++ left) left := by
  rw [Rule.match?] at h
  obtain ⟨x, word, sign, behind, cs, left', hnothing, hword, hassign, hm⟩ :=
    Match.exists_of_ofGroup h
  obtain ⟨rfl, rfl⟩ := Prod.mk.inj (Option.some.inj hnothing)
  have hcs := isCut_assignment _ _ _ hassign
  have hsplit := isCut_name _ _ _ hword
  rw [hcs, ← List.append_assoc, hm] at hsplit
  obtain rfl := List.append_cancel_left hsplit
  obtain ⟨front, _, _, hfront, hsign, -⟩ := exists_of_seq_eq_some hassign
  obtain ⟨_, back, _, hequals, hback, -⟩ := exists_of_seq_eq_some hsign
  obtain ⟨c, hc, -, rfl⟩ := exists_of_one_eq_some hequals
  obtain rfl := of_decide_eq_true hc
  have hgroup : m.groupText = word := by rw [hm]; rfl
  refine ⟨front, back, all_of_gap hfront, all_of_gap hback, ?_, ?_⟩
  · rw [hgroup, ← isCut_many _ _ _ _ hback, ← isCut_many _ _ _ _ hfront]
    exact isCut_name _ _ _ hword
  · obtain ⟨-, rfl⟩ := Prod.mk.inj (Option.some.inj hback)
    exact stops_dropWhile isBlank _

/-- In a block only the rule of attributes yields the name of one. -/
theorem eq_attributeName_of_act {a : Scan} (hrule : rule ∈ Mode.block.rules)
    (h : s.act table rule m = (a, .ok (some name))) (hkind : name.kind = .token .attributeName) :
    rule = .attributeName := by
  have hkinds := mem_blockKinds_of_act hrule h
  rw [Option.map_some, hkind] at hkinds
  cases rule with
  | attributeName => rfl
  | _ => simp [blockKinds] at hkinds

/-- The name of an attribute is that of an assignment, and behind the sign an expression is
open. -/
theorem assigns_of_step (hs : s.isDone = false) (hstep : s.step table = (t, some (.ok name)))
    (hkind : name.kind = .token .attributeName) :
    s.mode = .block ∧ t.modes = .expression {} :: s.modes ∧
      ∃ word, name.value = .text word ∧ IsAssignment word s.rest t.rest := by
  obtain ⟨hmode, hmodes⟩ : s.mode = .block ∧ t.modes = .expression {} :: s.modes := by
    rcases effect_of_step hs hstep with ⟨-, hend, -⟩ | ⟨-, he, -⟩
    · cases hend.symm.trans hkind
    · exact (he.of_attributeName hkind).2
  rcases exists_of_step (some name) hstep with ⟨-, rfl, -⟩ | ⟨rule, m, a, left, hselect, hrest,
    hact, -, rfl, -⟩
  · exact absurd hmodes.symm (List.cons_ne_self _ _)
  have hmem := mem_rules_of_select hselect
  rw [hmode] at hmem
  obtain rfl := eq_attributeName_of_act hmem hact hkind
  have hmatch := Mode.match?_of_select hselect
  rw [hrest] at hmatch
  refine ⟨hmode, hmodes, m.groupText, ?_, hrest ▸ isAssignment_of_match? hmatch⟩
  cases accepts_of_act hact
  rfl

/-- What there is to say of a scan that yielded these pieces since an expression began with a
text.  The scan is in the block again just where the expression ends. -/
structure KeepsExtent (table : LineTable) (cs : List Char) (outer : List Activation)
    (pieces : List Piece) (u : Scan) : Prop where
  ends : u.mode = .block ↔ ExpressionEnds cs u.rest
  modes_eq : u.mode = .block → u.modes = outer
  yields : ∀ piece ∈ pieces, piece.kind.IsInExpression
  tokens : ∀ tokens, Assembled pieces tokens → ∀ token ∈ tokens, token.kind.IsInExpression
  refused : u.mode ≠ .block → ∀ v fault, u.step table = (v, some (.error fault)) →
    fault.cause = .closingBracket →
      ∃ bracket left, u.rest = bracket.closingChar :: left ∧ UnopenedAt cs bracket left
  refuses : u.mode ≠ .block → ∀ bracket left, u.rest = bracket.closingChar :: left →
    UnopenedAt cs bracket left → ∃ v, u.step table = (v, some (.error (u.fault .closingBracket)))

theorem Amid.keepsExtent (houter : modeOf outer = .block) (h : s.Amid cs outer brackets before)
    (hrun : RunToBlock table s pieces u) : KeepsExtent table cs outer pieces u := by
  obtain ⟨hpieces, ⟨_, _, hu⟩ | ⟨hmodes, hends⟩⟩ := h.of_run houter hrun
  · have hmode := hu.inside.mode_ne_block
    exact ⟨⟨fun heq => absurd heq hmode, fun hends => absurd hends hu.not_expressionEnds⟩,
      fun heq => absurd heq hmode, hpieces, fun _ hassembled => hassembled.isInExpression hpieces,
      fun _ _ _ hstep hcause => hu.unopenedAt hstep hcause,
      fun _ _ _ hrest hunopened => hu.exists_step_of_unopenedAt hrest hunopened⟩
  · have hmode : u.mode = .block := (congrArg modeOf hmodes).trans houter
    exact ⟨⟨fun _ => hends, fun _ => hmode⟩, fun _ => hmodes, hpieces,
      fun _ hassembled => hassembled.isInExpression hpieces, fun hne => absurd hmode hne,
      fun hne => absurd hmode hne⟩

/-- The extent of the expression of an attribute.  It begins behind the sign and the blanks
around it.  From there the scan comes back to the block or to a fault, and on all its way it
`KeepsExtent`: it is in the block again just behind the first end of a line that is seen where
all brackets are closed, all that it yields belongs to the expression, and a closing bracket is
refused if it is the first that nothing opens.  A run behind the attribute goes this way first. -/
theorem extent_of_attribute (hs : s.isDone = false) (hstep : s.step table = (t, some (.ok name)))
    (hkind : name.kind = .token .attributeName) (hsettles : MaySettle table name t t') :
    (s.mode = .block ∧ ∃ word, name.value = .text word ∧ IsAssignment word s.rest t'.rest) ∧
      (∃ pieces u, RunToBlock table t' pieces u ∧
        (u.mode = .block ∨ ∃ v fault, u.step table = (v, some (.error fault)))) ∧
      (∀ pieces u, RunToBlock table t' pieces u →
        KeepsExtent table t'.rest s.modes pieces u) ∧
      ∀ pieces u, Run table t' pieces u → ∃ own more w, pieces = own ++ more ∧
        RunToBlock table t' own w ∧ Run table w more u ∧
          (w.mode = .block ∨ more = [] ∧ w = u) := by
  obtain ⟨hmode, hmodes, word, hvalue, hassign⟩ := assigns_of_step hs hstep hkind
  obtain ⟨hsame, hrest, hdone⟩ := hsettles.same
  have hopen : t'.modes = .expression {} :: s.modes := hsame.trans hmodes
  have ht' : t'.isDone = false := by
    rcases effect_of_step hs hstep with ⟨-, hend, -⟩ | ⟨ht, -, -⟩
    · cases hend.symm.trans hkind
    · exact hdone.trans ht
  refine ⟨⟨hmode, word, hvalue, hrest ▸ hassign⟩, ?_, ?_, fun _ _ hrun => hrun.exists_runToBlock⟩
  · exact (InExpression.bare hopen).exists_runToBlock table hmode ht'
  · intro pieces u hrun
    exact (amid_nil hopen).keepsExtent hmode hrun

/-- Neither the bracket in the string nor that in the comment counts here. -/
theorem extent_of_attribute_on_two_lines :
    let table := LineTable.ofText 4 "A\nx = [')', ; (\n1]\nend\n".toList
    let s := (((ofText "A\nx = [')', ; (\n1]\nend\n".toList).step table).1.step table).1
    ∃ t, s.step table = (t, some (.ok (s.token .attributeName (.text ['x']) ['x']))) ∧
      t.rest = "[')', ; (\n1]\nend\n".toList ∧
      (∃ pieces u, RunToBlock table t pieces u ∧
        (u.mode = .block ∨ ∃ v fault, u.step table = (v, some (.error fault)))) ∧
      ∀ pieces u, RunToBlock table t pieces u → KeepsExtent table t.rest [.block] pieces u := by
  intro table s
  have hs : s.isDone = false := by decide +kernel
  have hmodes : s.modes = [.block] := by decide +kernel
  have hyields : (s.step table).2 = some (.ok (s.token .attributeName (.text ['x']) ['x'])) := by
    decide +kernel
  have hrest : (s.step table).1.rest = "[')', ; (\n1]\nend\n".toList := by decide +kernel
  rcases hstep : s.step table with ⟨t, item⟩
  rw [hstep] at hyields hrest
  obtain rfl : item = _ := hyields
  obtain ⟨-, hends, hkeeps, -⟩ := extent_of_attribute hs hstep rfl (.inl rfl)
  exact ⟨t, rfl, hrest, hends, hmodes ▸ hkeeps⟩

end Scan

end BlockLexer
