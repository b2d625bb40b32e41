import BlockLexer.Proofs.Resembling

/-!
# Scans at the end of a line

Two texts may differ in what stands at the end of a line and is skipped.  The scans of them
are abreast there: they are on the same line and remember the same, in different columns.

* `Scan.Abreast` are two such scans, and `Scan.Abreast.exists_steps` is the step of both over
  the end of the line, behind which they are twins.
* `Lexer.meanings_of_twins`: where two lexers have come to twins that read the same from there
  on, their tokens have the same meanings.
-/

namespace BlockLexer

open Text

/-! ## The rule of a line end -/

/-- A rule that takes the end of a line and yields it. -/
def Rule.EndsLine (rule : Rule) : Prop :=
  rule = .newline ∨ rule = .headerNewline ∨ rule = .expressionNewline

/-- Such a rule takes nothing else. -/
theorem Rule.EndsLine.lexeme_eq {rule : Rule} {cs : List Char} {m : Match} (hrule : rule.EndsLine)
    (h : rule.match? cs = some m) : m.lexeme = ['\n'] := by
  have hmatch : Match.ofPattern Lexeme.lineEnd cs = some m := by
    rcases hrule with rfl | rfl | rfl <;> exact h
  obtain ⟨c, left, hc, hlexeme, -⟩ := Match.exists_of_one hmatch
  rw [hlexeme, of_decide_eq_true hc]

/-- A line of a body ends with a line feed. -/
theorem Rule.lineFeed_mem_of_bodyLine {cs : List Char} {m : Match}
    (h : Rule.match? .bodyLine cs = some m) : '\n' ∈ m.lexeme := by
  obtain ⟨left, hcut, -⟩ := Match.exists_append_of_ofPattern
    ((Pattern.isCut_many _).seq (Pattern.isCut_one _)) h
  obtain ⟨line, feed, between, -, hfeed, hlexeme⟩ := Pattern.exists_of_seq_eq_some hcut
  cases between with
  | nil => cases hfeed
  | cons c between =>
    obtain ⟨hc, hsame⟩ := Option.ite_none_right_eq_some.1 hfeed
    obtain ⟨rfl, -⟩ := Prod.mk.inj (Option.some.inj hsame)
    rw [hlexeme, of_decide_eq_true hc]
    exact List.mem_append_right _ List.mem_cons_self

/-- Where no string and no body is open, the end of a line is taken by itself. -/
theorem Mode.exists_select_lineFeed {mode : Mode}
    (hmode : mode = .default ∨ mode = .block ∨ mode = .expression) :
    ∃ rule : Rule, rule.EndsLine ∧
      ∀ rest, mode.select ('\n' :: rest) = some (rule, { lexeme := ['\n'] }) := by
  rcases hmode with rfl | rfl | rfl
  · exact ⟨.newline, .inl rfl, fun _ => rfl⟩
  · exact ⟨.headerNewline, .inr (.inl rfl), fun _ => rfl⟩
  · exact ⟨.expressionNewline, .inr (.inr rfl), fun _ => rfl⟩

namespace Scan

variable {table table' : LineTable} {s s' v v' : Scan} {piece piece' : Piece}
  {more more' : List Char}

theorem exists_act_of_endsLine (table : LineTable) {rule : Rule} (hrule : rule.EndsLine)
    (m : Match) (s : Scan) :
    ∃ a piece, s.act table rule m = (a, .ok (some piece)) ∧ piece.kind = .token .newline := by
  rcases hrule with rfl | rfl | rfl
  · exact ⟨_, _, rfl, rfl⟩
  · show ∃ a piece, s.endBlockLine table m = _ ∧ _
    unfold endBlockLine
    dsimp only
    split
    all_goals exact ⟨_, _, rfl, rfl⟩
  · show ∃ a piece, s.endExpressionLine m = _ ∧ _
    unfold endExpressionLine
    dsimp only
    split
    all_goals exact ⟨_, _, rfl, rfl⟩

/-! ## Skipped matches -/

/-- A scan comes to what is left of its line, and nothing but its column changes. -/
structure Skips (table : LineTable) (left : List Char) (s t : Scan) : Prop where
  run : Run table s [] t
  rest : t.rest = left
  line : t.position.line = s.position.line
  mode : t.mode = s.mode
  memories : ∀ s', Shift.loose.Memories s s' → Shift.loose.Memories t s'
  goes : t.isDone = false

/-- A scan may skip nothing. -/
theorem skips_refl (table : LineTable) (hs : s.isDone = false) : Skips table s.rest s s :=
  ⟨.refl s, rfl, rfl, rfl, fun _ h => h, hs⟩

/-- An import and a comment are skipped. -/
theorem exists_skips (table : LineTable) {rule : Rule} {m : Match} {left : List Char}
    (hrule : rule = .directive ∨ rule = .comment) (hs : s.isDone = false)
    (hselect : s.mode.select s.rest = some (rule, m)) (hrest : s.rest = m.lexeme ++ left)
    (hm : '\n' ∉ m.lexeme) : ∃ t, Skips table left s t := by
  let seen := s.report (.ruleMatched rule s.mode s.position.line s.position.column)
  have hstep : s.step table = (seen.advance m.lexeme, none) := by
    have hact : seen.act table rule m = (seen, .ok none) := by
      rcases hrule with rfl | rfl <;> rfl
    exact step_of_select hselect hact
  refine ⟨seen.advance m.lexeme, .quiet hs hstep (.refl _), ?_, ?_, rfl, fun s' h => ?_, hs⟩
  · show s.rest.drop m.lexeme.length = left
    rw [hrest, List.drop_left]
  · show (s.position.after m.lexeme).line = _
    rw [Position.line_after, List.count_eq_zero.2 hm, Nat.add_zero]
  · exact ⟨h.modes, h.blocks, h.last, h.afterBody, h.isDone⟩

/-! ## Abreast -/

/-- Two scans that are at the end of the same line and remember the same. -/
structure Abreast (more more' : List Char) (s s' : Scan) : Prop where
  rest : s.rest = '\n' :: more
  rest' : s'.rest = '\n' :: more'
  line : s'.position.line = s.position.line
  memories : Shift.loose.Memories s s'
  mode : s.mode = .default ∨ s.mode = .block ∨ s.mode = .expression
  goes : s.isDone = false

/-- Twins that skip what is left of their lines. -/
theorem Twin.abreast {t t' : Scan} (h : Twin s s') (hskips : Skips table ('\n' :: more) s t)
    (hskips' : Skips table' ('\n' :: more') s' t')
    (hmode : s.mode = .default ∨ s.mode = .block ∨ s.mode = .expression) :
    Abreast more more' t t' := by
  refine ⟨hskips.rest, hskips'.rest, ?_, ?_, hskips.mode ▸ hmode, hskips.goes⟩
  · rw [hskips.line, hskips'.line, h.line_eq]
  · have hmemories := hskips.memories _ h.memories
    exact Shift.memories_loose_symm
      (hskips'.memories _ (Shift.memories_loose_symm hmemories))

theorem Abreast.symm (h : Abreast more more' s s') : Abreast more' more s' s := by
  refine ⟨h.rest', h.rest, h.line.symm, Shift.memories_loose_symm h.memories, ?_,
    h.memories.isDone.trans h.goes⟩
  rw [h.memories.mode]
  exact h.mode

/-- What the step over the end of a line comes to: twins at the beginning of the next line. -/
structure Steps (table table' : LineTable) (more more' : List Char) (s s' v v' : Scan)
    (piece piece' : Piece) : Prop where
  move : Move table s [piece] v
  move' : Move table' s' [piece'] v'
  agrees : piece.Agrees piece'
  twin : Twin v v'
  rest : v.rest = more
  rest' : v'.rest = more'
  line : v.position.line = s.position.line + 1
  column : v.position.column = 1
  goes : v.isDone = false

theorem Steps.symm (h : Steps table table' more more' s s' v v' piece piece')
    (hline : s'.position.line = s.position.line) :
    Steps table' table more' more s' s v' v piece' piece :=
  ⟨h.move', h.move, h.agrees.symm, h.twin.symm, h.rest', h.rest, by rw [h.twin.line_eq, h.line, hline],
    h.twin.positions.column.trans h.column, h.twin.memories.isDone.trans h.goes⟩

theorem Abreast.exists_steps_of_le (table table' : LineTable) (h : Abreast more more' s s')
    (hcontent : s.followsHeader = true →
      ((table'.nextContentAfter s.position.line).map fun line => (line.indent, line.isEnd)) =
        (table.nextContentAfter s.position.line).map fun line => (line.indent, line.isEnd))
    (hle : s.position.column ≤ s'.position.column) :
    ∃ v v' piece piece', Steps table table' more more' s s' v v' piece piece' := by
  obtain ⟨rule, hrule, hfeed⟩ := Mode.exists_select_lineFeed h.mode
  have hselect : s.mode.select s.rest = some (rule, { lexeme := ['\n'] }) := by
    rw [h.rest, hfeed]
  have hselect' : s'.mode.select s'.rest = some (rule, { lexeme := ['\n'] }) := by
    rw [h.memories.mode, h.rest', hfeed]
  obtain ⟨a, piece, hact, hkind⟩ := exists_act_of_endsLine table hrule { lexeme := ['\n'] }
    (s.report (.ruleMatched rule s.mode s.position.line s.position.column))
  have hstep := step_of_select hselect hact
  have hp : Shift.loose.Positions (s'.position.column - s.position.column) s.position
      s'.position :=
    ⟨trivial, h.line, (Nat.add_sub_cancel' hle).symm⟩
  have hanswers : Shift.loose.Answers table table' rule s s' := by
    rcases hrule with rfl | rfl | rfl
    all_goals exact ⟨by simp, by simp, fun _ hheader => h.line ▸ hcontent hheader, by simp⟩
  obtain ⟨v', piece?', hstep', hmemories, hpieces, hmoves, hmoves'⟩ :=
    Shift.exists_step h.memories hp hselect hselect' (fun _ => rfl) hanswers hstep
  obtain ⟨piece', rfl, hpiece⟩ := exists_of_rel_some hpieces
  have hkind' : piece'.kind = .token .newline := hpiece.kind.trans hkind
  have settles {table : LineTable} {piece : Piece} (hkind : piece.kind = .token .newline)
      (v : Scan) : Settles table piece v v := .other (by simp [hkind]) (by simp [hkind])
  have hs' : s'.isDone = false := h.memories.isDone.trans h.goes
  refine ⟨_, v', piece, piece', .piece h.goes hstep (settles hkind _),
    .piece hs' hstep' (settles hkind' v'), ?_, ⟨?_, hmemories⟩, ?_, ?_, ?_, ?_, ?_⟩
  · exact ⟨hpiece.kind, hpiece.value.trans (Shift.value_loose _), hpiece.line,
      fun hne => absurd hkind hne⟩
  · rw [hmoves.position, hmoves'.position]
    exact hp.next_lineFeed
  · rw [hmoves.rest, h.rest]
    rfl
  · rw [hmoves'.rest, h.rest']
    rfl
  · rw [hmoves.position]
    rfl
  · rw [hmoves.position]
    rfl
  · exact isDone_of_step h.goes (by simp [h.rest]) hstep

/-- Two scans that are abreast take the step over the end of the line. -/
theorem Abreast.exists_steps (table table' : LineTable) (h : Abreast more more' s s')
    (hcontent : s.followsHeader = true →
      ((table'.nextContentAfter s.position.line).map fun line => (line.indent, line.isEnd)) =
        (table.nextContentAfter s.position.line).map fun line => (line.indent, line.isEnd)) :
    ∃ v v' piece piece', Steps table table' more more' s s' v v' piece piece' := by
  rcases Nat.le_total s.position.column s'.position.column with hle | hle
  · exact h.exists_steps_of_le table table' hcontent hle
  · obtain ⟨v', v, piece', piece, hsteps⟩ := h.symm.exists_steps_of_le table' table
      (fun hheader => by
        rw [(h.memories.headed h.line).1] at hheader
        rw [h.line]
        exact (hcontent hheader).symm) hle
    exact ⟨v, v', piece, piece', hsteps.symm h.line.symm⟩

/-- Behind a move that yields a piece no body is open. -/
theorem OnWay.opensBehind_of_move {text : List Char} (h : OnWay table text s)
    (hmove : Move table s [piece] v) (line : Nat) : OpensBehind line v := by
  intro body outer hmodes
  cases hmove with
  | piece hs hstep hsettles =>
    exact absurd (hsettles.same.1 ▸ hmodes) (h.not_body_of_step hs hstep body outer)

/-- Twins have the same bodies open. -/
theorem OpensBehind.of_twin {line : Nat} (h : OpensBehind line s) (htwin : Twin s s') :
    OpensBehind line s' := by
  intro body' outer' hmodes'
  have hmodes := htwin.memories.modes
  rw [hmodes'] at hmodes
  obtain ⟨activation, outer, hfirst, -, hmodes⟩ := List.forall₂_cons_right_iff.1 hmodes
  cases hfirst with
  | body hbodies => exact hbodies.marker ▸ h _ outer hmodes

end Scan

/-! ## Lexers -/

namespace Lexer

open Scan (Run LeadsTo Twin OnWay OpensBehind)

variable {source source' : Source} {before before' : List Piece} {v v' : Scan} {behind : Nat}

/-- A run from the beginning of a source is on its way through its text. -/
theorem onWay_of_run (hnumbered : source.table.Numbered)
    (hrun : Run source.table (ofSource source).scan before v) :
    OnWay source.table source.text v := by
  have hstart : OnWay source.table source.text (ofSource source).scan :=
    Scan.onWay_of_start _ rfl rfl rfl rfl
  exact hstart.run hnumbered hrun

/-- A lexer has the tokens to which its scan leads, if they may follow one another. -/
theorem tokens_eq_ok_iff_leadsTo {tokens : List Token} :
    Lexer.tokens source = .ok tokens ↔
      Scan.LeadsTo source.table [] (ofSource source).scan tokens ∧
        (tokens.map Token.kind).IsChain Kind.Agree := by
  rw [tokens_eq_ok_iff]
  constructor
  · rintro ⟨pieces, t, hrun, ht, hassembled, hchain⟩
    exact ⟨⟨pieces, ⟨t, hrun, ht⟩, hassembled⟩, hchain⟩
  · rintro ⟨⟨pieces, ⟨t, hrun, ht⟩, hassembled⟩, hchain⟩
    exact ⟨pieces, t, hrun, ht, hassembled, hchain⟩

/-- The tokens of a lexer are there for another one, if both have come to twins that read the
same from there on. -/
theorem exists_tokens_of_twins
    (hleads : ∀ tokens, LeadsTo source.table [] (ofSource source).scan tokens ↔
      LeadsTo source.table before v tokens)
    (hleads' : ∀ tokens, LeadsTo source'.table [] (ofSource source').scan tokens ↔
      LeadsTo source'.table before' v' tokens)
    (hagrees : List.Forall₂ Piece.Agrees before before') (htwin : Twin v v')
    (hrest : v'.rest = v.rest)
    (htables : LineTable.AgreesBehind behind source.table source'.table)
    (hnumbered : source.table.Numbered) (hway : OnWay source.table source.text v)
    (hline : behind < v.position.line) (hopens : OpensBehind behind v) (tokens : List Token)
    (htokens : Lexer.tokens source = .ok tokens) :
    ∃ tokens', Lexer.tokens source' = .ok tokens' ∧
      tokens'.map Token.meaning = tokens.map Token.meaning := by
  obtain ⟨hfound, hchain⟩ := tokens_eq_ok_iff_leadsTo.1 htokens
  obtain ⟨after, ⟨u, hafter, hu⟩, hassembled⟩ := (hleads tokens).1 hfound
  obtain ⟨after', u', hafter', htwin', hagrees'⟩ :=
    htwin.exists_run_behind htables hnumbered hafter hrest hway hline hopens
  obtain ⟨tokens', hassembled', hmeanings⟩ :=
    hassembled.exists_of_agrees (List.rel_append hagrees hagrees')
  refine ⟨tokens', tokens_eq_ok_iff_leadsTo.2 ⟨(hleads' tokens').2 ⟨after', ⟨u', hafter', ?_⟩,
    hassembled'⟩, ?_⟩, hmeanings⟩
  · exact htwin'.memories.isDone.trans hu
  · rwa [map_kind_of_map_meaning hmeanings]

/-- Where two lexers have come to twins that read the same from there on, their tokens have
the same meanings. -/
theorem meanings_of_twins
    (hleads : ∀ tokens, LeadsTo source.table [] (ofSource source).scan tokens ↔
      LeadsTo source.table before v tokens)
    (hleads' : ∀ tokens, LeadsTo source'.table [] (ofSource source').scan tokens ↔
      LeadsTo source'.table before' v' tokens)
    (hagrees : List.Forall₂ Piece.Agrees before before') (htwin : Twin v v')
    (hrest : v'.rest = v.rest)
    (htables : LineTable.AgreesBehind behind source.table source'.table)
    (hnumbered : source.table.Numbered) (hnumbered' : source'.table.Numbered)
    (hway : OnWay source.table source.text v) (hway' : OnWay source'.table source'.text v')
    (hline : behind < v.position.line) (hopens : OpensBehind behind v) :
    meanings (tokens source') = meanings (tokens source) := by
  refine meanings_of_tokens
    (exists_tokens_of_twins hleads hleads' hagrees htwin hrest htables hnumbered hway hline hopens)
    (exists_tokens_of_twins hleads' hleads ?_ htwin.symm hrest.symm htables.symm hnumbered' hway' ?_
      (hopens.of_twin htwin))
  · exact (hagrees.imp fun _ _ => Piece.Agrees.symm).flip
  · rw [htwin.line_eq]
    exact hline

end Lexer

end BlockLexer
