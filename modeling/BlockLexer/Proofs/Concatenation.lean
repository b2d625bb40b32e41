import BlockLexer.Proofs.Above
import BlockLexer.Proofs.Below
import BlockLexer.Proofs.Grammar
import BlockLexer.Proofs.Places
import BlockLexer.Proofs.Settled

/-!
# Texts one below the other

Two texts that can be read on their own can be read one below the other, and the tokens are
those of the one and then those of the other.

* `Scan.Rested`: between blocks a scan remembers nothing that has an influence on what
  follows, and `Scan.rested_of_run` says that a run keeps it.
* `Assembled.of_append_token`: the last token of some pieces is that of the last piece.
* `Lexer.tokens_append` joins the two runs, and `tokenize_append` is about texts.
-/

namespace BlockLexer

open Text Files

/-! ## What is remembered between blocks -/

namespace Scan

variable {table : LineTable} {text : List Char} {s t u : Scan} {pieces : List Piece}
  {piece : Piece}

/-- Where nothing is open, no header may go on, and no body has just been closed. -/
def Rested (s : Scan) : Prop :=
  s.modes = [] → Shift.header s.last = none ∧ s.afterBody = false

/-- Only a body that is yielded, or nothing that counts, leaves the mark of a body. -/
theorem afterBody_of_step (piece? : Option Piece) (hrest : s.rest ≠ [])
    (hstep : s.step table = (t, piece?.map Except.ok)) (h : t.afterBody = true) :
    (∃ piece ∈ piece?, piece.kind = .token .body) ∨
      s.afterBody = true ∧ ∀ piece ∈ piece?, notedKind? piece.kind = none := by
  rcases exists_of_step piece? hstep with ⟨hnil, -⟩ | ⟨rule, m, a, left, hselect, -, hact, -⟩
  · exact absurd hnil hrest
  have hkept (ha : a.afterBody = true) : s.afterBody = true :=
    (accepts_of_act hact).afterBody_of ha
  obtain ⟨rfl, -⟩ := Prod.mk.inj (hstep.symm.trans (step_of_select hselect hact))
  cases piece? with
  | none => exact .inr ⟨hkept h, by simp⟩
  | some piece =>
    change ((a.advance m.lexeme).note piece).afterBody = true at h
    unfold note at h
    cases hnoted : notedKind? piece.kind with
    | none =>
      rw [hnoted] at h
      refine .inr ⟨hkept h, ?_⟩
      rintro _ ⟨⟩
      exact hnoted
    | some kind =>
      rw [hnoted] at h
      refine .inl ⟨piece, rfl, ?_⟩
      have hbody : kind = .body := of_decide_eq_true h
      subst hbody
      unfold notedKind? at hnoted
      split at hnoted
      · next other hkind =>
        obtain ⟨-, hsame⟩ := Option.ite_none_left_eq_some.1 hnoted
        rw [hkind, Option.some.inj hsame]
      · cases hnoted
      · cases hnoted

theorem header_of_expectsName (h : s.expectsName = true) : Shift.header s.last ≠ none := by
  unfold expectsName at h
  split at h
  · next kind line hlast =>
    simp only [Bool.and_eq_true, decide_eq_true_eq] at h
    rw [hlast, h.1]
    simp [Shift.header]
  · cases h

theorem rested_of_step_quiet (hrest : s.rest ≠ []) (hstep : s.step table = (t, none))
    (h : Rested s) : Rested t := by
  obtain ⟨he, hlast⟩ := effect_of_step_quiet hstep
  intro hmodes
  cases he with
  | still _ hsame =>
    obtain ⟨hheader, hafter⟩ := h (hsame.symm.trans hmodes)
    refine ⟨hlast ▸ hheader, ?_⟩
    rw [← Bool.not_eq_true]
    intro htrue
    rcases afterBody_of_step none hrest hstep htrue with ⟨piece, hnone, -⟩ | ⟨htrue', -⟩
    · cases hnone
    · rw [hafter] at htrue'
      cases htrue'
  | bodyOpens _ hopened => cases hopened.symm.trans hmodes

/-- Behind an expression or a body a block is open. -/
theorem nil_ne_replicate {n : Nat} (hpos : 0 < n) : [] ≠ List.replicate n Activation.block := by
  intro hnil
  have hlength := congrArg List.length hnil
  rw [List.length_nil, List.length_replicate] at hlength
  omega

theorem rested_of_step (hs : s.isDone = false) (hstacked : Stacked s.blocks.length s.modes)
    (hrest : s.rest ≠ []) (hstep : s.step table = (t, some (.ok piece))) (h : Rested s) :
    Rested t := by
  intro hmodes
  have hafter (hkind : piece.kind ≠ .token .body)
      (hkept : s.afterBody = false ∨ notedKind? piece.kind ≠ none) : t.afterBody = false := by
    rw [← Bool.not_eq_true]
    intro htrue
    rcases afterBody_of_step (some piece) hrest hstep htrue with ⟨_, ⟨⟩, hbody⟩ | ⟨htrue', hnone⟩
    · exact hkind hbody
    · rcases hkept with hfalse | hnoted
      · rw [hfalse] at htrue'
        cases htrue'
      · exact hnoted (hnone piece rfl)
  rcases effect_of_step hs hstep with ⟨-, -, rfl⟩ | ⟨-, he, hlast⟩
  · exact h hmodes
  cases he with
  | still hquiet hsame =>
    obtain ⟨hheader, hfalse⟩ := h (hsame.symm.trans hmodes)
    have hnone := PieceKind.notedKind?_of_isQuiet (hquiet piece rfl)
    rw [hnone] at hlast
    refine ⟨hlast ▸ hheader, hafter ?_ (.inl hfalse)⟩
    intro hbody
    rw [hbody] at hnone
    cases hnone
  | membersBegin _ hkind hsame =>
    obtain ⟨hheader, hfalse⟩ := h (hsame.symm.trans hmodes)
    rw [hkind] at hlast
    exact ⟨hlast ▸ hheader, hafter (by simp [hkind]) (.inl hfalse)⟩
  | named _ hname _ hsame =>
    exact absurd (h (hsame.symm.trans hmodes)).1 (header_of_expectsName hname)
  | blockCloses hkind =>
    rw [hkind] at hlast
    refine ⟨?_, hafter (by simp [hkind]) (.inr ?_)⟩
    · rw [hlast]
      rfl
    · rw [hkind]
      simp [notedKind?, Kind.isFiltered, Kind.category]
  | expressionCloses _ _ hsame =>
    rw [hsame, hmodes] at hstacked
    obtain ⟨hpos, houter⟩ := hstacked.of_expression
    exact absurd houter (nil_ne_replicate hpos)
  | bodyCloses _ hsame =>
    rw [hsame, hmodes] at hstacked
    obtain ⟨hpos, houter⟩ := hstacked.of_body
    exact absurd houter (nil_ne_replicate hpos)
  | stringCloses _ hsame =>
    rw [hsame, hmodes] at hstacked
    obtain ⟨_, _, houter⟩ := hstacked.of_string
    cases houter
  | blockOpens _ _ _ _ _ hopened | expressionOpens _ _ _ hopened | stringOpens _ _ hopened =>
    cases hopened.symm.trans hmodes
  | term _ _ hmode hsame => cases hmode.symm.trans (hsame.symm.trans hmodes)
  | bracketTurns _ _ _ hopened => cases hopened.symm.trans hmodes

/-- The later stages change nothing that rests. -/
theorem Settles.rested (hsettles : Settles table piece s t) (h : Rested s) : Rested t := by
  cases hsettles <;> exact h

/-- A run that is not at its end keeps resting. -/
theorem rested_of_run (hnumbered : table.Numbered) (hrun : Run table s pieces t)
    (ht : t.isDone = false) (hway : OnWay table text s) (h : Rested s) : Rested t := by
  induction hrun with
  | refl s => exact h
  | @quiet s t u pieces hs hstep hmore ih =>
    have hrest := rest_ne_nil_of_step_quiet hstep
    exact ih ht (hway.step none hnumbered hs hstep) (rested_of_step_quiet hrest hstep h)
  | @piece s t v u piece pieces hs hstep hsettles hmore ih =>
    have hrest : s.rest ≠ [] := by
      intro hnil
      obtain ⟨rfl, -⟩ := Prod.mk.inj ((step_of_rest_nil table hnil).symm.trans hstep)
      obtain ⟨-, rfl⟩ := hmore.eq_of_isDone hsettles.same.2.2
      rw [hsettles.same.2.2] at ht
      cases ht
    have hnext := hway.step (some piece) hnumbered hs hstep
    exact ih ht (hnext.settles hsettles)
      (hsettles.rested (rested_of_step hs hway.stacked hrest hstep h))

/-- At the end of a text a scan that has not come to its end is at the end of the last line. -/
theorem StandsIn.position_of_rest_nil {text : List Char} (h : StandsIn text s)
    (hclosed : text = [] ∨ text.getLast? = some '\n') (hrest : s.rest = []) :
    s.position.offset = byteSize text ∧ s.position.line = 1 + (splitLines text).length ∧
      s.position.column = 1 := by
  obtain ⟨passed, htext, hposition⟩ := h
  rw [hrest, List.append_nil] at htext
  subst htext
  have hunlines := unlines_splitLines_of_closed hclosed
  have hcount : text.count '\n' = (splitLines text).length := by
    conv_lhs => rw [← hunlines]
    exact count_unlines fun line hline => lineFeed_not_mem_of_mem_splitLines hline
  refine ⟨?_, ?_, ?_⟩
  · rw [hposition, Position.offset_eq]
  · rw [hposition, Position.line_eq, lineBehind, hcount]
  · rw [hposition, Position.column_eq, ← hunlines, columnBehind_unlines]

end Scan

/-! ## The last token -/

section Last

variable {before pieces : List Piece} {piece : Piece} {kind : Kind} {token : Token}
  {tokens : List Token}

theorem Assembled.eq_nil (h : Assembled [] tokens) : tokens = [] := by
  generalize hall : ([] : List Piece) = all at h
  cases h with
  | nil => rfl
  | drop hmakes => exact absurd (List.append_eq_nil_iff.1 hall.symm).1 hmakes.ne_nil
  | keep hmakes => exact absurd (List.append_eq_nil_iff.1 hall.symm).1 hmakes.ne_nil

/-- A token that ends with a piece of its own is made of this piece. -/
theorem Makes.of_append_token (hkind : piece.kind = .token kind)
    (h : Makes (before ++ [piece]) token) :
    before = [] ∧ token = { kind, value := piece.value, span := piece.span } := by
  generalize hall : before ++ [piece] = all at h
  cases h with
  | @token other otherKind hother =>
    have hsingle : before ++ [piece] = [] ++ [other] := hall
    obtain ⟨rfl, hsame⟩ := List.append_inj' hsingle rfl
    obtain rfl := List.singleton_inj.1 hsame
    obtain rfl := PieceKind.token.inj (hkind.symm.trans hother)
    exact ⟨rfl, rfl⟩
  | @string start stop parts style raw _ hstart hparts hstop hliteral =>
    obtain ⟨-, hsame⟩ := List.append_inj' hall rfl
    obtain rfl := List.singleton_inj.1 hsame
    cases hkind.symm.trans hstop

/-- The last token of some pieces is that of the last piece, if it is a piece of its own. -/
theorem Assembled.of_append_token (hkind : piece.kind = .token kind)
    (hkept : kind.isFiltered = false) (h : Assembled (before ++ [piece]) tokens) :
    ∃ init, tokens = init ++ [{ kind, value := piece.value, span := piece.span }] ∧
      Assembled before init := by
  generalize hall : before ++ [piece] = all at h
  induction h generalizing before with
  | nil => simp at hall
  | @drop pieces more token tokens hmakes hfiltered hmore ih =>
    rcases List.eq_nil_or_concat more with rfl | ⟨between, last, rfl⟩
    · rw [List.append_nil] at hall
      obtain ⟨-, rfl⟩ := Makes.of_append_token hkind (hall ▸ hmakes)
      exact absurd rfl (Kind.ne_of_isFiltered hfiltered hkept)
    · rw [List.concat_eq_append, ← List.append_assoc] at hall
      obtain ⟨rfl, hsame⟩ := List.append_inj' hall rfl
      obtain rfl := List.singleton_inj.1 hsame
      obtain ⟨init, rfl, hinit⟩ := ih List.concat_eq_append.symm
      exact ⟨init, rfl, .drop hmakes hfiltered hinit⟩
  | @keep pieces more token tokens hmakes hkept' hmore ih =>
    rcases List.eq_nil_or_concat more with rfl | ⟨between, last, rfl⟩
    · rw [List.append_nil] at hall
      obtain ⟨rfl, rfl⟩ := Makes.of_append_token hkind (hall ▸ hmakes)
      obtain rfl := hmore.eq_nil
      exact ⟨[], rfl, .nil⟩
    · rw [List.concat_eq_append, ← List.append_assoc] at hall
      obtain ⟨rfl, hsame⟩ := List.append_inj' hall rfl
      obtain rfl := List.singleton_inj.1 hsame
      obtain ⟨init, rfl, hinit⟩ := ih List.concat_eq_append.symm
      exact ⟨token :: init, rfl, .keep hmakes hkept' hinit⟩

end Last

/-! ## Neighbours -/

/-- A stream does not begin with an operand. -/
theorem Grammar.IsStream.head_not_isOperand {kinds : List Kind} (h : Grammar.IsStream kinds) :
    ∀ kind ∈ kinds.head?, ¬ kind.IsOperand := by
  cases h with
  | endOfText =>
    rintro _ ⟨⟩
    exact Kind.not_isOperand rfl
  | block hblock =>
    cases hblock
    rintro _ ⟨⟩
    exact Kind.not_isOperand rfl

/-- Kinds that agree and a stream behind them agree. -/
theorem Grammar.IsStream.isChain_append {before kinds : List Kind} (h : Grammar.IsStream kinds)
    (hbefore : before.IsChain Kind.Agree) (hkinds : kinds.IsChain Kind.Agree) :
    (before ++ kinds).IsChain Kind.Agree := by
  refine List.isChain_append.2 ⟨hbefore, hkinds, ?_⟩
  intro last _ first hfirst
  rw [Kind.agree_iff]
  exact fun hboth => h.head_not_isOperand first hfirst hboth.2

/-! ## The tokens further down -/

/-- A token of a text that stands below another one. -/
def Token.below (above : List Char) (token : Token) : Token where
  kind := token.kind
  value := (Shift.below (splitLines above).length (byteSize above)).value token.value
  span :=
    { start := token.span.start + byteSize above
      stop := token.span.stop + byteSize above
      line := token.span.line + (splitLines above).length
      column := token.span.column }

theorem Shift.Tokens.eq_below {above : List Char} {token token' : Token}
    (h : (below (splitLines above).length (byteSize above)).Tokens 0 token token') :
    token' = token.below above := by
  obtain ⟨kind', value', start', stop', line', column'⟩ := token'
  obtain ⟨rfl, rfl, rfl, rfl, rfl, hcolumn⟩ := h
  rw [ite_self, Nat.add_zero] at hcolumn
  subst hcolumn
  rfl

theorem eq_map_below {above : List Char} {tokens tokens' : List Token}
    (h : List.Forall₂ (fun token token' => ∃ columns,
      (Shift.below (splitLines above).length (byteSize above)).Tokens columns token token' ∧
        columns = 0) tokens tokens') :
    tokens' = tokens.map (Token.below above) := by
  induction h with
  | nil => rfl
  | cons htoken _ ih =>
    obtain ⟨columns, hsame, rfl⟩ := htoken
    rw [List.map_cons, ih, hsame.eq_below]

/-! ## Two runs -/

section Tables

variable {tabWidth : Nat} {above : List Char} (hclosed : above = [] ∨ above.getLast? = some '\n')
  (below : List Char)

include hclosed

theorem LineTable.isAbove_append :
    (ofText tabWidth above).IsAbove (ofText tabWidth (above ++ below)) :=
  ⟨rfl, _, (lines_append hclosed).symm⟩

theorem LineTable.isBelow_append :
    (ofText tabWidth below).IsBelow (ofText tabWidth (above ++ below)) (splitLines above).length
      (byteSize above) := by
  refine ⟨rfl, ?_⟩
  have hlength : (ofText tabWidth above).lines.length = (splitLines above).length :=
    size_ofText tabWidth above
  rw [lines_append hclosed, ← hlength, List.drop_left]

end Tables

namespace Scan

variable {tabWidth : Nat} {above below : List Char} {s t t' u v : Scan}
  {pieces more : List Piece}

/-- Behind the first text the scan is where it begins with the second one, further down. -/
theorem IsAbove.isBelow (h : IsAbove below t t')
    (hclosed : above = [] ∨ above.getLast? = some '\n')
    (hway : OnWay (.ofText tabWidth above) above t) (hrested : Rested t) (ht : t.isDone = false)
    (hrest : t.rest = []) (hmodes : t.modes = []) (event : Event) :
    IsBelow (splitLines above).length (byteSize above) ((ofText below).report event) t' := by
  obtain ⟨hoffset, hline, hcolumn⟩ := hway.stands.position_of_rest_nil hclosed hrest
  obtain ⟨hheader, hafter⟩ := hrested hmodes
  have hblocks : t.blocks = [] := by
    refine List.length_eq_zero_iff.1 (hway.stacked.eq_zero_of_default ?_)
    rw [hmodes]
    rfl
  refine ⟨?_, ⟨?_, ?_, ?_⟩, ?_, ?_, ?_, ?_, ?_⟩
  · rw [h.rest, hrest]
    rfl
  · show t'.position.offset = 0 + byteSize above
    rw [h.position, hoffset, Nat.zero_add]
  · rw [h.position, hline]
    rfl
  · rw [h.position, hcolumn]
    rfl
  · have hnil := h.memories.modes
    rw [hmodes] at hnil
    rw [List.forall₂_nil_left_iff.1 hnil]
    exact .nil
  · rw [h.memories.blocks, hblocks]
    rfl
  · rw [h.memories.last, hheader]
    rfl
  · exact h.memories.afterBody.trans hafter
  · exact h.memories.isDone.trans ht

end Scan

namespace Lexer

variable {tabWidth : Nat} {above below : List Char} {upper lower joined : Source}
  {first second : List Token}

/-- The tokens of two texts, one below the other. -/
theorem tokens_append (hclosed : above = [] ∨ above.getLast? = some '\n')
    (hupper : upper.text = above ∧ upper.table = .ofText tabWidth above)
    (hlower : lower.text = below ∧ lower.table = .ofText tabWidth below)
    (hjoined : joined.text = above ++ below ∧ joined.table = .ofText tabWidth (above ++ below))
    (hfirst : tokens upper = .ok first) (hsecond : tokens lower = .ok second) :
    ∃ before ending, first = before ++ [ending] ∧ ending.kind = .endOfText ∧
      tokens joined = .ok (before ++ second.map (Token.below above)) := by
  obtain ⟨pieces, u, hrun, hu, hassembled, hchain⟩ := tokens_eq_ok_iff.1 hfirst
  obtain ⟨more, v, hrun', hv, hassembled', hchain'⟩ := tokens_eq_ok_iff.1 hsecond
  rw [hupper.2] at hrun
  rw [hlower.2] at hrun'
  have hstart : Scan.OnWay (.ofText tabWidth above) above (ofSource upper).scan :=
    Scan.onWay_of_start _ hupper.1 rfl rfl rfl
  have hstart' : Scan.OnWay (.ofText tabWidth below) below (ofSource lower).scan :=
    Scan.onWay_of_start _ hlower.1 rfl rfl rfl
  have habove : Scan.IsAbove below (ofSource upper).scan (ofSource joined).scan := by
    refine ⟨?_, rfl, .nil, rfl, rfl, rfl, rfl⟩
    show joined.text = upper.text ++ below
    rw [hjoined.1, hupper.1]
  -- The first run leads to the end of the first text.
  obtain ⟨before, t, t', rfl, hbefore, hbefore', habove', ht, hrest, hmodes⟩ :=
    habove.exists_run (LineTable.isAbove_append hclosed below) hclosed hstart rfl hrun hu
  have hrested : Scan.Rested t :=
    Scan.rested_of_run (LineTable.numbered_ofText tabWidth above) hbefore ht hstart
      fun _ => ⟨rfl, rfl⟩
  have hway := hstart.run (LineTable.numbered_ofText tabWidth above) hbefore
  -- From there on the scan does what the second run does.
  have hbelow : Scan.IsBelow (splitLines above).length (byteSize above) (ofSource lower).scan t' := by
    have hscan := habove'.isBelow hclosed hway hrested ht hrest hmodes
      (.lexingStarted lower.path lower.table.size)
    rw [← hlower.1] at hscan
    exact hscan
  obtain ⟨more', v', hmore', hv', htrails⟩ :=
    hbelow.exists_run (LineTable.isBelow_append hclosed below)
      (LineTable.numbered_ofText tabWidth below) hstart' hrun'
  obtain ⟨tokens', hassembled'', htokens⟩ := htrails.exists_assembled hassembled'
  obtain rfl := eq_map_below htokens
  obtain ⟨init, rfl, hinit⟩ := hassembled.of_append_token rfl rfl
  have hkinds : (second.map (Token.below above)).map Token.kind = second.map Token.kind := by
    rw [List.map_map]
    rfl
  refine ⟨init, _, rfl, rfl, tokens_eq_ok_iff.2 ⟨before ++ more', v', ?_, hv'.trans hv,
    hinit.append hassembled'', ?_⟩⟩
  · rw [hjoined.2]
    exact hbefore'.trans hmore'
  · rw [List.map_append, hkinds]
    rw [List.map_append] at hchain
    exact (isStream_of_tokens hsecond).isChain_append hchain.left_of_append hchain'

end Lexer

/-! ## Two texts -/

/-- Where no import is followed, a normal text is its own source. -/
theorem Source.exists_of_normal {config : Config} {text : List Char}
    (hoff : config.followImports = false) (hnormal : normalizeNewlines text = text)
    (tree : FileTree) (origin : Path) :
    ∃ source, (Source.ofText tree config text origin).outcome = .ok source ∧
      source.text = text ∧ source.table = .ofText config.tabWidth text := by
  have hsettled := isSettled_of_off hoff (normalizeNewlines text)
  obtain ⟨source, hsource, htext, htable⟩ := hsettled.exists_source tree origin
  rw [hnormal, unlines_splitLines_of_closed (normalizeNewlines_eq_self_iff.1 hnormal).2] at htext
  exact ⟨source, hsource, htext, htext ▸ htable⟩

/-- Two texts that can be read can be read one below the other.  The tokens are those of the
first text up to its end, and then those of the second one, further down. -/
theorem tokenize_append {tree : FileTree} {config : Config} {above below : List Char}
    {origin : Path} {first second : List Token} (hoff : config.followImports = false)
    (habove : normalizeNewlines above = above) (hbelow : normalizeNewlines below = below)
    (hfirst : tokenize tree config above origin = .ok first)
    (hsecond : tokenize tree config below origin = .ok second) :
    ∃ before ending, first = before ++ [ending] ∧ ending.kind = .endOfText ∧
      tokenize tree config (above ++ below) origin =
        .ok (before ++ second.map (Token.below above)) := by
  have hnormal := normalizeNewlines_append habove hbelow
  obtain ⟨upper, hupper, hupperIs⟩ := Source.exists_of_normal hoff habove tree origin
  obtain ⟨lower, hlower, hlowerIs⟩ := Source.exists_of_normal hoff hbelow tree origin
  obtain ⟨joined, hjoined, hjoinedIs⟩ := Source.exists_of_normal hoff hnormal tree origin
  have hclosed := (normalizeNewlines_eq_self_iff.1 habove).2
  unfold tokenize at hfirst hsecond ⊢
  rw [hupper] at hfirst
  rw [hlower] at hsecond
  rw [hjoined]
  exact Lexer.tokens_append hclosed hupperIs hlowerIs hjoinedIs hfirst hsecond

/-- A body and then a header, and below them another body, which looks for its first line. -/
theorem tokenize_append_of_bodies :
    let config : Config := { followImports := false }
    let above := ['A', '\n', ' ', '-', '-', '-', '\n', ' ', 't', '\n', ' ', '-', '-', '-', '\n', 'e',
      'n', 'd', '\n']
    let below := ['B', '\n', '-', '-', '-', '\n', '\n', ' ', 'u', '\n', '-', '-', '-', '\n', 'e', 'n',
      'd', '\n']
    ∃ first second before ending, normalizeNewlines above = above ∧
      normalizeNewlines below = below ∧ tokenize ⟨[], []⟩ config above textOrigin = .ok first ∧
      tokenize ⟨[], []⟩ config below textOrigin = .ok second ∧ first = before ++ [ending] ∧
      ending.kind = .endOfText ∧
      tokenize ⟨[], []⟩ config (above ++ below) textOrigin =
        .ok (before ++ second.map (Token.below above)) ∧
      second.map (Token.below above) =
        [{ kind := .className, value := .text ['B'], span := ⟨19, 20, 6, 1⟩ },
          { kind := .body, value := .body { startLine := 8, text := ['\n', 'u'], names := [] },
            span := ⟨25, 28, 8, 1⟩ },
          { kind := .blockEnd, value := .nothing, span := ⟨33, 36, 11, 1⟩ },
          { kind := .endOfText, value := .nothing, span := ⟨37, 37, 12, 1⟩ }] := by
  intro config above below
  have hsecond : (tokenize ⟨[], []⟩ config below textOrigin).map (List.map (Token.below above)) =
      .ok [{ kind := .className, value := .text ['B'], span := ⟨19, 20, 6, 1⟩ },
          { kind := .body, value := .body { startLine := 8, text := ['\n', 'u'], names := [] },
            span := ⟨25, 28, 8, 1⟩ },
          { kind := .blockEnd, value := .nothing, span := ⟨33, 36, 11, 1⟩ },
          { kind := .endOfText, value := .nothing, span := ⟨37, 37, 12, 1⟩ }] := by
    decide +kernel
  have hfirst : (tokenize ⟨[], []⟩ config above textOrigin).map List.length = .ok 4 := by
    decide +kernel
  obtain ⟨first, hfirst, -⟩ := exists_of_map_eq_ok hfirst
  obtain ⟨second, hsecond, hbelow⟩ := exists_of_map_eq_ok hsecond
  have hoff : config.followImports = false := rfl
  obtain ⟨before, ending, hcut, hending, happend⟩ :=
    tokenize_append hoff (by decide) (by decide) hfirst hsecond
  exact ⟨first, second, before, ending, by decide, by decide, hfirst, hsecond, hcut, hending,
    happend, hbelow⟩

end BlockLexer
