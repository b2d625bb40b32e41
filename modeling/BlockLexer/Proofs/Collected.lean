import BlockLexer.Proofs.Shifted

/-!
# From runs to tokens

`Lexer.assembled_of_tokens` finds the run of the scan behind the tokens of a source.  This
module goes the other way: a run that comes to the end of the text is collected as the
tokens that its pieces make.

A run says nothing about events, so that the scan that a lexer pulls from need not be the
one that the run is about.

* `Scan.Alike` are two scans that differ by their events at most, and
  `Scan.Alike.exists_next` pulls a piece out of one of them as the run says.
* `Assembly.exists_next` does so for a whole token, and `Stream.collect_of_run` for all.
* `Lexer.tokens_of_run` is the lexer, and `Lexer.tokens_eq_ok_iff` joins both ways.
-/

namespace BlockLexer

namespace Scan

variable {table : LineTable} {s s' t u : Scan} {piece : Piece} {pieces : List Piece}

/-! ## Scans but for their events -/

/-- The two scans differ by nothing that a run depends on. -/
structure Alike (s s' : Scan) : Prop where
  rest : s'.rest = s.rest
  position : s'.position = s.position
  memories : Shift.still.Memories s s'

theorem Alike.refl (s : Scan) : Alike s s := by
  refine ⟨rfl, rfl, ?_, ?_, ?_, rfl, rfl⟩
  · rw [List.forall₂_same]
    intro activation _
    cases activation with
    | block => exact .block
    | expression brackets => exact .expression brackets
    | body body => exact .body ⟨rfl, rfl, rfl, rfl⟩
    | string style raw line column => exact .string style raw line column line column
  · have hframe : Shift.still.frame = id := funext Shift.frame_still
    rw [hframe, List.map_id]
  · cases Shift.header s.last <;> rfl

theorem Alike.positions (h : Alike s s') : Shift.still.Positions 0 s.position s'.position :=
  ⟨congrArg Position.offset h.position.symm, congrArg Position.line h.position,
    congrArg Position.column h.position⟩

theorem Alike.blocks_eq (h : Alike s s') : s'.blocks = s.blocks := by
  have hframe : Shift.still.frame = id := funext Shift.frame_still
  rw [h.memories.blocks, hframe, List.map_id]

/-- An event makes no difference. -/
theorem Alike.report (h : Alike s s') (event : Event) : Alike s (s'.report event) :=
  ⟨h.rest, h.position, h.memories.modes, h.memories.blocks, h.memories.last, h.memories.afterBody,
    h.memories.isDone⟩

/-- What the later stages do to a scan is the same for the other one once it has the same
blocks. -/
theorem Alike.of_settles (h : Alike t s') (hsettles : Settles table piece t u) :
    Alike u { s' with blocks := u.blocks } := by
  have hframe : Shift.still.frame = id := funext Shift.frame_still
  have hblocks : u.blocks = u.blocks.map Shift.still.frame := by rw [hframe, List.map_id]
  cases hsettles with
  | member | string | other =>
    exact ⟨h.rest, h.position, h.memories.modes, hblocks, h.memories.last, h.memories.afterBody,
      h.memories.isDone⟩

/-- The two take the same step. -/
theorem Alike.exists_step (piece? : Option Piece) (h : Alike s s')
    (hstep : s.step table = (t, piece?.map Except.ok)) :
    ∃ t', s'.step table = (t', piece?.map Except.ok) ∧ Alike t t' := by
  rcases exists_of_step piece? hstep with ⟨hrest, rfl, hfinish⟩ | ⟨rule, m, -, -, hselect, -⟩
  · have hrest' : s'.rest = [] := h.rest.trans hrest
    cases piece? with
    | none => cases hfinish
    | some piece =>
      obtain ⟨piece', hfinish', hpieces⟩ := Shift.exists_finish table h.memories h.positions
        (Option.some.inj hfinish).symm
      obtain rfl := Shift.eq_of_pieces_still hpieces
      refine ⟨{ s' with isDone := true }, ?_, h.rest, h.position, ?_⟩
      · rw [step_of_rest_nil table hrest', hfinish']
        rfl
      · exact ⟨h.memories.modes, h.memories.blocks, h.memories.last, h.memories.afterBody, rfl⟩
  · have hselect' : s'.mode.select s'.rest = some (rule, m) := by
      rw [h.memories.mode, h.rest]
      exact hselect
    obtain ⟨t', piece?', hstep', hmemories, hpieces, hmoves, hmoves'⟩ :=
      Shift.exists_step h.memories h.positions hselect hselect' (fun _ => rfl)
        (Shift.answers_still h.positions) hstep
    have hsame : piece?' = piece? := by
      cases hpieces with
      | none => rfl
      | some hpiece => rw [Shift.eq_of_pieces_still hpiece]
    rw [hsame] at hstep'
    refine ⟨t', hstep', ?_, ?_, hmemories⟩
    · rw [hmoves'.rest, hmoves.rest, h.rest]
    · rw [hmoves'.position, hmoves.position, h.position]

/-! ## Pulls along a run -/

/-- A pull finds the first piece of a run, and the run goes on behind it. -/
theorem Alike.exists_next (h : Alike s s') (hrun : Run table s (piece :: pieces) u) :
    ∃ t t' v, s'.next table = (t', some (.ok piece)) ∧ Alike t t' ∧ Settles table piece t v ∧
      Run table v pieces u := by
  generalize hall : piece :: pieces = all at hrun
  induction hrun generalizing s' with
  | refl s => cases hall
  | @quiet s t u all hs hstep _ ih =>
    obtain ⟨t', hstep', ht⟩ := h.exists_step none hstep
    rw [next_of_step_none table (h.memories.isDone.trans hs) hstep']
    exact ih ht hall
  | @piece s t v u first rest hs hstep hsettles hrest =>
    obtain ⟨rfl, rfl⟩ := List.cons.inj hall
    obtain ⟨t', hstep', ht⟩ := h.exists_step (some piece) hstep
    exact ⟨t, t', v, next_of_step_some table (h.memories.isDone.trans hs) hstep', ht, hsettles,
      hrest⟩

/-- Where a run without pieces comes to the end, a pull yields nothing. -/
theorem Alike.exists_next_none (h : Alike s s') (hrun : Run table s [] u)
    (hu : u.isDone = true) : ∃ t', s'.next table = (t', none) := by
  generalize hall : ([] : List Piece) = all at hrun
  induction hrun generalizing s' with
  | refl s => exact ⟨s', next_of_isDone table (h.memories.isDone.trans hu)⟩
  | quiet hs hstep _ ih =>
    obtain ⟨t', hstep', ht⟩ := h.exists_step none hstep
    rw [next_of_step_none table (h.memories.isDone.trans hs) hstep']
    exact ih ht hu hall
  | piece => cases hall

end Scan

/-! ## The assembly of strings -/

namespace Assembly

open Scan (Run Settles Alike)

variable {table : LineTable} {s s' t u : Scan}

/-- Pulling the parts of a string goes on behind one of them. -/
theorem parts_of_isPart {start piece : Piece} {afterBreak : Bool}
    (hpull : s.next table = (t, some (.ok piece))) (hpart : piece.kind.IsPart) :
    parts table start afterBreak s =
      ((parts table start (piece.kind = .stringLineBreak) t).1,
        (parts table start (piece.kind = .stringLineBreak) t).2.map fun (text, stop) =>
          (chunk afterBreak piece ++ text, stop)) := by
  rw [parts]
  split
  · next hnone => cases hpull.symm.trans hnone
  · next herror => cases hpull.symm.trans herror
  · next hok =>
    obtain ⟨rfl, hpiece⟩ := Prod.mk.inj (hpull.symm.trans hok)
    obtain rfl := Except.ok.inj (Option.some.inj hpiece)
    split
    · rfl
    · rfl
    · rfl
    · next hkind => rw [hkind] at hpart; cases hpart
    · next hkind => rw [hkind] at hpart; cases hpart
    · next hkind => rw [hkind] at hpart; cases hpart

theorem parts_of_stringEnd {start stop : Piece} {afterBreak : Bool}
    (hpull : s.next table = (t, some (.ok stop))) (hstop : stop.kind = .stringEnd) :
    parts table start afterBreak s = (t, .ok ([], stop)) := by
  rw [parts]
  split
  · next hnone => cases hpull.symm.trans hnone
  · next herror => cases hpull.symm.trans herror
  · next hok =>
    obtain ⟨rfl, hpiece⟩ := Prod.mk.inj (hpull.symm.trans hok)
    obtain rfl := Except.ok.inj (Option.some.inj hpiece)
    rw [hstop]

/-- The parts of a string are pulled and joined as the run has them. -/
theorem exists_parts (start : Piece) (afterBreak : Bool) {stop : Piece} {pieces more : List Piece}
    (h : Alike s s') (hpieces : ∀ part ∈ pieces, part.kind.IsPart) (hstop : stop.kind = .stringEnd)
    (hrun : Run table s (pieces ++ stop :: more) u) :
    ∃ t t' v, parts table start afterBreak s' = (t', .ok (joined afterBreak pieces, stop)) ∧
      Alike t t' ∧ Settles table stop t v ∧ Run table v more u := by
  induction pieces generalizing s s' afterBreak with
  | nil =>
    obtain ⟨t, t', v, hpull, ht, hsettles, hrest⟩ := h.exists_next hrun
    exact ⟨t, t', v, parts_of_stringEnd hpull hstop, ht, hsettles, hrest⟩
  | cons part pieces ih =>
    obtain ⟨hpart, hpieces⟩ := List.forall_mem_cons.1 hpieces
    obtain ⟨w, w', v, hpull, hw, hsettles, hrest⟩ := h.exists_next hrun
    -- A part of a string settles without a change.
    obtain rfl := hsettles.eq_of_other (hpart.ne_token _) hpart.ne_stringEnd
    obtain ⟨t, t', v', hparts, ht, hsettles', hrest'⟩ :=
      ih (part.kind = .stringLineBreak) hw hpieces hrest
    refine ⟨t, t', v', ?_, ht, hsettles', hrest'⟩
    rw [parts_of_isPart hpull hpart, hparts]
    rfl

/-- The pull of the token that the first pieces of a run make.  The scan that is left is
the one that the run goes on with, once the later stages have written to its blocks. -/
theorem exists_next {pieces more : List Piece} {token : Token} (h : Alike s s')
    (hmakes : Makes pieces token) (hrun : Run table s (pieces ++ more) u) :
    ∃ t' v, next table { scan := s' } = ({ scan := t' }, some (.ok token)) ∧
      Run table v more u ∧ Alike v { t' with blocks := v.blocks } ∧
      (token.kind = .attributeName →
        t'.blocks.checkMember (table.indentOf token.span.line) = .ok v.blocks) ∧
      (token.kind ≠ .attributeName → v.blocks = t'.blocks) := by
  cases hmakes with
  | @token piece kind hkind =>
    obtain ⟨t, t', v, hpull, ht, hsettles, hrest⟩ := h.exists_next hrun
    refine ⟨t', v, ?_, hrest, ht.of_settles hsettles, fun hname => ?_, fun hname => ?_⟩
    · rw [next, hpull]
      simp [tokenOf, hkind]
    · rw [ht.blocks_eq]
      exact hsettles.checkMember (hkind.trans (congrArg _ hname))
    · rw [ht.blocks_eq]
      refine hsettles.blocks_eq fun hattribute => hname ?_
      exact PieceKind.token.inj (hkind.symm.trans hattribute)
  | @string start stop parts style raw token hstart hparts hstop hliteral =>
    have hstring := kind_of_literal hliteral
    rw [List.cons_append, List.cons_append, List.append_assoc] at hrun
    obtain ⟨w, w', v₁, hpull, hw, hsettles, hrest⟩ := h.exists_next hrun
    obtain rfl := hsettles.eq_of_other (by simp [hstart]) (by simp [hstart])
    obtain ⟨t, t', v, hpulls, ht, hsettles', hrest'⟩ :=
      exists_parts start false hw hparts hstop hrest
    refine ⟨t'.report (joinedEvent token), v, ?_, hrest', (ht.report _).of_settles hsettles',
      fun hname => ?_, fun _ => ?_⟩
    · rw [next, hpull]
      simp only [tokenOf, hstart, hpulls, hliteral, Bool.false_eq_true, if_false]
    · cases hstring.symm.trans hname
    · show v.blocks = t'.blocks
      rw [ht.blocks_eq]
      exact hsettles'.blocks_eq (by simp [hstop])

end Assembly

/-! ## The checked stream -/

namespace Stream

open Scan (Run Alike)

variable {table : LineTable} {s s' t u : Scan} {previous : Option Kind}

/-- A token that agrees with the one before it passes the check, if it is no attribute in
the wrong column. -/
theorem check_of_agree {blocks blocks' : BlockStack} {token : Token}
    (hagree : ∀ kind ∈ previous, kind.Agree token.kind)
    (hmember : token.kind = .attributeName →
      blocks.checkMember (table.indentOf token.span.line) = .ok blocks')
    (hother : token.kind ≠ .attributeName → blocks' = blocks) :
    check table previous blocks token = .ok blocks' := by
  have hclash : (previous.bind fun kind =>
      (kind.clash? token.kind).map fun clash => (clash, kind)) = none := by
    cases previous with
    | none => rfl
    | some kind =>
      have hnone : kind.clash? token.kind = none := hagree kind rfl
      simp [hnone]
  unfold check
  simp only [hclash]
  by_cases hname : token.kind = .attributeName
  · rw [if_pos hname, hmember hname]
  · rw [if_neg hname, hother hname]

/-- A run up to the end is collected as the tokens that its pieces make, if neighbours
agree. -/
theorem collect_of_run {pieces : List Piece} {tokens : List Token} (h : Alike s s')
    (hrun : Run table s pieces u) (hu : u.isDone = true) (hassembled : Assembled pieces tokens)
    (hchain : (previous.toList ++ tokens.map Token.kind).IsChain Kind.Agree) :
    (stage table).collect { assembly := { scan := s' }, previous } = .ok tokens := by
  induction hassembled generalizing s s' previous with
  | nil =>
    obtain ⟨t', hnext⟩ := h.exists_next_none hrun hu
    refine Stage.collect_of_none (t := { assembly := { scan := t' }, previous }) ?_
    show Stream.next table _ = _
    rw [next_eq _ rfl, Assembly.next, hnext]
    rfl
  | @drop pieces more token tokens hmakes hfiltered hmore ih =>
    obtain ⟨t', v, hnext, hrest, hv, -, hblocks⟩ := Assembly.exists_next h hmakes hrun
    rw [hblocks (Kind.ne_of_isFiltered hfiltered rfl)] at hv
    rw [← ih hv hrest hchain]
    apply Stage.collect_congr
    show Stream.next table _ = Stream.next table _
    rw [next_eq _ rfl, hnext]
    dsimp only
    rw [if_pos hfiltered]
  | @keep pieces more token tokens hmakes hkept hmore ih =>
    obtain ⟨t', v, hnext, hrest, hv, hmember, hother⟩ := Assembly.exists_next h hmakes hrun
    have hagree : ∀ kind ∈ previous, kind.Agree token.kind := by
      rintro kind rfl
      exact (List.isChain_cons_cons.1 hchain).1
    have hchain' : ((some token.kind).toList ++ tokens.map Token.kind).IsChain Kind.Agree :=
      hchain.right_of_append
    have hpull : (stage table).next { assembly := { scan := s' }, previous } =
        ({ assembly := { scan := { t' with blocks := v.blocks } }, previous := some token.kind },
          some (.ok token)) := by
      show Stream.next table _ = _
      rw [next_eq _ rfl, hnext]
      dsimp only
      rw [if_neg (by simp [hkept]), check_of_agree hagree hmember hother]
    rw [Stage.collect_of_ok hpull, ih hv hrest hchain']
    rfl

end Stream

/-! ## Lexers -/

namespace Lexer

open Scan (Run)

variable {source : Source} {delivered : List Token}

/-- The tokens behind a run to the end of the text. -/
theorem tokens_of_run {t : Scan} {pieces : List Piece}
    (h : Run source.table (ofSource source).scan pieces t) (ht : t.isDone = true)
    (hassembled : Assembled pieces delivered)
    (hchain : (delivered.map Token.kind).IsChain Kind.Agree) : tokens source = .ok delivered := by
  have hcollect : (Stream.stage source.table).collect (ofSource source).stream = .ok delivered :=
    Stream.collect_of_run (Scan.Alike.refl _) h ht hassembled hchain
  obtain ⟨last, final, hrow, hend⟩ := Stage.yields_of_collect hcollect
  have hrow' : stage.Yields (ofSource source) delivered { source, stream := last } :=
    yields_iff.2 ⟨rfl, hrow⟩
  have hend' : ({ source, stream := last } : Lexer).next = ({ source, stream := final }, none) :=
    next_eq_none_iff.2 ⟨rfl, hend⟩
  exact hrow'.collect hend'

/-- The tokens of a source are what the pieces of a run to the end of its text make. -/
theorem tokens_eq_ok_iff :
    tokens source = .ok delivered ↔
      ∃ pieces t, Run source.table (ofSource source).scan pieces t ∧ t.isDone = true ∧
        Assembled pieces delivered ∧ (delivered.map Token.kind).IsChain Kind.Agree :=
  ⟨assembled_of_tokens, fun ⟨_, _, hrun, ht, hassembled, hchain⟩ =>
    tokens_of_run hrun ht hassembled hchain⟩

end Lexer

end BlockLexer
