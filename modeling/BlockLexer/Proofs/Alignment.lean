import BlockLexer.Proofs.Nesting
import BlockLexer.Proofs.Table

/-!
# The indentation of blocks

Two stages check indentation, and the width that a block requires may be fixed ahead of
its first member or by it.  Whatever the order, in a text that is read to its end all
direct members of a block stand in one column, and its end stands under its header.

* `IsClosed` and `MembersAt` say which tokens a block holds and which of them are its
  direct members, `IsAligned` is the law.
* `Completes` says what must still come for the blocks that are open.
* `Scan.completes_of_run` goes backwards over a run from the end of the text.
-/

namespace BlockLexer

/-! ## Blocks in a list of tokens -/

/-- The number of headers among some tokens. -/
def openings (tokens : List Token) : Nat :=
  (tokens.map Token.kind).count .className

/-- The number of ends among some tokens. -/
def closings (tokens : List Token) : Nat :=
  (tokens.map Token.kind).count .blockEnd

/-- A header or the name of an attribute. -/
def Token.IsMember (token : Token) : Prop :=
  token.kind = .attributeName ∨ token.kind = .className

/-- Every end closes a header in front of it, and every header is closed. -/
structure IsClosed (tokens : List Token) : Prop where
  prefixes : ∀ beginning, beginning <+: tokens → closings beginning ≤ openings beginning
  total : openings tokens = closings tokens

/-- The direct members among some tokens, those with no open header in front of them,
stand in one column. -/
def MembersAt (width : Token → Nat) (required : Nat) (tokens : List Token) : Prop :=
  ∀ inner member outer, tokens = inner ++ member :: outer → openings inner = closings inner →
    member.IsMember → width member = required

/-- What follows a header: its members, all in one column, and its end in the column of
the header. -/
def EndsAt (width : Token → Nat) (indent : Nat) (tokens : List Token) : Prop :=
  ∃ members stop after, tokens = members ++ stop :: after ∧ IsClosed members ∧
    stop.kind = .blockEnd ∧ width stop = indent ∧ ∃ required, MembersAt width required members

/-- Every block of a stream is aligned. -/
def IsAligned (width : Token → Nat) (tokens : List Token) : Prop :=
  ∀ before header after, tokens = before ++ header :: after → header.kind = .className →
    EndsAt width (width header) after

@[simp] theorem openings_append (tokens more : List Token) :
    openings (tokens ++ more) = openings tokens + openings more := by
  simp [openings]

@[simp] theorem closings_append (tokens more : List Token) :
    closings (tokens ++ more) = closings tokens + closings more := by
  simp [closings]

theorem openings_cons (token : Token) (tokens : List Token) :
    openings (token :: tokens) = openings tokens + if token.kind = .className then 1 else 0 := by
  simp [openings, List.count_cons]

theorem closings_cons (token : Token) (tokens : List Token) :
    closings (token :: tokens) = closings tokens + if token.kind = .blockEnd then 1 else 0 := by
  simp [closings, List.count_cons]

@[simp] theorem openings_nil : openings [] = 0 := rfl

@[simp] theorem closings_nil : closings [] = 0 := rfl

theorem isClosed_nil : IsClosed [] :=
  ⟨fun beginning h => by rw [List.prefix_nil.1 h]; exact Nat.le_refl _, rfl⟩

theorem IsClosed.append {tokens more : List Token} (h : IsClosed tokens) (h' : IsClosed more) :
    IsClosed (tokens ++ more) := by
  have htotal := h.total
  refine ⟨?_, by rw [openings_append, closings_append, htotal, h'.total]⟩
  rintro beginning ⟨rest, hsplit⟩
  -- A beginning ends in the first part, or takes all of it.
  rcases List.append_eq_append_iff.1 hsplit with ⟨second, rfl, -⟩ | ⟨second, rfl, hsecond⟩
  · exact h.prefixes beginning (List.prefix_append beginning second)
  · have hle := h'.prefixes second ⟨rest, hsecond.symm⟩
    rw [openings_append, closings_append]
    omega

/-- A token that is neither a header nor an end. -/
theorem isClosed_singleton {token : Token} (hclass : token.kind ≠ .className)
    (hend : token.kind ≠ .blockEnd) : IsClosed [token] := by
  refine ⟨fun beginning hbeginning => ?_, ?_⟩
  · rcases List.prefix_cons_iff.1 hbeginning with rfl | ⟨more, rfl, hmore⟩
    · exact Nat.le_refl _
    · rw [List.prefix_nil.1 hmore, openings_cons, closings_cons, if_neg hclass, if_neg hend]
      exact Nat.le_refl _
  · rw [openings_cons, closings_cons, if_neg hclass, if_neg hend]
    rfl

/-- In front of its end a block is open: every beginning of it holds one header more. -/
theorem closings_lt_openings {header stop : Token} {members beginning : List Token}
    (hheader : header.kind = .className) (hmembers : IsClosed members)
    (h : beginning <+: members ++ [stop]) (hne : beginning ≠ members ++ [stop]) :
    closings (header :: beginning) < openings (header :: beginning) := by
  have hinner : beginning <+: members := (List.prefix_concat_iff.1 h).resolve_left hne
  have hle := hmembers.prefixes beginning hinner
  rw [openings_cons, closings_cons, if_pos hheader, if_neg (by rw [hheader]; decide)]
  omega

/-- A block is closed. -/
theorem IsClosed.block {header stop : Token} {members : List Token}
    (hheader : header.kind = .className) (hstop : stop.kind = .blockEnd) (h : IsClosed members) :
    IsClosed (header :: (members ++ [stop])) := by
  have htotal : openings (header :: (members ++ [stop])) =
      closings (header :: (members ++ [stop])) := by
    have hmembers := h.total
    simp only [openings_cons, closings_cons, openings_append, closings_append, hheader, hstop,
      openings_nil, closings_nil]
    simp
    omega
  refine ⟨fun beginning hbeginning => ?_, htotal⟩
  rcases List.prefix_cons_iff.1 hbeginning with rfl | ⟨more, rfl, hmore⟩
  · exact Nat.le_refl _
  · by_cases hne : more = members ++ [stop]
    · rw [hne]
      exact Nat.le_of_eq htotal.symm
    · exact Nat.le_of_lt (closings_lt_openings hheader h hmore hne)

/-! ## Direct members -/

variable {width : Token → Nat} {required : Nat}

theorem membersAt_nil : MembersAt width required [] := by
  intro inner member outer h
  simp at h

/-- The direct members of two parts, of which the first is closed. -/
theorem MembersAt.append {tokens more : List Token} (hclosed : openings tokens = closings tokens)
    (h : MembersAt width required tokens) (h' : MembersAt width required more) :
    MembersAt width required (tokens ++ more) := by
  intro inner member outer hsplit hinner hmember
  rcases List.append_eq_append_iff.1 hsplit with ⟨second, rfl, hsecond⟩ | ⟨second, rfl, hsecond⟩
  · refine h' second member outer hsecond ?_ hmember
    rw [openings_append, closings_append] at hinner
    omega
  · cases second with
    | nil =>
      refine h' [] member outer (by simpa using hsecond.symm) rfl hmember
    | cons first rest =>
      obtain ⟨rfl, rfl⟩ := List.cons.inj hsecond
      exact h inner member rest rfl hinner hmember

theorem membersAt_singleton {token : Token} (h : token.IsMember → width token = required) :
    MembersAt width required [token] := by
  intro inner member outer hsplit _ hmember
  cases inner with
  | nil =>
    obtain ⟨rfl, -⟩ := List.cons.inj hsplit
    exact h hmember
  | cons first rest => simp at hsplit

/-- Of a block only the header is a direct member. -/
theorem membersAt_block {header stop : Token} {members : List Token}
    (hheader : header.kind = .className) (hmembers : IsClosed members)
    (hwidth : width header = required) :
    MembersAt width required (header :: (members ++ [stop])) := by
  intro inner member outer hsplit hinner _
  cases inner with
  | nil =>
    obtain ⟨rfl, -⟩ := List.cons.inj hsplit
    exact hwidth
  | cons first beginning =>
    obtain ⟨rfl, hrest⟩ := List.cons.inj hsplit
    have hlt : closings (header :: beginning) < openings (header :: beginning) := by
      refine closings_lt_openings hheader hmembers ⟨member :: outer, hrest.symm⟩ fun he => ?_
      simp [he] at hrest
    omega

/-! ## What completes the open blocks -/

/-- What still comes for the blocks that are open, the innermost first: its members and
its end, where it requires them. -/
def Completes (width : Token → Nat) : BlockStack → List Token → Prop
  | [], _ => True
  | frame :: outer, tokens => ∃ members stop after, tokens = members ++ stop :: after ∧
      IsClosed members ∧ stop.kind = .blockEnd ∧ width stop = frame.headerIndent ∧
      (∃ required, (∀ fixed, frame.required = some fixed → fixed = required) ∧
        MembersAt width required members) ∧ Completes width outer after

/-- The innermost block may get its required indentation, and nothing else changes. -/
inductive BlockStack.Fixes : BlockStack → BlockStack → Prop
  | nil : Fixes [] []
  | cons {frame frame' : Frame} {outer : BlockStack}
      (hindent : frame'.headerIndent = frame.headerIndent)
      (hrequired : ∀ fixed, frame.required = some fixed → frame'.required = some fixed) :
      Fixes (frame :: outer) (frame' :: outer)

theorem BlockStack.fixes_refl (blocks : BlockStack) : Fixes blocks blocks := by
  cases blocks with
  | nil => exact .nil
  | cons frame outer => exact .cons rfl fun _ h => h

theorem BlockStack.fixes_expectMembers (next : Option (Nat × Bool)) (blocks : BlockStack) :
    Fixes blocks (blocks.expectMembers next) := by
  unfold expectMembers
  split
  · exact .nil
  · next frame outer =>
    split
    · exact .cons rfl fun _ h => h
    · next hnone =>
      refine .cons rfl fun fixed h => ?_
      simp [h] at hnone

/-- A member fixes the indentation of all members, or agrees with it. -/
theorem BlockStack.fixes_checkMember {blocks blocks' : BlockStack} {actual : Nat}
    (h : blocks.checkMember actual = .ok blocks') :
    Fixes blocks blocks' ∧ ∀ frame ∈ blocks'.head?, frame.required = some actual := by
  unfold checkMember at h
  split at h
  · cases h
    exact ⟨.nil, by simp⟩
  next frame outer =>
  split at h
  · cases h
  split at h
  · next hnone =>
    cases h
    exact ⟨.cons rfl fun fixed hfixed => by simp [hnone] at hfixed, by simp⟩
  · next required hrequired =>
    split at h
    · next hsame =>
      cases h
      exact ⟨.cons rfl fun _ hfixed => hfixed, by simp [hrequired, hsame]⟩
    · cases h

/-- A part of the members of the innermost block, in front of the others. -/
theorem Completes.prepend {blocks blocks' : BlockStack} {part tokens : List Token}
    (h : Completes width blocks' tokens) (hfixes : blocks.Fixes blocks') (hclosed : IsClosed part)
    (hpart : ∀ frame ∈ blocks'.head?, ∀ required,
      (∀ fixed, frame.required = some fixed → fixed = required) → MembersAt width required part) :
    Completes width blocks (part ++ tokens) := by
  cases hfixes with
  | nil => trivial
  | @cons frame frame' outer hindent hrequired =>
    obtain ⟨members, stop, after, rfl, hmembers, hstop, hwidth, ⟨required, hfixed, hat⟩, hafter⟩ :=
      h
    refine ⟨part ++ members, stop, after, (List.append_assoc _ _ _).symm, hclosed.append hmembers,
      hstop, hwidth.trans hindent, ⟨required, ?_, ?_⟩, hafter⟩
    · exact fun fixed he => hfixed fixed (hrequired fixed he)
    · exact (hpart frame' rfl required hfixed).append hclosed.total hat

/-- The end of the innermost block. -/
theorem Completes.stop {frame : Frame} {outer : BlockStack} {stop : Token} {tokens : List Token}
    (hstop : stop.kind = .blockEnd) (hwidth : width stop = frame.headerIndent)
    (h : Completes width outer tokens) : Completes width (frame :: outer) (stop :: tokens) := by
  refine ⟨[], stop, tokens, rfl, isClosed_nil, hstop, hwidth, ⟨frame.required.getD 0, ?_,
    membersAt_nil⟩, h⟩
  intro fixed hfixed
  rw [hfixed]
  rfl

/-- A token that is neither a member nor an end. -/
theorem Completes.other {blocks : BlockStack} {token : Token} {tokens : List Token}
    (hmember : ¬token.IsMember) (hend : token.kind ≠ .blockEnd)
    (h : Completes width blocks tokens) : Completes width blocks (token :: tokens) := by
  have hclosed : IsClosed [token] := isClosed_singleton (fun he => hmember (.inr he)) hend
  have hcompletes : Completes width blocks ([token] ++ tokens) :=
    h.prepend blocks.fixes_refl hclosed fun _ _ _ _ =>
      membersAt_singleton fun he => absurd he hmember
  exact hcompletes

/-- An attribute in the column that its block requires. -/
theorem Completes.attributeName {blocks blocks' : BlockStack} {token : Token}
    {tokens : List Token} (hkind : token.kind = .attributeName)
    (hcheck : blocks.checkMember (width token) = .ok blocks')
    (h : Completes width blocks' tokens) : Completes width blocks (token :: tokens) := by
  obtain ⟨hfixes, hrequired⟩ := BlockStack.fixes_checkMember hcheck
  have hclosed : IsClosed [token] :=
    isClosed_singleton (by rw [hkind]; decide) (by rw [hkind]; decide)
  have hcompletes : Completes width blocks ([token] ++ tokens) :=
    h.prepend hfixes hclosed fun frame hframe required hfixed =>
      membersAt_singleton fun _ => hfixed _ (hrequired frame hframe)
  exact hcompletes

/-- A header in the column that the block around it requires, if there is one. -/
theorem Completes.className {blocks blocks' : BlockStack} {frame : Frame} {token : Token}
    {tokens : List Token} (hkind : token.kind = .className)
    (hcheck : blocks = [] ∨ blocks.checkMember (width token) = .ok blocks')
    (hindent : frame.headerIndent = width token)
    (h : Completes width (frame :: blocks') tokens) :
    Completes width blocks (token :: tokens) ∧ EndsAt width (width token) tokens := by
  obtain ⟨members, stop, after, rfl, hmembers, hstop, hwidth, ⟨required, -, hat⟩, hafter⟩ := h
  rw [hindent] at hwidth
  refine ⟨?_, members, stop, after, rfl, hmembers, hstop, hwidth, required, hat⟩
  rcases hcheck with rfl | hcheck
  · trivial
  obtain ⟨hfixes, hrequired⟩ := BlockStack.fixes_checkMember hcheck
  have hsplit : token :: (members ++ stop :: after) = (token :: (members ++ [stop])) ++ after := by
    simp
  rw [hsplit]
  refine hafter.prepend hfixes (hmembers.block hkind hstop) fun frame hframe required hfixed => ?_
  exact membersAt_block hkind hmembers (hfixed _ (hrequired frame hframe))

/-! ## Aligned streams -/

theorem isAligned_nil : IsAligned width [] := by
  intro before header after hsplit
  simp at hsplit

theorem IsAligned.cons {token : Token} {tokens : List Token} (h : IsAligned width tokens)
    (hends : token.kind = .className → EndsAt width (width token) tokens) :
    IsAligned width (token :: tokens) := by
  intro before header after hsplit hkind
  cases before with
  | nil =>
    obtain ⟨rfl, rfl⟩ := List.cons.inj hsplit
    exact hends hkind
  | cons first before =>
    obtain ⟨-, hrest⟩ := List.cons.inj hsplit
    exact h before header after hrest hkind

namespace Scan

variable {table : LineTable} {s t u : Scan} {piece : Piece} {pieces : List Piece}

/-- The indentation of the line on which a token stands. -/
def widthIn (table : LineTable) (token : Token) : Nat :=
  table.indentOf token.span.line

/-- What a step that yields a piece means for the structure of blocks. -/
inductive Shapes (table : LineTable) (s t : Scan) (piece : Piece) : Prop
  | className {owner : List Char} {blocks : BlockStack} (hkind : piece.kind = .token .className)
      (hline : piece.span.line = s.position.line) (hmode : s.mode = .default ∨ s.mode = .block)
      (hmember : (if s.mode = .block then s.blocks.checkMember (table.indentOf s.position.line)
        else .ok s.blocks) = .ok blocks)
      (hblocks : t.blocks =
        { owner, line := s.position.line, headerIndent := table.indentOf s.position.line } ::
          blocks)
  | attributeName (hkind : piece.kind = .token .attributeName)
      (hline : piece.span.line = s.position.line) (hblocks : t.blocks = s.blocks)
  | blockEnd {frame : Frame} (hkind : piece.kind = .token .blockEnd)
      (hline : piece.span.line = s.position.line) (hblocks : s.blocks = frame :: t.blocks)
      (hindent : frame.headerIndent = table.indentOf s.position.line)
  /-- Any other piece is no part of the structure, but may be the end of a header's line. -/
  | other (hkinds : ∀ kind ∈ emitted [piece],
        kind ≠ .className ∧ kind ≠ .attributeName ∧ kind ≠ .blockEnd)
      (hpiece : piece.kind ≠ .token .attributeName)
      (hblocks : t.blocks = s.blocks ∨ ∃ next, t.blocks = s.blocks.expectMembers next)

theorem Effect.shapes (he : Effect table s t (some piece)) : Shapes table s t piece := by
  -- A token inside an expression is no part of the structure.
  have hinner {kind : Kind} (hkind : piece.kind = .token kind)
      (hcategory : kind.category ≠ .structural) (hkept : kind.isFiltered = false)
      (hblocks : t.blocks = s.blocks) : Shapes table s t piece := by
    have hne {other : Kind} (hother : other.category = .structural) : kind ≠ other := by
      rintro rfl
      exact hcategory hother
    refine .other ?_ (fun he => hne rfl (PieceKind.token.inj (hkind.symm.trans he))) (.inl hblocks)
    rw [emitted_singleton hkind hkept]
    simpa using ⟨hne rfl, hne rfl, hne rfl⟩
  cases he with
  | blockOpens hkind _ hline hmode hmember _ hblocks =>
    exact .className hkind hline hmode hmember hblocks
  | expressionOpens hkind hline _ _ hblocks => exact .attributeName hkind hline hblocks
  | blockCloses hkind hline _ hblocks hindent => exact .blockEnd hkind hline hblocks hindent
  | membersBegin next hkind _ hblocks =>
    refine .other ?_ (by rw [hkind]; decide) (.inr ⟨next, hblocks⟩)
    rw [emitted_singleton_filtered hkind rfl]
    simp
  | still hquiet _ hblocks =>
    refine .other ?_ (fun hkind => ?_) (.inl hblocks)
    · rw [emitted_singleton_none (PieceKind.notedKind?_of_isQuiet (hquiet piece rfl))]
      simp
    · have hfiltered := hquiet piece rfl
      rw [hkind] at hfiltered
      cases hfiltered
  | named hkind _ _ _ hblocks | bodyCloses hkind _ hblocks =>
    refine .other ?_ (by rw [hkind]; decide) (.inl hblocks)
    rw [emitted_singleton hkind rfl]
    simp
  | expressionCloses hkind _ _ hblocks =>
    refine .other ?_ (by rw [hkind]; decide) (.inl hblocks)
    rw [emitted_singleton_filtered hkind rfl]
    simp
  | term hkind hterm _ _ hblocks => exact hinner hkind hterm.1 hterm.isFiltered hblocks
  | bracketTurns hkind hturns _ _ hblocks =>
    exact hinner hkind (by rw [hturns.category]; decide) hturns.isFiltered hblocks
  | stringOpens hkind _ _ hblocks =>
    refine .other ?_ (by rw [hkind]; simp) (.inl hblocks)
    rw [emitted_singleton_none (by rw [hkind]; rfl)]
    simp
  | stringCloses hkind _ hblocks =>
    refine .other ?_ (by rw [hkind]; decide) (.inl hblocks)
    rw [emitted_singleton_stringEnd hkind]
    simp

/-- A piece that is neither a header nor an attribute nor an end leaves what completes
the blocks. -/
theorem completes_of_other {head tokens : List Token} (hhead : Delivered [piece] head)
    (hkinds : ∀ kind ∈ emitted [piece],
      kind ≠ .className ∧ kind ≠ .attributeName ∧ kind ≠ .blockEnd)
    (hfixes : s.blocks.Fixes t.blocks)
    (h : Completes width t.blocks tokens ∧ IsAligned width tokens) :
    Completes width s.blocks (head ++ tokens) ∧ IsAligned width (head ++ tokens) := by
  have hcompletes : Completes width s.blocks ([] ++ tokens) :=
    h.1.prepend hfixes isClosed_nil fun _ _ _ _ => membersAt_nil
  cases hhead with
  | drop _ more =>
    cases more
    exact ⟨hcompletes, h.2⟩
  | @keep _ _ token _ hstands hkept more =>
    cases more
    have hmem : token.kind ∈ emitted [piece] := by
      rw [emitted_cons, hstands.notedKind? hkept]
      exact List.mem_cons_self
    obtain ⟨hclass, hattribute, hend⟩ := hkinds token.kind hmem
    have hmember : ¬token.IsMember := fun he => he.elim hattribute hclass
    exact ⟨hcompletes.other hmember hend, h.2.cons fun he => absurd he hclass⟩

/-- One step back from the end. -/
theorem completes_of_shapes {head tokens : List Token} (hshapes : Shapes table s t piece)
    (hsettles : Settles table piece t u) (hhead : Delivered [piece] head)
    (hstacked : Stacked s.blocks.length s.modes)
    (h : Completes (widthIn table) u.blocks tokens ∧ IsAligned (widthIn table) tokens) :
    Completes (widthIn table) s.blocks (head ++ tokens) ∧
      IsAligned (widthIn table) (head ++ tokens) := by
  cases hshapes with
  | @className owner blocks hkind hline hmode hmember hblocks =>
    obtain ⟨header, rfl, hheader, hspan⟩ := hhead.exists_of_kind hkind rfl
    have hwidth : widthIn table header = table.indentOf s.position.line := by
      rw [widthIn, hspan, hline]
    rw [hsettles.blocks_eq (by rw [hkind]; decide), hblocks] at h
    have hcheck : s.blocks = [] ∨ s.blocks.checkMember (widthIn table header) = .ok blocks := by
      rcases hmode with hmode | hmode
      · exact .inl (List.length_eq_zero_iff.1 (hstacked.eq_zero_of_default hmode))
      · rw [if_pos hmode, ← hwidth] at hmember
        exact .inr hmember
    obtain ⟨hcompletes, hends⟩ := Completes.className hheader hcheck hwidth.symm h.1
    exact ⟨hcompletes, h.2.cons fun _ => hends⟩
  | attributeName hkind hline hblocks =>
    obtain ⟨name, rfl, hname, hspan⟩ := hhead.exists_of_kind hkind rfl
    have hcheck := hsettles.checkMember hkind
    rw [hblocks, ← hspan] at hcheck
    refine ⟨h.1.attributeName hname hcheck, h.2.cons fun hheader => ?_⟩
    simp [hname] at hheader
  | @blockEnd frame hkind hline hblocks hindent =>
    obtain ⟨stop, rfl, hstop, hspan⟩ := hhead.exists_of_kind hkind rfl
    have hwidth : widthIn table stop = frame.headerIndent := by
      rw [widthIn, hspan, hline, hindent]
    rw [hsettles.blocks_eq (by rw [hkind]; decide)] at h
    rw [hblocks]
    refine ⟨h.1.stop hstop hwidth, h.2.cons fun hheader => ?_⟩
    simp [hstop] at hheader
  | other hkinds hpiece hblocks =>
    rw [hsettles.blocks_eq hpiece] at h
    refine completes_of_other hhead hkinds ?_ h
    rcases hblocks with hsame | ⟨next, hexpects⟩
    · exact hsame ▸ s.blocks.fixes_refl
    · exact hexpects ▸ s.blocks.fixes_expectMembers next

/-- A step without a piece may open a body and leaves the blocks alone. -/
theorem blocks_eq_of_quiet (he : Effect table s t none) : t.blocks = s.blocks := by
  cases he with
  | still _ _ hblocks | bodyOpens _ _ hblocks => exact hblocks

/-- The tokens of a run to the end complete the blocks that are open where it starts. -/
theorem completes_of_run {before : List Piece} {tokens : List Token}
    (hrun : Run table s pieces u) (hu : u.isDone = true) (hs : s.isDone = false)
    (hnested : Nested table before s) (hdelivered : Delivered pieces tokens) :
    Completes (widthIn table) s.blocks tokens ∧ IsAligned (widthIn table) tokens := by
  induction hrun generalizing before tokens with
  | refl s => simp [hs] at hu
  | @quiet s t u pieces _ hstep _ ih =>
    obtain ⟨he, -⟩ := effect_of_step_quiet hstep
    rw [← blocks_eq_of_quiet he]
    exact ih hu ((step_quiet table hstep).2.trans hs) (nested_of_effect hnested hs he) hdelivered
  | @piece s t t' u piece pieces _ hstep hsettles hrest ih =>
    obtain ⟨head, rest, rfl, hhead, hmore⟩ := hdelivered.uncons
    rcases effect_of_step hs hstep with ⟨hmodes, hkind, rfl⟩ | ⟨ht, he, -⟩
    · -- The end of the text is the last token, and no block is open there.
      obtain ⟨rfl, -⟩ := hrest.eq_of_isDone hsettles.same.2.2
      cases hmore
      obtain ⟨token, rfl, htoken, -⟩ := hhead.exists_of_kind hkind rfl
      have hblocks : s.blocks = [] :=
        List.length_eq_zero_iff.1 (hnested.stacked.eq_zero_of_default (by rw [hmodes]; rfl))
      rw [hblocks]
      exact ⟨trivial, isAligned_nil.cons fun hheader => by simp [htoken] at hheader⟩
    · have hnested' := nested_of_settles hsettles (nested_of_step hnested hs hstep)
      have hcompletes := ih hu (hsettles.same.2.2.trans ht) hnested' hmore
      exact completes_of_shapes he.shapes hsettles hhead hnested.stacked hcompletes

end Scan

/-! ## Lexers -/

open Files

theorem Lexer.isAligned_of_tokens {source : Source} {delivered : List Token}
    (h : tokens source = .ok delivered) : IsAligned (Scan.widthIn source.table) delivered := by
  obtain ⟨pieces, t, hrun, ht, hdelivered, -⟩ := run_of_tokens h
  exact (Scan.completes_of_run hrun ht rfl (Scan.nested_of_start rfl rfl) hdelivered).2

/-- The table of a source holds the lines of its text. -/
theorem Source.table_of_ofText {tree : FileTree} {config : Config} {text : List Char}
    {origin : Path} {source : Source}
    (h : (Source.ofText tree config text origin).outcome = .ok source) :
    source.table = .ofText config.tabWidth source.text := by
  obtain ⟨lines, -, rfl⟩ := exists_of_map_eq_ok h
  rfl

end BlockLexer
