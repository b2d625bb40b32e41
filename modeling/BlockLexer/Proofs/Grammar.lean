import BlockLexer.Proofs.Nesting

/-!
# The grammar of the tokens

Whenever a lexer comes to the end of a text, the kinds of its tokens belong to a
grammar.

* `Grammar.IsStream`, `IsBlock`, `IsMembers` and `IsExpression` are the grammar.
* `Grammar.Tail` and `Grammar.Closes` say what may follow in the middle of a block and
  of an expression, and `Scan.Follows` says it for a state of a scan.
* `Scan.follows_of_run` goes backwards over a run from the end of the text.
-/

namespace BlockLexer

/-- A literal or an identifier. -/
def Kind.IsOperand (kind : Kind) : Prop :=
  kind.category = .literal ∨ kind.category = .identifier

/-- Two kinds agree unless both are operands. -/
theorem Kind.agree_iff {previous next : Kind} :
    previous.Agree next ↔ ¬(previous.IsOperand ∧ next.IsOperand) := by
  unfold Agree clash? IsOperand
  cases previous.category <;> cases next.category <;> simp

/-- A kind of the structure is no operand. -/
theorem Kind.not_isOperand {kind : Kind} (h : kind.category = .structural) : ¬kind.IsOperand := by
  rw [IsOperand, h]
  simp

/-- The kinds of an expression: operators and brackets, literals and identifiers. -/
def Kind.IsInExpression (kind : Kind) : Prop :=
  kind.category = .expression ∨ kind.IsOperand

theorem Kind.IsTerm.isInExpression {kind : Kind} (h : kind.IsTerm) : kind.IsInExpression := by
  obtain ⟨hstructural, hfiltered, -⟩ := h
  unfold IsInExpression IsOperand
  cases hcategory : kind.category <;> simp_all

/-! ## The grammar -/

namespace Grammar

/-- An expression, which may be empty: no two operands are neighbours, and brackets of
each kind are balanced, apart from those of the other kinds. -/
structure IsExpression (kinds : List Kind) : Prop where
  members : ∀ kind ∈ kinds, kind.IsInExpression
  apart : kinds.IsChain fun previous next => ¬(previous.IsOperand ∧ next.IsOperand)
  opened : ∀ (bracket : Bracket) (beginning : List Kind), beginning <+: kinds →
    beginning.count bracket.closing ≤ beginning.count bracket.opening
  balanced : ∀ bracket : Bracket, kinds.count bracket.opening = kinds.count bracket.closing

mutual

/-- A block: its header with or without a name, its members, and its end. -/
inductive IsBlock : List Kind → Prop
  | block {name members : List Kind} (hname : name = [] ∨ name = [.instanceName])
      (hmembers : IsMembers members) :
      IsBlock (.className :: (name ++ (members ++ [.blockEnd])))

/-- The members of a block: attributes with their expressions, bodies, and blocks. -/
inductive IsMembers : List Kind → Prop
  | none : IsMembers []
  | expression {expression more : List Kind} (hexpression : IsExpression expression)
      (hmore : IsMembers more) : IsMembers (.attributeName :: (expression ++ more))
  | body {more : List Kind} (hmore : IsMembers more) : IsMembers (.body :: more)
  | block {block more : List Kind} (hblock : IsBlock block) (hmore : IsMembers more) :
      IsMembers (block ++ more)

end

/-- A whole stream: blocks, and the end of the text. -/
inductive IsStream : List Kind → Prop
  | endOfText : IsStream [.endOfText]
  | block {block more : List Kind} (hblock : IsBlock block) (hmore : IsStream more) :
      IsStream (block ++ more)

/-! ## The rest of a stream -/

/-- What follows between two members inside `n` blocks. -/
def Tail : Nat → List Kind → Prop
  | 0, kinds => IsStream kinds
  | n + 1, kinds => ∃ members rest, kinds = members ++ .blockEnd :: rest ∧
      IsMembers members ∧ Tail n rest

theorem Tail.expression {n : Nat} {expression kinds : List Kind}
    (hexpression : IsExpression expression) (h : Tail (n + 1) kinds) :
    Tail (n + 1) (.attributeName :: (expression ++ kinds)) := by
  obtain ⟨members, rest, rfl, hmembers, hrest⟩ := h
  exact ⟨.attributeName :: (expression ++ members), rest, by simp,
    .expression hexpression hmembers, hrest⟩

theorem Tail.body {n : Nat} {kinds : List Kind} (h : Tail (n + 1) kinds) :
    Tail (n + 1) (.body :: kinds) := by
  obtain ⟨members, rest, rfl, hmembers, hrest⟩ := h
  exact ⟨.body :: members, rest, rfl, .body hmembers, hrest⟩

theorem Tail.blockEnd {n : Nat} {kinds : List Kind} (h : Tail n kinds) :
    Tail (n + 1) (.blockEnd :: kinds) :=
  ⟨[], kinds, rfl, .none, h⟩

/-- A header completes the block around what follows it. -/
theorem Tail.className {n : Nat} {name kinds : List Kind}
    (hname : name = [] ∨ name = [.instanceName]) (h : Tail (n + 1) kinds) :
    Tail n (.className :: (name ++ kinds)) := by
  obtain ⟨members, rest, rfl, hmembers, hrest⟩ := h
  have hblock : IsBlock (.className :: (name ++ (members ++ [.blockEnd]))) :=
    .block hname hmembers
  have hsplit : Kind.className :: (name ++ (members ++ .blockEnd :: rest)) =
      (.className :: (name ++ (members ++ [.blockEnd]))) ++ rest := by simp
  rw [hsplit]
  cases n with
  | zero => exact .block hblock hrest
  | succ n =>
    obtain ⟨members', rest', rfl, hmembers', hrest'⟩ := hrest
    exact ⟨_ ++ members', rest', by simp, .block hblock hmembers', hrest'⟩

/-- What closes the brackets that are open. -/
structure Closes (brackets : Brackets) (kinds : List Kind) : Prop where
  members : ∀ kind ∈ kinds, kind.IsInExpression
  opened : ∀ (bracket : Bracket) (beginning : List Kind), beginning <+: kinds →
    beginning.count bracket.closing ≤ brackets.depth bracket + beginning.count bracket.opening
  balanced : ∀ bracket : Bracket,
    brackets.depth bracket + kinds.count bracket.opening = kinds.count bracket.closing

theorem count_cons_eq_add (kind other : Kind) (kinds : List Kind) :
    (kind :: kinds).count other = [kind].count other + kinds.count other := by
  rw [← List.singleton_append, List.count_append]

theorem Closes.nil {brackets : Brackets} (h : brackets.isBalanced = true) : Closes brackets [] := by
  have hdepth := Brackets.isBalanced_iff.1 h
  refine ⟨by simp, fun bracket beginning hbeginning => ?_, fun bracket => ?_⟩
  · rw [List.prefix_nil.1 hbeginning]
    exact Nat.zero_le _
  · simp [hdepth bracket]

theorem Closes.cons {brackets brackets' : Brackets} {kind : Kind} {kinds : List Kind}
    (hkind : kind.IsInExpression)
    (hdepth : ∀ bracket : Bracket, brackets.depth bracket + [kind].count bracket.opening =
      brackets'.depth bracket + [kind].count bracket.closing)
    (h : Closes brackets' kinds) : Closes brackets (kind :: kinds) := by
  refine ⟨List.forall_mem_cons.2 ⟨hkind, h.members⟩, fun bracket beginning hbeginning => ?_,
    fun bracket => ?_⟩
  · rcases List.prefix_cons_iff.1 hbeginning with rfl | ⟨more, rfl, hmore⟩
    · exact Nat.zero_le _
    · have hmore := h.opened bracket more hmore
      have hkind := hdepth bracket
      rw [count_cons_eq_add kind bracket.closing more, count_cons_eq_add kind bracket.opening more]
      omega
  · have hbalanced := h.balanced bracket
    have hkind := hdepth bracket
    rw [count_cons_eq_add kind bracket.opening kinds, count_cons_eq_add kind bracket.closing kinds]
    omega

theorem Closes.term {brackets : Brackets} {kind : Kind} {kinds : List Kind} (hkind : kind.IsTerm)
    (h : Closes brackets kinds) : Closes brackets (kind :: kinds) := by
  refine h.cons hkind.isInExpression fun bracket => ?_
  rw [hkind.count_opening bracket, hkind.count_closing bracket]

theorem Closes.bracket {brackets brackets' : Brackets} {kind : Kind} {kinds : List Kind}
    (hturns : brackets.Turns brackets' kind) (h : Closes brackets' kinds) :
    Closes brackets (kind :: kinds) :=
  h.cons (.inl hturns.category) hturns.depth_eq

/-- What closes nothing is an expression, if its neighbours agree. -/
theorem Closes.isExpression {kinds : List Kind} (h : Closes {} kinds)
    (hchain : kinds.IsChain Kind.Agree) : IsExpression kinds := by
  refine ⟨h.members, hchain.imp fun _ _ => Kind.agree_iff.1, fun bracket beginning hbeginning => ?_,
    fun bracket => ?_⟩
  · have hopened := h.opened bracket beginning hbeginning
    rwa [Brackets.depth_empty, Nat.zero_add] at hopened
  · have hbalanced := h.balanced bracket
    rwa [Brackets.depth_empty, Nat.zero_add] at hbalanced

end Grammar

/-! ## The states of a scan -/

/-- The brackets of the expression at the top of the modes, or below its string. -/
def openBrackets? : List Activation → Option Brackets
  | .expression brackets :: _ => some brackets
  | .string _ _ _ _ :: .expression brackets :: _ => some brackets
  | _ => none

@[simp] theorem openBrackets?_replicate (n : Nat) :
    openBrackets? (List.replicate n .block) = none := by
  cases n <;> rfl

theorem openBrackets?_of_stacked {n : Nat} {modes : List Activation} (h : Scan.Stacked n modes)
    (hmode : modeOf modes = .default ∨ modeOf modes = .block) : openBrackets? modes = none := by
  rw [h.eq_replicate hmode, openBrackets?_replicate]

namespace Scan

open Grammar

variable {table : LineTable} {s t u : Scan} {piece? : Option Piece} {pieces : List Piece}

/-- The last token is the class of a header. -/
def IsHeaded (s : Scan) : Prop :=
  ∃ line, s.last = some (.className, line)

/-- What follows in a state: the rest of its expression, or else perhaps the name of the
header, and then what follows in its blocks. -/
def Follows (s : Scan) (kinds : List Kind) : Prop :=
  match openBrackets? s.modes with
  | some brackets => ∃ expression rest, kinds = expression ++ rest ∧ Closes brackets expression ∧
      Tail s.blocks.length rest
  | none => ∃ name rest, kinds = name ++ rest ∧
      (name = [] ∨ name = [.instanceName] ∧ s.IsHeaded) ∧ Tail s.blocks.length rest

theorem follows_of_some {brackets : Brackets} {kinds : List Kind}
    (hmodes : openBrackets? s.modes = some brackets) :
    s.Follows kinds ↔ ∃ expression rest, kinds = expression ++ rest ∧
      Closes brackets expression ∧ Tail s.blocks.length rest := by
  unfold Follows
  rw [hmodes]

theorem follows_of_none {kinds : List Kind} (hmodes : openBrackets? s.modes = none) :
    s.Follows kinds ↔ ∃ name rest, kinds = name ++ rest ∧
      (name = [] ∨ name = [.instanceName] ∧ s.IsHeaded) ∧ Tail s.blocks.length rest := by
  unfold Follows
  rw [hmodes]

/-- Between members, unless the header may still get a name. -/
theorem follows_of_tail {kinds : List Kind} (hmodes : openBrackets? s.modes = none)
    (h : Tail s.blocks.length kinds) : s.Follows kinds :=
  (follows_of_none hmodes).2 ⟨[], kinds, rfl, .inl rfl, h⟩

theorem tail_of_follows {kinds : List Kind} (hmodes : openBrackets? s.modes = none)
    (hlast : ¬s.IsHeaded) (h : s.Follows kinds) : Tail s.blocks.length kinds := by
  obtain ⟨name, rest, rfl, hname, hrest⟩ := (follows_of_none hmodes).1 h
  rcases hname with rfl | ⟨-, hheaded⟩
  · exact hrest
  · exact absurd hheaded hlast

/-- What follows depends on the modes, the number of blocks and the last token. -/
theorem Follows.congr {kinds : List Kind} (hmodes : openBrackets? t.modes = openBrackets? s.modes)
    (hblocks : t.blocks.length = s.blocks.length) (hlast : t.IsHeaded → s.IsHeaded)
    (h : t.Follows kinds) : s.Follows kinds := by
  unfold Follows at h ⊢
  rw [hmodes, hblocks] at h
  split
  · next hsome =>
    rw [hsome] at h
    exact h
  · next hnone =>
    rw [hnone] at h
    obtain ⟨name, rest, hkinds, hname, hrest⟩ := h
    exact ⟨name, rest, hkinds, hname.imp_right fun ⟨he, hheaded⟩ => ⟨he, hlast hheaded⟩, hrest⟩

theorem isHeaded_of_expectsName (h : s.expectsName = true) : s.IsHeaded := by
  unfold expectsName at h
  split at h
  · next kind line hlast =>
    simp only [Bool.and_eq_true, decide_eq_true_eq] at h
    exact ⟨line, by rw [hlast, h.1]⟩
  · cases h

/-- How the class of a header comes to be the last token in a step. -/
def KeepsLast (s t : Scan) (kinds : List Kind) : Prop :=
  t.IsHeaded → kinds = [.className] ∨ kinds = [] ∧ s.IsHeaded

theorem keepsLast_of_noted {piece : Piece} (hlast : t.last =
    (notedKind? piece.kind).elim s.last fun kind => some (kind, piece.span.line)) :
    KeepsLast s t (emitted [piece]) := by
  rintro ⟨line, hline⟩
  rw [emitted_cons]
  cases hnoted : notedKind? piece.kind with
  | none =>
    rw [hnoted, hline] at hlast
    exact .inr ⟨rfl, line, hlast.symm⟩
  | some kind =>
    rw [hnoted, hline] at hlast
    obtain rfl : Kind.className = kind := congrArg Prod.fst (Option.some.inj hlast)
    exact .inl rfl

theorem KeepsLast.not_isHeaded {kind : Kind} (h : KeepsLast s t [kind])
    (hkind : kind ≠ .className) : ¬t.IsHeaded := by
  intro ht
  rcases h ht with he | ⟨he, -⟩
  · exact hkind (List.cons.inj he).1
  · cases he

theorem KeepsLast.of_nil (h : KeepsLast s t []) (ht : t.IsHeaded) : s.IsHeaded := by
  rcases h ht with he | ⟨-, hs⟩
  · cases he
  · exact hs

/-- Behind the class of a header no expression is open. -/
theorem openBrackets?_of_isHeaded (he : Effect table s t piece?)
    (hlast : KeepsLast s t (emitted piece?.toList))
    (h : s.IsHeaded → openBrackets? s.modes = none) (ht : t.IsHeaded) :
    openBrackets? t.modes = none := by
  cases he with
  | still hquiet hmodes _ =>
    rw [emitted_of_quiet hquiet] at hlast
    rw [hmodes]
    exact h (hlast.of_nil ht)
  | membersBegin next hkind hmodes _ =>
    rw [Option.toList_some, emitted_singleton_filtered hkind rfl] at hlast
    rw [hmodes]
    exact h (hlast.of_nil ht)
  | named hkind | blockCloses hkind | expressionOpens hkind | bodyCloses hkind =>
    rw [Option.toList_some, emitted_singleton hkind rfl] at hlast
    exact absurd ht (hlast.not_isHeaded (by decide))
  | blockOpens _ _ _ _ _ hmodes _ | bodyOpens _ hmodes _ =>
    rw [hmodes]
    rfl
  | expressionCloses hkind _ hmodes _ =>
    rw [Option.toList_some, emitted_singleton_filtered hkind rfl] at hlast
    have hs := h (hlast.of_nil ht)
    rw [hmodes] at hs
    cases hs
  | @term _ kind _ _ hkind hterm =>
    rw [Option.toList_some, emitted_singleton hkind hterm.isFiltered] at hlast
    refine absurd ht (hlast.not_isHeaded ?_)
    rintro rfl
    exact hterm.1 rfl
  | @bracketTurns _ kind _ _ _ hkind hturns =>
    rw [Option.toList_some, emitted_singleton hkind hturns.isFiltered] at hlast
    refine absurd ht (hlast.not_isHeaded ?_)
    rintro rfl
    cases hturns.category
  | stringOpens hkind hmode _ _ =>
    rw [Option.toList_some, emitted_singleton_none (by rw [hkind]; rfl)] at hlast
    obtain ⟨brackets, outer, houter⟩ := exists_of_mode_eq_expression hmode
    have hs := h (hlast.of_nil ht)
    rw [houter] at hs
    cases hs
  | stringCloses hkind =>
    rw [Option.toList_some, emitted_singleton_stringEnd hkind] at hlast
    exact absurd ht (hlast.not_isHeaded (by decide))

/-- One step back from the end: if `t` is left with some kinds, `s` is left with what
the step emits and these kinds. -/
theorem follows_of_effect {kinds : List Kind} (he : Effect table s t piece?)
    (hstacked : Stacked s.blocks.length s.modes) (hlast : KeepsLast s t (emitted piece?.toList))
    (hheaded : s.IsHeaded → openBrackets? s.modes = none)
    (hchain : (emitted piece?.toList ++ kinds).IsChain Kind.Agree) (h : t.Follows kinds) :
    s.Follows (emitted piece?.toList ++ kinds) := by
  cases he with
  | still hquiet hmodes hblocks =>
    rw [emitted_of_quiet hquiet] at hlast ⊢
    exact h.congr (by rw [hmodes]) (by rw [hblocks]) hlast.of_nil
  | membersBegin next hkind hmodes hblocks =>
    rw [Option.toList_some, emitted_singleton_filtered hkind rfl] at hlast ⊢
    exact h.congr (by rw [hmodes]) (by rw [hblocks, BlockStack.length_expectMembers]) hlast.of_nil
  | named hkind hname hmode hmodes hblocks =>
    rw [Option.toList_some, emitted_singleton hkind rfl] at hlast ⊢
    have hnone := openBrackets?_of_stacked hstacked hmode
    have htail := tail_of_follows (hmodes ▸ hnone) (hlast.not_isHeaded (by decide)) h
    rw [hblocks] at htail
    have hheaded' := isHeaded_of_expectsName hname
    exact (follows_of_none hnone).2 ⟨[_], kinds, rfl, .inr ⟨rfl, hheaded'⟩, htail⟩
  | @blockOpens _ owner blocks hkind _ _ hmode hmember hmodes hblocks =>
    rw [Option.toList_some, emitted_singleton hkind rfl]
    have hlength : blocks.length = s.blocks.length := by
      simpa using congrArg List.length (map_header_of_member hmember)
    have hnone := openBrackets?_of_stacked hstacked hmode
    obtain ⟨name, rest, rfl, hname, hrest⟩ := (follows_of_none (by rw [hmodes]; rfl)).1 h
    rw [hblocks, List.length_cons, hlength] at hrest
    have htail : Tail s.blocks.length (.className :: (name ++ rest)) :=
      hrest.className (hname.imp_right And.left)
    exact follows_of_tail hnone htail
  | blockCloses hkind _ hmodes hblocks _ =>
    rw [Option.toList_some, emitted_singleton hkind rfl] at hlast ⊢
    rw [hmodes] at hstacked
    have hnone : openBrackets? t.modes = none := by
      rw [hstacked.of_block, openBrackets?_replicate]
    have htail := tail_of_follows hnone (hlast.not_isHeaded (by decide)) h
    refine follows_of_tail (by rw [hmodes]; rfl) ?_
    rw [hblocks, List.length_cons]
    exact htail.blockEnd
  | expressionOpens hkind _ hmode hmodes hblocks =>
    rw [Option.toList_some, emitted_singleton hkind rfl] at hchain ⊢
    obtain ⟨expression, rest, rfl, hcloses, hrest⟩ := (follows_of_some (by rw [hmodes]; rfl)).1 h
    have hchain' : (expression ++ rest).IsChain Kind.Agree := hchain.tail
    have hnone := openBrackets?_of_stacked hstacked (.inr hmode)
    refine follows_of_tail hnone ?_
    obtain ⟨n, hn⟩ := Nat.exists_eq_succ_of_ne_zero (hstacked.pos_of_block hmode).ne'
    rw [hblocks, hn] at hrest
    have htail : Tail (n + 1) (.attributeName :: (expression ++ rest)) :=
      hrest.expression (hcloses.isExpression hchain'.left_of_append)
    rw [hn]
    exact htail
  | @expressionCloses _ brackets hkind hbalanced hmodes hblocks =>
    have hns : ¬s.IsHeaded := fun hs => by
      have hs := hheaded hs
      rw [hmodes] at hs
      cases hs
    rw [Option.toList_some, emitted_singleton_filtered hkind rfl] at hlast ⊢
    rw [hmodes] at hstacked
    have hnone : openBrackets? t.modes = none := by
      rw [hstacked.of_expression.2, openBrackets?_replicate]
    have htail := tail_of_follows hnone (fun ht => hns (hlast.of_nil ht)) h
    rw [hblocks] at htail
    exact (follows_of_some (by rw [hmodes]; rfl)).2 ⟨[], kinds, rfl, .nil hbalanced, htail⟩
  | @term _ kind brackets outer hkind hterm hmode hmodes hblocks =>
    rw [Option.toList_some, emitted_singleton hkind hterm.isFiltered]
    obtain ⟨expression, rest, rfl, hcloses, hrest⟩ :=
      (follows_of_some (by rw [hmodes, hmode]; rfl)).1 h
    rw [hblocks] at hrest
    exact (follows_of_some (by rw [hmode]; rfl)).2
      ⟨kind :: expression, rest, rfl, hcloses.term hterm, hrest⟩
  | @bracketTurns _ kind brackets brackets' outer hkind hturns hmode hmodes hblocks =>
    rw [Option.toList_some, emitted_singleton hkind hturns.isFiltered]
    obtain ⟨expression, rest, rfl, hcloses, hrest⟩ := (follows_of_some (by rw [hmodes]; rfl)).1 h
    rw [hblocks] at hrest
    exact (follows_of_some (by rw [hmode]; rfl)).2
      ⟨kind :: expression, rest, rfl, hcloses.bracket hturns, hrest⟩
  | bodyOpens hmode hmodes hblocks =>
    have hnone := openBrackets?_of_stacked hstacked (.inr hmode)
    refine h.congr ?_ (by rw [hblocks]) hlast.of_nil
    rw [hmodes, hnone]
    rfl
  | bodyCloses hkind hmodes hblocks =>
    rw [Option.toList_some, emitted_singleton hkind rfl] at hlast ⊢
    rw [hmodes] at hstacked
    obtain ⟨hpos, houter⟩ := hstacked.of_body
    have hnone : openBrackets? t.modes = none := by rw [houter, openBrackets?_replicate]
    have htail := tail_of_follows hnone (hlast.not_isHeaded (by decide)) h
    refine follows_of_tail (by rw [hmodes]; rfl) ?_
    obtain ⟨n, hn⟩ := Nat.exists_eq_succ_of_ne_zero hpos.ne'
    rw [hblocks, hn] at htail
    rw [hn]
    exact htail.body
  | stringOpens hkind hmode hmodes hblocks =>
    rw [Option.toList_some, emitted_singleton_none (by rw [hkind]; rfl)] at hlast ⊢
    obtain ⟨brackets, outer, houter⟩ := exists_of_mode_eq_expression hmode
    exact h.congr (by rw [hmodes, houter]; rfl) (by rw [hblocks]) hlast.of_nil
  | stringCloses hkind hmodes hblocks =>
    rw [Option.toList_some, emitted_singleton_stringEnd hkind]
    rw [hmodes] at hstacked
    obtain ⟨brackets, -, houter⟩ := hstacked.of_string
    obtain ⟨expression, rest, rfl, hcloses, hrest⟩ := (follows_of_some (by rw [houter]; rfl)).1 h
    rw [hblocks] at hrest
    exact (follows_of_some (by rw [hmodes, houter]; rfl)).2
      ⟨.string :: expression, rest, rfl, hcloses.term (by decide), hrest⟩

/-- The end of the text is read outside of all blocks. -/
theorem follows_endOfText {before : List Piece} (hnested : Nested table before s)
    (hmodes : s.modes = []) : s.Follows [.endOfText] := by
  have hblocks : s.blocks.length = 0 :=
    hnested.stacked.eq_zero_of_default (by rw [hmodes]; rfl)
  refine follows_of_tail (by rw [hmodes]; rfl) ?_
  rw [hblocks]
  exact .endOfText

/-- What a run to the end emits is what may follow in the state where it starts. -/
theorem follows_of_run {before : List Piece} (hrun : Run table s pieces u)
    (hu : u.isDone = true) (hs : s.isDone = false) (hnested : Nested table before s)
    (hheaded : s.IsHeaded → openBrackets? s.modes = none)
    (hchain : (emitted pieces).IsChain Kind.Agree) : s.Follows (emitted pieces) := by
  induction hrun generalizing before with
  | refl s => simp [hs] at hu
  | @quiet s t u pieces _ hstep _ ih =>
    obtain ⟨he, hsame⟩ := effect_of_step_quiet hstep
    have hlast : KeepsLast s t [] := fun ⟨line, hline⟩ => .inr ⟨rfl, line, hsame ▸ hline⟩
    have hnested' := nested_of_effect hnested hs he
    have htail := ih hu ((step_quiet table hstep).2.trans hs) hnested'
      (openBrackets?_of_isHeaded he hlast hheaded) hchain
    exact follows_of_effect he hnested.stacked hlast hheaded hchain htail
  | @piece s t t' u piece pieces _ hstep hsettles hrest ih =>
    have hsame := hsettles.same
    rw [← List.singleton_append, emitted_append] at hchain ⊢
    rcases effect_of_step hs hstep with ⟨hmodes, hkind, rfl⟩ | ⟨ht, he, hnoted⟩
    · obtain ⟨rfl, -⟩ := hrest.eq_of_isDone hsame.2.2
      rw [emitted_singleton hkind rfl]
      exact follows_endOfText hnested hmodes
    · have hlast := keepsLast_of_noted hnoted
      have hback : t'.IsHeaded → t.IsHeaded := fun ⟨line, hline⟩ => ⟨line, hsame.2.1 ▸ hline⟩
      have hlength : t'.blocks.length = t.blocks.length := by
        simpa using congrArg List.length (map_header_of_settles hsettles)
      have hnested' := nested_of_settles hsettles (nested_of_step hnested hs hstep)
      have hheaded' : t'.IsHeaded → openBrackets? t'.modes = none := fun ht' => by
        rw [hsame.1]
        exact openBrackets?_of_isHeaded he hlast hheaded (hback ht')
      have htail := ih hu (hsame.2.2.trans ht) hnested' hheaded' hchain.right_of_append
      have htail' : t.Follows (emitted pieces) := htail.congr (by rw [hsame.1]) hlength hback
      exact follows_of_effect he hnested.stacked hlast hheaded hchain htail'

end Scan

/-! ## Lexers -/

open Grammar Files

/-- The tokens of a source that is read to its end are a stream of blocks. -/
theorem Lexer.isStream_of_tokens {source : Source} {delivered : List Token}
    (h : tokens source = .ok delivered) : IsStream (delivered.map Token.kind) := by
  obtain ⟨pieces, t, hrun, ht, hdelivered, hchain⟩ := run_of_tokens h
  rw [hdelivered.map_kind] at hchain ⊢
  have hfollows := Scan.follows_of_run hrun ht rfl (Scan.nested_of_start rfl rfl) (fun _ => rfl)
    hchain
  exact Scan.tail_of_follows rfl (fun ⟨_, hline⟩ => by cases hline) hfollows

/-- Whenever a text is read to its end without a fault, the kinds of its tokens belong
to the grammar. -/
theorem isStream_of_tokenize {tree : FileTree} {config : Config} {text : List Char}
    {origin : Path} {tokens : List Token} (h : tokenize tree config text origin = .ok tokens) :
    IsStream (tokens.map Token.kind) := by
  obtain ⟨source, -, htokens⟩ := exists_of_bind_eq_ok h
  exact Lexer.isStream_of_tokens htokens

/-- A named block with an attribute, whose expression runs over two lines. -/
theorem isStream_of_named_block :
    ∃ tokens, tokenize ⟨[], []⟩ {} ['A', ' ', 'b', '\n', 'x', '=', '(', '1', '\n', ')', '\n', 'e',
        'n', 'd'] textOrigin = .ok tokens ∧
      tokens.map Token.kind = [.className, .instanceName, .attributeName, .openParen, .integer,
        .closeParen, .blockEnd, .endOfText] ∧ IsStream (tokens.map Token.kind) := by
  have hkinds : (tokenize ⟨[], []⟩ {} ['A', ' ', 'b', '\n', 'x', '=', '(', '1', '\n', ')', '\n',
      'e', 'n', 'd'] textOrigin).map (List.map Token.kind) = .ok [.className, .instanceName,
        .attributeName, .openParen, .integer, .closeParen, .blockEnd, .endOfText] := by
    decide +kernel
  obtain ⟨tokens, htokens, hkinds⟩ := exists_of_map_eq_ok hkinds
  exact ⟨tokens, htokens, hkinds, isStream_of_tokenize htokens⟩

end BlockLexer
