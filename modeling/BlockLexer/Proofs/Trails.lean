import BlockLexer.Proofs.Shifted

/-!
# Tokens of scans that read the same text in another place

Two scans that read the same text in another place yield pieces with the same meaning, and
one of them may have more blanks to yield.  This module says that the tokens which are made
of the pieces have the same meaning, too.

* `Shift.Tokens` are two tokens with the same meaning.
* `Shift.Trails` are the pieces of the two scans, and `Shift.Trails.exists_assembled` says
  what they make.
-/

namespace BlockLexer

/-- The kind of the token that a piece belongs to. -/
def PieceKind.tokenKind : PieceKind → Kind
  | .token kind => kind
  | .stringStart _ _ | .stringText | .stringEscape | .stringLineBreak | .stringEnd => .string

/-- A piece that goes on with a string. -/
def PieceKind.GoesOn (kind : PieceKind) : Prop :=
  kind.IsPart ∨ kind = .stringEnd

namespace Shift

variable (d : Shift)

/-- Two tokens with the same meaning.  A body always is in the first column. -/
structure Tokens (columns : Nat) (token token' : Token) : Prop where
  kind : token'.kind = token.kind
  value : token'.value = d.value token.value
  start : d.bytes token.span.start token'.span.start
  stop : d.bytes token.span.stop token'.span.stop
  line : token'.span.line = token.span.line + d.lines
  column : token'.span.column = token.span.column + if token.kind = .body then 0 else columns

/-- The pieces of two scans: pieces with the same meaning, and among those of the second
scan blanks, but not within a string.  Which columns are allowed depends on the kind. -/
inductive Trails (allowed : Kind → Nat → Prop) : List Piece → List Piece → Prop
  | nil : Trails allowed [] []
  | cons {columns : Nat} {piece piece' : Piece} {pieces pieces' : List Piece}
      (hpieces : d.Pieces columns piece piece') (hallowed : allowed piece.kind.tokenKind columns)
      (hmore : Trails allowed pieces pieces') : Trails allowed (piece :: pieces) (piece' :: pieces')
  | blanks {gap : Piece} {pieces pieces' : List Piece} (hkind : gap.kind = .token .blanks)
      (hnext : ∀ piece ∈ pieces.head?, ¬ piece.kind.GoesOn) (hmore : Trails allowed pieces pieces') :
      Trails allowed pieces (gap :: pieces')

variable {d} {allowed : Kind → Nat → Prop} {columns : Nat} {piece : Piece}
  {pieces pieces' more : List Piece} {tokens : List Token}

/-! ## Trails from the front -/

/-- More blanks in front, but not within a string. -/
theorem Trails.behind {gaps : List Piece} (hgaps : ∀ gap ∈ gaps, gap.kind = .token .blanks)
    (hnext : gaps = [] ∨ ∀ piece ∈ pieces.head?, ¬ piece.kind.GoesOn)
    (h : d.Trails allowed pieces pieces') : d.Trails allowed pieces (gaps ++ pieces') := by
  rcases hnext with rfl | hnext
  · exact h
  · induction gaps with
    | nil => exact h
    | cons gap gaps ih =>
      obtain ⟨hgap, hgaps⟩ := List.forall_mem_cons.1 hgaps
      exact .blanks hgap hnext (ih hgaps)

/-- The first piece has its counterpart behind some blanks, or at once if it goes on with a
string. -/
theorem Trails.uncons (h : d.Trails allowed (piece :: pieces) pieces') :
    ∃ gaps columns piece' more', pieces' = gaps ++ piece' :: more' ∧
      (∀ gap ∈ gaps, gap.kind = .token .blanks) ∧ (piece.kind.GoesOn → gaps = []) ∧
      d.Pieces columns piece piece' ∧ allowed piece.kind.tokenKind columns ∧
      d.Trails allowed pieces more' := by
  generalize hall : piece :: pieces = all at h
  induction h with
  | nil => cases hall
  | cons hpieces hallowed hmore =>
    obtain ⟨rfl, rfl⟩ := List.cons.inj hall
    exact ⟨[], _, _, _, rfl, by simp, fun _ => rfl, hpieces, hallowed, hmore⟩
  | @blanks gap _ _ hkind hnext _ ih =>
    subst hall
    obtain ⟨gaps, columns, piece', more', rfl, hgaps, -, hrest⟩ := ih rfl
    refine ⟨gap :: gaps, columns, piece', more', rfl, List.forall_mem_cons.2 ⟨hkind, hgaps⟩, ?_,
      hrest⟩
    exact fun hgoes => absurd hgoes (hnext piece rfl)

theorem Trails.eq_blanks (h : d.Trails allowed [] pieces') :
    ∀ gap ∈ pieces', gap.kind = .token .blanks := by
  generalize hall : ([] : List Piece) = all at h
  induction h with
  | nil => simp
  | cons => cases hall
  | blanks hkind _ _ ih => exact List.forall_mem_cons.2 ⟨hkind, ih hall⟩

/-! ## What the pieces make -/

theorem chars?_value (value : Value) : (d.value value).chars? = value.chars? := by
  cases value <;> rfl

/-- Blanks are dropped. -/
theorem assembled_blanks {gaps : List Piece} (hgaps : ∀ gap ∈ gaps, gap.kind = .token .blanks)
    (h : Assembled pieces tokens) : Assembled (gaps ++ pieces) tokens := by
  induction gaps with
  | nil => exact h
  | cons gap gaps ih =>
    obtain ⟨hgap, hgaps⟩ := List.forall_mem_cons.1 hgaps
    have hfirst : Assembled [gap] [] := Makes.dropped (.token hgap) rfl
    exact hfirst.append (ih hgaps)

theorem chunk_eq {piece' : Piece} (h : d.Pieces columns piece piece') (afterBreak : Bool) :
    Assembly.chunk afterBreak piece' = Assembly.chunk afterBreak piece := by
  unfold Assembly.chunk
  rw [h.kind, h.value, chars?_value]

/-- The parts of a string have their counterparts one after the other, and they are joined to
the same text. -/
theorem Trails.split_parts {parts : List Piece} (hparts : ∀ part ∈ parts, part.kind.IsPart)
    (h : d.Trails allowed (parts ++ more) pieces') :
    ∃ parts' more', pieces' = parts' ++ more' ∧ (∀ part ∈ parts', part.kind.IsPart) ∧
      (∀ afterBreak, Assembly.joined afterBreak parts' = Assembly.joined afterBreak parts) ∧
      d.Trails allowed more more' := by
  induction parts generalizing pieces' with
  | nil => exact ⟨[], pieces', rfl, by simp, fun _ => rfl, h⟩
  | cons part parts ih =>
    obtain ⟨hpart, hparts⟩ := List.forall_mem_cons.1 hparts
    obtain ⟨gaps, columns, part', rest, rfl, -, hgaps, hpieces, -, hrest⟩ := Trails.uncons h
    obtain rfl := hgaps (.inl hpart)
    obtain ⟨parts', more', rfl, hparts', hjoined, hmore⟩ := ih hparts hrest
    refine ⟨part' :: parts', more', rfl, List.forall_mem_cons.2 ⟨?_, hparts'⟩, ?_, hmore⟩
    · rw [hpieces.kind]
      exact hpart
    · intro afterBreak
      rw [Assembly.joined, Assembly.joined, chunk_eq hpieces, hpieces.kind, hjoined]

/-- The tokens of two strings with the same text. -/
theorem exists_literal {columns' : Nat} {style : QuoteStyle} {start start' stop stop' : Piece}
    {text : List Char} {raw : Bool} {token : Token} (hstart : d.Pieces columns start start')
    (hkind : start.kind = .stringStart style raw) (hstop : d.Pieces columns' stop stop')
    (hliteral : Assembly.literal style start stop text = .ok token) :
    ∃ token', Assembly.literal style start' stop' text = .ok token' ∧
      d.Tokens columns token token' := by
  unfold Assembly.literal at hliteral ⊢
  rw [hstart.value, chars?_value]
  cases hletter : Assembly.applyLetter (start.value.chars?.getD []) text with
  | error cause =>
    rw [hletter] at hliteral
    cases hliteral
  | ok value =>
  rw [hletter] at hliteral
  cases hliteral
  refine ⟨_, rfl, rfl, rfl, hstart.start, hstop.stop, ?_, ?_⟩
  · dsimp only
    split
    · exact hstart.line
    · exact hstop.line
  · have hcolumn := hstart.column
    rw [hkind, if_neg (by simp)] at hcolumn
    exact hcolumn

/-- The first token of some pieces has its counterpart behind some blanks. -/
theorem Trails.exists_makes {token : Token} (h : d.Trails allowed (pieces ++ more) pieces')
    (hmakes : Makes pieces token) :
    ∃ gaps first' more' token' columns, pieces' = gaps ++ (first' ++ more') ∧
      (∀ gap ∈ gaps, gap.kind = .token .blanks) ∧ Makes first' token' ∧
      d.Tokens columns token token' ∧ allowed token.kind columns ∧ d.Trails allowed more more' := by
  cases hmakes with
  | @token piece kind hkind =>
    obtain ⟨gaps, columns, piece', more', rfl, hgaps, -, hpieces, hallowed, hmore⟩ :=
      Trails.uncons h
    refine ⟨gaps, [piece'], more', _, columns, rfl, hgaps, .token (hpieces.kind.trans hkind), ?_, ?_,
      hmore⟩
    · refine ⟨rfl, hpieces.value, hpieces.start, hpieces.stop, hpieces.line, ?_⟩
      have hcolumn := hpieces.column
      rw [hkind] at hcolumn
      simpa using hcolumn
    · rw [hkind] at hallowed
      exact hallowed
  | @string start stop parts style raw token hstart hparts hstop hliteral =>
    rw [List.cons_append, List.cons_append, List.append_assoc, List.singleton_append] at h
    obtain ⟨gaps, columns, start', rest, rfl, hgaps, -, hpieces, hallowed, hrest⟩ :=
      Trails.uncons h
    obtain ⟨parts', rest', rfl, hparts', hjoined, hrest'⟩ := Trails.split_parts hparts hrest
    obtain ⟨none, columns', stop', more', rfl, -, hnone, hend, -, hmore⟩ := Trails.uncons hrest'
    obtain rfl := hnone (.inr hstop)
    obtain ⟨token', hliteral', htokens⟩ := exists_literal hpieces hstart hend hliteral
    refine ⟨gaps, start' :: parts' ++ [stop'], more', token', columns, by simp, hgaps, ?_, htokens,
      ?_, hmore⟩
    · refine .string (hpieces.kind.trans hstart) hparts' (hend.kind.trans hstop) ?_
      rw [hjoined]
      exact hliteral'
    · rw [Assembly.kind_of_literal hliteral]
      rw [hstart] at hallowed
      exact hallowed

/-- What the pieces of the one scan make has its counterpart in what the pieces of the other
one make. -/
theorem Trails.exists_assembled (h : d.Trails allowed pieces pieces')
    (hassembled : Assembled pieces tokens) :
    ∃ tokens', Assembled pieces' tokens' ∧ List.Forall₂
      (fun token token' => ∃ columns, d.Tokens columns token token' ∧ allowed token.kind columns)
      tokens tokens' := by
  induction hassembled generalizing pieces' with
  | nil =>
    refine ⟨[], ?_, .nil⟩
    have hblanks := assembled_blanks h.eq_blanks .nil
    rwa [List.append_nil] at hblanks
  | drop hmakes hfiltered _ ih =>
    obtain ⟨gaps, first', more', token', columns, rfl, hgaps, hmakes', htoken, hallowed, hmore⟩ :=
      h.exists_makes hmakes
    obtain ⟨tokens', hassembled', htokens⟩ := ih hmore
    refine ⟨tokens', assembled_blanks hgaps (.drop hmakes' ?_ hassembled'), htokens⟩
    rw [htoken.kind]
    exact hfiltered
  | keep hmakes hkept _ ih =>
    obtain ⟨gaps, first', more', token', columns, rfl, hgaps, hmakes', htoken, hallowed, hmore⟩ :=
      h.exists_makes hmakes
    obtain ⟨tokens', hassembled', htokens⟩ := ih hmore
    refine ⟨token' :: tokens', assembled_blanks hgaps (.keep hmakes' ?_ hassembled'),
      .cons ⟨columns, htoken, hallowed⟩ htokens⟩
    rw [htoken.kind]
    exact hkept

end Shift

end BlockLexer
