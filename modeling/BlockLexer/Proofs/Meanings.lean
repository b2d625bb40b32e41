import BlockLexer.Proofs.Collected

/-!
# What tokens mean

Two texts may differ in bytes that nobody asks for.  Their tokens then have the same
meanings: kinds, values, lines and columns.

* `Token.meaning` and `meanings` leave the bytes of a token and the cause of a fault out.
* `Piece.Agrees` are two pieces with the same meaning, except for the column of a line end,
  which no token has.
* `Assembled.exists_of_agrees` says that such pieces make tokens with the same meanings, and
  `Lexer.meanings_of_tokens` says what two lexers need for theirs to have the same meanings.
-/

namespace BlockLexer

/-- What a token means: its kind, its value, its line and its column. -/
def Token.meaning (token : Token) : Kind × Value × Nat × Nat :=
  (token.kind, token.value, token.span.line, token.span.column)

/-- What all tokens mean, if there is no fault. -/
def meanings (outcome : Except Fault (List Token)) : Option (List (Kind × Value × Nat × Nat)) :=
  outcome.toOption.map (List.map Token.meaning)

/-- Two pieces with the same meaning.  The column of a line end is left out of account. -/
structure Piece.Agrees (piece piece' : Piece) : Prop where
  kind : piece'.kind = piece.kind
  value : piece'.value = piece.value
  line : piece'.span.line = piece.span.line
  column : piece.kind ≠ .token .newline → piece'.span.column = piece.span.column

variable {piece piece' start start' stop stop' : Piece} {pieces pieces' first more : List Piece}
  {token : Token} {tokens : List Token}

theorem Piece.Agrees.symm (h : piece.Agrees piece') : piece'.Agrees piece :=
  ⟨h.kind.symm, h.value.symm, h.line.symm, fun hne => (h.column (h.kind ▸ hne)).symm⟩

/-! ## What agreeing pieces make -/

/-- What is related to two lists in a row is two lists in a row. -/
theorem exists_of_forall₂_append {α β : Type} {r : α → β → Prop} {as more : List α} {bs : List β}
    (h : List.Forall₂ r (as ++ more) bs) :
    ∃ first rest, bs = first ++ rest ∧ List.Forall₂ r as first ∧ List.Forall₂ r more rest := by
  refine ⟨bs.take as.length, bs.drop as.length, (List.take_append_drop _ bs).symm, ?_, ?_⟩
  · have htake := List.forall₂_take as.length h
    rwa [List.take_left] at htake
  · have hdrop := List.forall₂_drop as.length h
    rwa [List.drop_left] at hdrop

theorem isPart_of_agrees (h : List.Forall₂ Piece.Agrees pieces pieces')
    (hparts : ∀ part ∈ pieces, part.kind.IsPart) : ∀ part ∈ pieces', part.kind.IsPart := by
  induction h with
  | nil => exact hparts
  | cons hpart _ ih =>
    obtain ⟨hfirst, hmore⟩ := List.forall_mem_cons.1 hparts
    exact List.forall_mem_cons.2 ⟨hpart.kind ▸ hfirst, ih hmore⟩

/-- Agreeing parts of a string are joined to the same text. -/
theorem Assembly.joined_of_agrees (h : List.Forall₂ Piece.Agrees pieces pieces')
    (afterBreak : Bool) : joined afterBreak pieces' = joined afterBreak pieces := by
  induction h generalizing afterBreak with
  | nil => rfl
  | cons hpart _ ih => rw [joined, joined, ih, hpart.kind, chunk, chunk, hpart.kind, hpart.value]

/-- Two strings of the same text between agreeing quotes. -/
theorem Assembly.exists_literal_of_agrees {style : QuoteStyle} {raw : Bool} {text : List Char}
    (hstart : start.Agrees start') (hkind : start.kind = .stringStart style raw)
    (hstop : stop.Agrees stop')
    (hliteral : literal style start stop text = .ok token) :
    ∃ token', literal style start' stop' text = .ok token' ∧ token'.meaning = token.meaning := by
  unfold literal at hliteral ⊢
  rw [hstart.value]
  cases hletter : applyLetter (start.value.chars?.getD []) text with
  | error cause =>
    rw [hletter] at hliteral
    cases hliteral
  | ok value =>
    rw [hletter] at hliteral
    cases hliteral
    refine ⟨_, rfl, ?_⟩
    simp only [Token.meaning, hstart.line, hstop.line, hstart.column (by simp [hkind])]

/-- The first token of some pieces, and the same token of agreeing pieces. -/
theorem Makes.exists_of_agrees (hmakes : Makes first token)
    (h : List.Forall₂ Piece.Agrees first pieces') :
    ∃ token', Makes pieces' token' ∧ token'.kind = token.kind ∧
      (token.kind.isFiltered = false → token'.meaning = token.meaning) := by
  cases hmakes with
  | @token piece kind hkind =>
    obtain ⟨piece', rest, hpiece, hrest, rfl⟩ := List.forall₂_cons_left_iff.1 h
    obtain rfl := List.forall₂_nil_left_iff.1 hrest
    refine ⟨_, .token (hpiece.kind.trans hkind), rfl, fun hkept => ?_⟩
    have hcolumn := hpiece.column fun hnewline => by
      rw [PieceKind.token.inj (hkind.symm.trans hnewline)] at hkept
      cases hkept
    simp only [Token.meaning, hpiece.value, hpiece.line, hcolumn]
  | @string start stop parts style raw token hstart hparts hstop hliteral =>
    obtain ⟨before, last, rfl, hbefore, hlast⟩ := exists_of_forall₂_append h
    obtain ⟨start', parts', hfirst, hinner, rfl⟩ := List.forall₂_cons_left_iff.1 hbefore
    obtain ⟨stop', rest, hclosing, hrest, rfl⟩ := List.forall₂_cons_left_iff.1 hlast
    obtain rfl := List.forall₂_nil_left_iff.1 hrest
    obtain ⟨token', hliteral', hmeaning⟩ :=
      Assembly.exists_literal_of_agrees hfirst hstart hclosing hliteral
    refine ⟨token', .string (hfirst.kind.trans hstart) (isPart_of_agrees hinner hparts)
      (hclosing.kind.trans hstop) ?_, congrArg Prod.fst hmeaning, fun _ => hmeaning⟩
    rw [Assembly.joined_of_agrees hinner]
    exact hliteral'

/-- Agreeing pieces make tokens with the same meanings. -/
theorem Assembled.exists_of_agrees (hassembled : Assembled pieces tokens)
    (h : List.Forall₂ Piece.Agrees pieces pieces') :
    ∃ tokens', Assembled pieces' tokens' ∧ tokens'.map Token.meaning = tokens.map Token.meaning := by
  induction hassembled generalizing pieces' with
  | nil =>
    obtain rfl := List.forall₂_nil_left_iff.1 h
    exact ⟨[], .nil, rfl⟩
  | drop hmakes hfiltered _ ih =>
    obtain ⟨first', more', rfl, hfirst, hmore⟩ := exists_of_forall₂_append h
    obtain ⟨token', hmakes', hkind, -⟩ := hmakes.exists_of_agrees hfirst
    obtain ⟨tokens', hassembled', hmeanings⟩ := ih hmore
    exact ⟨tokens', .drop hmakes' (hkind ▸ hfiltered) hassembled', hmeanings⟩
  | keep hmakes hkept _ ih =>
    obtain ⟨first', more', rfl, hfirst, hmore⟩ := exists_of_forall₂_append h
    obtain ⟨token', hmakes', hkind, hmeaning⟩ := hmakes.exists_of_agrees hfirst
    obtain ⟨tokens', hassembled', hmeanings⟩ := ih hmore
    refine ⟨token' :: tokens', .keep hmakes' (hkind ▸ hkept) hassembled', ?_⟩
    rw [List.map_cons, List.map_cons, hmeaning hkept, hmeanings]

/-! ## Lexers -/

/-- The kinds are a part of the meanings. -/
theorem map_kind_of_map_meaning {tokens' : List Token}
    (h : tokens'.map Token.meaning = tokens.map Token.meaning) :
    tokens'.map Token.kind = tokens.map Token.kind := by
  have hkinds := congrArg (List.map Prod.fst) h
  rwa [List.map_map, List.map_map] at hkinds

namespace Lexer

variable {source source' : Source}

/-- Where the tokens of either text are there for the other, with the same meanings, there is a
fault in both texts or in none. -/
theorem meanings_of_tokens
    (h : ∀ tokens, Lexer.tokens source = .ok tokens →
      ∃ tokens', Lexer.tokens source' = .ok tokens' ∧
        tokens'.map Token.meaning = tokens.map Token.meaning)
    (h' : ∀ tokens, Lexer.tokens source' = .ok tokens →
      ∃ tokens', Lexer.tokens source = .ok tokens' ∧
        tokens'.map Token.meaning = tokens.map Token.meaning) :
    meanings (Lexer.tokens source') = meanings (Lexer.tokens source) := by
  cases htokens : Lexer.tokens source with
  | ok tokens =>
    obtain ⟨tokens', htokens', hmeanings⟩ := h tokens htokens
    rw [htokens']
    exact congrArg some hmeanings
  | error fault =>
    cases htokens' : Lexer.tokens source' with
    | error fault' => rfl
    | ok tokens' =>
      obtain ⟨tokens, hok, -⟩ := h' tokens' htokens'
      cases hok.symm.trans htokens

end Lexer

end BlockLexer
