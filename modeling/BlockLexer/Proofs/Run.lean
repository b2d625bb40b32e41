import BlockLexer.Proofs.Pulls
import Mathlib.Data.List.Chain

/-!
# Runs of a scan

A lexer pulls its scan through two more stages, and one of them writes to the open
blocks of the scan.  This module takes the three stages apart.

* `Scan.Run` is the way of a scan from one state to another under a lexer, rule
  match by rule match, with the pieces that it yields.  `Scan.Settles` is what the
  later stages do to the scan behind each piece.
* `Delivered` says which tokens come out for some pieces, and `Assembled` says it with
  what the strings are made of.
* `Lexer.assembled_of_yields` and `Lexer.assembled_of_tokens` find the run behind pulls
  that succeed.
-/

namespace BlockLexer

namespace Scan

variable {table : LineTable}

/-! ## Runs -/

/-- What the later stages do to a scan that has just yielded a piece.  The name of an
attribute is a member of its block, the end of a string is reported, and any other
piece leaves the scan alone. -/
inductive Settles (table : LineTable) (piece : Piece) (s : Scan) : Scan → Prop
  | member {blocks : BlockStack} (hkind : piece.kind = .token .attributeName)
      (hcheck : s.blocks.checkMember (table.indentOf piece.span.line) = .ok blocks) :
      Settles table piece s { s with blocks }
  | string (event : Event) (hkind : piece.kind = .stringEnd) :
      Settles table piece s (s.report event)
  | other (hattribute : piece.kind ≠ .token .attributeName) (hstring : piece.kind ≠ .stringEnd) :
      Settles table piece s s

/-- The later stages change neither the modes nor the last token, and end no scan. -/
theorem Settles.same {piece : Piece} {s t : Scan} (h : Settles table piece s t) :
    t.modes = s.modes ∧ t.last = s.last ∧ t.isDone = s.isDone := by
  cases h <;> exact ⟨rfl, rfl, rfl⟩

/-- The name of an attribute is checked as a member of its block. -/
theorem Settles.checkMember {piece : Piece} {s t : Scan} (h : Settles table piece s t)
    (hkind : piece.kind = .token .attributeName) :
    s.blocks.checkMember (table.indentOf piece.span.line) = .ok t.blocks := by
  cases h with
  | member _ hcheck => exact hcheck
  | string _ hstring => simp [hkind] at hstring
  | other hattribute _ => exact absurd hkind hattribute

/-- Behind most pieces nothing is done. -/
theorem Settles.eq_of_other {piece : Piece} {s t : Scan} (h : Settles table piece s t)
    (hattribute : piece.kind ≠ .token .attributeName) (hstring : piece.kind ≠ .stringEnd) :
    t = s := by
  cases h with
  | member hkind => exact absurd hkind hattribute
  | string _ hkind => exact absurd hkind hstring
  | other => rfl

/-- No other piece touches the blocks. -/
theorem Settles.blocks_eq {piece : Piece} {s t : Scan} (h : Settles table piece s t)
    (hkind : piece.kind ≠ .token .attributeName) : t.blocks = s.blocks := by
  cases h with
  | member hattribute _ => exact absurd hattribute hkind
  | string _ _ | other _ _ => rfl

/-- The way of a scan from one state to another without a fault, and the pieces that
it yields.  Every move is the match of one rule, or the end of the text. -/
inductive Run (table : LineTable) : Scan → List Piece → Scan → Prop
  | refl (s : Scan) : Run table s [] s
  | quiet {s t u : Scan} {pieces : List Piece} (hs : s.isDone = false)
      (hstep : s.step table = (t, none)) (hrest : Run table t pieces u) : Run table s pieces u
  | piece {s t t' u : Scan} {piece : Piece} {pieces : List Piece} (hs : s.isDone = false)
      (hstep : s.step table = (t, some (.ok piece))) (hsettles : Settles table piece t t')
      (hrest : Run table t' pieces u) : Run table s (piece :: pieces) u

theorem Run.trans {s t u : Scan} {pieces more : List Piece} (h : Run table s pieces t)
    (h' : Run table t more u) : Run table s (pieces ++ more) u := by
  induction h with
  | refl s => exact h'
  | quiet hs hstep _ ih => exact .quiet hs hstep (ih h')
  | piece hs hstep hsettles _ ih => exact .piece hs hstep hsettles (ih h')

/-- A run that ends with one more piece. -/
theorem Run.snoc {s t t' u : Scan} {pieces : List Piece} {piece : Piece}
    (h : Run table s pieces t) (ht : t.isDone = false)
    (hstep : t.step table = (t', some (.ok piece))) (hsettles : Settles table piece t' u) :
    Run table s (pieces ++ [piece]) u :=
  h.trans (.piece ht hstep hsettles (.refl u))

/-- A scan that has come to its end does not run on. -/
theorem Run.eq_of_isDone {s t : Scan} {pieces : List Piece} (h : Run table s pieces t)
    (hs : s.isDone = true) : pieces = [] ∧ t = s := by
  cases h with
  | refl => exact ⟨rfl, rfl⟩
  | quiet hs' => simp [hs] at hs'
  | piece hs' => simp [hs] at hs'

/-- Before a pull yields a piece, the scan runs without one. -/
theorem run_of_next {s t : Scan} {item : Except Fault Piece}
    (h : s.next table = (t, some item)) :
    ∃ m, Run table s [] m ∧ m.isDone = false ∧ m.step table = (t, some item) := by
  fun_induction next table s with
  | case1 => simp at h
  | case2 s hdone t' item' hstep =>
    simp only [Prod.mk.injEq, Option.some.injEq] at h
    obtain ⟨rfl, rfl⟩ := h
    exact ⟨s, .refl s, by simpa using hdone, hstep⟩
  | case3 s hdone t' hstep ih =>
    obtain ⟨m, hrun, hm, hlast⟩ := ih h
    exact ⟨m, .quiet (by simpa using hdone) hstep hrun, hm, hlast⟩

/-- A pull that yields nothing runs to the end. -/
theorem run_of_next_none {s t : Scan} (h : s.next table = (t, none)) :
    Run table s [] t ∧ t.isDone = true := by
  fun_induction next table s with
  | case1 s hdone =>
    simp only [Prod.mk.injEq, and_true] at h
    exact h ▸ ⟨.refl s, hdone⟩
  | case2 => simp at h
  | case3 s hdone t' hstep ih =>
    obtain ⟨hrun, ht⟩ := ih h
    exact ⟨.quiet (by simpa using hdone) hstep hrun, ht⟩

end Scan

/-! ## Pieces and tokens -/

/-- The token that comes out when a piece is complete: the piece itself, or the string
that ends with it. -/
inductive Stands : Piece → Token → Prop
  | token {piece : Piece} {token : Token} (hkind : piece.kind = .token token.kind)
      (hvalue : token.value = piece.value) (hspan : token.span = piece.span) : Stands piece token
  | string {piece : Piece} {token : Token} (hpiece : piece.kind = .stringEnd)
      (htoken : token.kind = .string) : Stands piece token

/-- The tokens that come out of the last stage for some pieces. -/
inductive Delivered : List Piece → List Token → Prop
  | nil : Delivered [] []
  | drop {piece : Piece} {pieces : List Piece} {tokens : List Token}
      (hpiece : Scan.notedKind? piece.kind = none) (more : Delivered pieces tokens) :
      Delivered (piece :: pieces) tokens
  | keep {piece : Piece} {pieces : List Piece} {token : Token} {tokens : List Token}
      (hstands : Stands piece token) (hkept : token.kind.isFiltered = false)
      (more : Delivered pieces tokens) : Delivered (piece :: pieces) (token :: tokens)

theorem Stands.notedKind? {piece : Piece} {token : Token} (h : Stands piece token)
    (hkept : token.kind.isFiltered = false) : Scan.notedKind? piece.kind = some token.kind := by
  cases h with
  | token hkind => simp [Scan.notedKind?, hkind, hkept]
  | string hpiece htoken => simp [Scan.notedKind?, hpiece, htoken]

/-- A piece with the kind of a token stands for just this token. -/
theorem Stands.eq_of_kind {piece : Piece} {token : Token} {kind : Kind} (h : Stands piece token)
    (hkind : piece.kind = .token kind) :
    token = { kind, value := piece.value, span := piece.span } := by
  cases h with
  | token htoken hvalue hspan =>
    rw [hkind] at htoken
    rw [PieceKind.token.inj htoken, ← hvalue, ← hspan]
  | string hstring => simp [hkind] at hstring

theorem Delivered.append {pieces pieces' : List Piece} {tokens tokens' : List Token}
    (h : Delivered pieces tokens) (h' : Delivered pieces' tokens') :
    Delivered (pieces ++ pieces') (tokens ++ tokens') := by
  induction h with
  | nil => exact h'
  | drop hpiece _ ih => exact .drop hpiece ih
  | keep hstands hkept _ ih => exact .keep hstands hkept ih

/-- The kinds of the tokens that some pieces count as. -/
def emitted (pieces : List Piece) : List Kind :=
  pieces.filterMap fun piece => Scan.notedKind? piece.kind

@[simp] theorem emitted_nil : emitted [] = [] := rfl

theorem emitted_cons (piece : Piece) (pieces : List Piece) :
    emitted (piece :: pieces) = (Scan.notedKind? piece.kind).toList ++ emitted pieces := by
  unfold emitted
  rw [List.filterMap_cons]
  cases Scan.notedKind? piece.kind <;> rfl

@[simp] theorem emitted_append (pieces more : List Piece) :
    emitted (pieces ++ more) = emitted pieces ++ emitted more :=
  List.filterMap_append

theorem emitted_singleton_none {piece : Piece} (h : Scan.notedKind? piece.kind = none) :
    emitted [piece] = [] := by
  rw [emitted_cons, h]
  rfl

theorem emitted_singleton {piece : Piece} {kind : Kind} (hkind : piece.kind = .token kind)
    (hkept : kind.isFiltered = false) : emitted [piece] = [kind] := by
  rw [emitted_cons, hkind, Scan.notedKind?, hkept]
  rfl

theorem emitted_singleton_stringEnd {piece : Piece} (hkind : piece.kind = .stringEnd) :
    emitted [piece] = [.string] := by
  rw [emitted_cons, hkind]
  rfl

theorem emitted_singleton_filtered {piece : Piece} {kind : Kind} (hkind : piece.kind = .token kind)
    (hfiltered : kind.isFiltered = true) : emitted [piece] = [] :=
  emitted_singleton_none (by rw [hkind, Scan.notedKind?, hfiltered]; rfl)

/-- The tokens have the kinds that their pieces count as. -/
theorem Delivered.map_kind {pieces : List Piece} {tokens : List Token}
    (h : Delivered pieces tokens) : tokens.map Token.kind = emitted pieces := by
  induction h with
  | nil => rfl
  | drop hpiece _ ih => rw [emitted_cons, hpiece, ih, Option.toList_none, List.nil_append]
  | keep hstands hkept _ ih =>
    rw [emitted_cons, hstands.notedKind? hkept, List.map_cons, ih]
    rfl

/-- The tokens of the first piece come first. -/
theorem Delivered.uncons {piece : Piece} {pieces : List Piece} {tokens : List Token}
    (h : Delivered (piece :: pieces) tokens) :
    ∃ first rest, tokens = first ++ rest ∧ Delivered [piece] first ∧ Delivered pieces rest := by
  cases h with
  | drop hpiece more => exact ⟨[], tokens, rfl, .drop hpiece .nil, more⟩
  | keep hstands hkept more => exact ⟨[_], _, rfl, .keep hstands hkept .nil, more⟩

/-- A piece with the kind of a token that is kept stands for one token. -/
theorem Delivered.exists_of_kind {piece : Piece} {tokens : List Token} {kind : Kind}
    (h : Delivered [piece] tokens) (hkind : piece.kind = .token kind)
    (hkept : kind.isFiltered = false) :
    ∃ token, tokens = [token] ∧ token.kind = kind ∧ token.span = piece.span := by
  cases h with
  | drop hpiece => simp [hkind, Scan.notedKind?, hkept] at hpiece
  | keep hstands _ more =>
    cases more
    obtain rfl := hstands.eq_of_kind hkind
    exact ⟨_, rfl, rfl, rfl⟩

/-- Pieces that count for nothing leave no token. -/
theorem Delivered.of_unnoted {pieces : List Piece}
    (h : ∀ piece ∈ pieces, Scan.notedKind? piece.kind = none) : Delivered pieces [] := by
  induction pieces with
  | nil => exact .nil
  | cons piece pieces ih =>
    exact .drop (h piece List.mem_cons_self) (ih fun p hp => h p (List.mem_cons_of_mem piece hp))

/-! ## Strings and their parts -/

/-- What a string is made of between its quotes. -/
def PieceKind.IsPart : PieceKind → Prop
  | .stringText | .stringEscape | .stringLineBreak => True
  | .token _ | .stringStart _ _ | .stringEnd => False

/-- Whether a piece counts for nothing and opens nothing: gaps and the parts of a string. -/
def PieceKind.isQuiet : PieceKind → Bool
  | .token kind => kind.isFiltered
  | .stringText | .stringEscape | .stringLineBreak => true
  | .stringStart _ _ | .stringEnd => false

theorem PieceKind.notedKind?_of_isQuiet {kind : PieceKind} (h : kind.isQuiet = true) :
    Scan.notedKind? kind = none := by
  cases kind with
  | token kind => exact if_pos h
  | stringText | stringEscape | stringLineBreak => rfl
  | stringStart | stringEnd => cases h

theorem PieceKind.IsPart.isQuiet {kind : PieceKind} (h : kind.IsPart) : kind.isQuiet = true := by
  cases kind with
  | stringText | stringEscape | stringLineBreak => rfl
  | token | stringStart | stringEnd => cases h

theorem PieceKind.IsPart.ne_token {kind : PieceKind} (h : kind.IsPart) (other : Kind) :
    kind ≠ .token other := by
  rintro rfl
  cases h

theorem PieceKind.IsPart.ne_stringEnd {kind : PieceKind} (h : kind.IsPart) : kind ≠ .stringEnd := by
  rintro rfl
  cases h

theorem PieceKind.IsPart.notedKind? {kind : PieceKind} (h : kind.IsPart) :
    Scan.notedKind? kind = none :=
  notedKind?_of_isQuiet h.isQuiet

namespace Assembly

/-- The text of the parts of a string.  `afterBreak` holds if the part before was a
backslash at the end of a line. -/
def joined (afterBreak : Bool) : List Piece → List Char
  | [] => []
  | part :: parts => chunk afterBreak part ++ joined (part.kind = .stringLineBreak) parts

theorem kind_of_literal {style : QuoteStyle} {start stop : Piece} {text : List Char}
    {token : Token} (h : literal style start stop text = .ok token) : token.kind = .string := by
  unfold literal at h
  split at h
  · cases h
  · obtain rfl := Except.ok.inj h
    rfl

end Assembly

/-- The pieces that one token is made of: a piece of its own, or a whole string. -/
inductive Makes : List Piece → Token → Prop
  | token {piece : Piece} {kind : Kind} (hkind : piece.kind = .token kind) :
      Makes [piece] { kind, value := piece.value, span := piece.span }
  | string {start stop : Piece} {parts : List Piece} {style : QuoteStyle} {raw : Bool}
      {token : Token} (hstart : start.kind = .stringStart style raw)
      (hparts : ∀ part ∈ parts, part.kind.IsPart) (hstop : stop.kind = .stringEnd)
      (hliteral : Assembly.literal style start stop (Assembly.joined false parts) = .ok token) :
      Makes (start :: parts ++ [stop]) token

/-- The tokens that some pieces make, less those that are dropped. -/
inductive Assembled : List Piece → List Token → Prop
  | nil : Assembled [] []
  | drop {pieces more : List Piece} {token : Token} {tokens : List Token}
      (hmakes : Makes pieces token) (hfiltered : token.kind.isFiltered = true)
      (hmore : Assembled more tokens) : Assembled (pieces ++ more) tokens
  | keep {pieces more : List Piece} {token : Token} {tokens : List Token}
      (hmakes : Makes pieces token) (hkept : token.kind.isFiltered = false)
      (hmore : Assembled more tokens) : Assembled (pieces ++ more) (token :: tokens)

theorem Assembled.append {pieces pieces' : List Piece} {tokens tokens' : List Token}
    (h : Assembled pieces tokens) (h' : Assembled pieces' tokens') :
    Assembled (pieces ++ pieces') (tokens ++ tokens') := by
  induction h with
  | nil => exact h'
  | drop hmakes hfiltered _ ih =>
    rw [List.append_assoc]
    exact .drop hmakes hfiltered ih
  | keep hmakes hkept _ ih =>
    rw [List.append_assoc]
    exact .keep hmakes hkept ih

/-- None of the tokens is of a kind that is dropped. -/
theorem Assembled.isFiltered_eq_false {pieces : List Piece} {tokens : List Token}
    (h : Assembled pieces tokens) : ∀ token ∈ tokens, token.kind.isFiltered = false := by
  induction h with
  | nil => simp
  | drop _ _ _ ih => exact ih
  | keep _ hkept _ ih => exact List.forall_mem_cons.2 ⟨hkept, ih⟩

/-- A token is made of pieces that stand in a row. -/
theorem Assembled.exists_makes {pieces : List Piece} {tokens : List Token} {token : Token}
    (h : Assembled pieces tokens) (htoken : token ∈ tokens) :
    ∃ before made after, pieces = before ++ (made ++ after) ∧ Makes made token := by
  induction h with
  | nil => cases htoken
  | @drop made more _ _ _ _ _ ih =>
    obtain ⟨before, made', after, rfl, hmakes⟩ := ih htoken
    exact ⟨made ++ before, made', after, (List.append_assoc _ _ _).symm, hmakes⟩
  | @keep made more _ _ hmakes _ _ ih =>
    rcases List.mem_cons.1 htoken with rfl | htoken
    · exact ⟨[], made, more, rfl, hmakes⟩
    · obtain ⟨before, made', after, rfl, hmakes'⟩ := ih htoken
      exact ⟨made ++ before, made', after, (List.append_assoc _ _ _).symm, hmakes'⟩

theorem Makes.ne_nil {pieces : List Piece} {token : Token} (h : Makes pieces token) :
    pieces ≠ [] := by
  cases h <;> simp

theorem Makes.dropped {pieces : List Piece} {token : Token} (h : Makes pieces token)
    (hfiltered : token.kind.isFiltered = true) : Assembled pieces [] := by
  rw [← List.append_nil pieces]
  exact .drop h hfiltered .nil

theorem Makes.kept {pieces : List Piece} {token : Token} (h : Makes pieces token)
    (hkept : token.kind.isFiltered = false) : Assembled pieces [token] := by
  rw [← List.append_nil pieces]
  exact .keep h hkept .nil

/-- A dropped token is a single piece that counts for nothing. -/
theorem Makes.delivered_of_isFiltered {pieces : List Piece} {token : Token} (h : Makes pieces token)
    (hfiltered : token.kind.isFiltered = true) : Delivered pieces [] := by
  cases h with
  | token hkind =>
    refine .drop ?_ .nil
    rw [hkind, Scan.notedKind?, if_pos hfiltered]
  | string _ _ _ hliteral =>
    rw [Assembly.kind_of_literal hliteral] at hfiltered
    cases hfiltered

theorem Makes.delivered_of_kept {pieces : List Piece} {token : Token} (h : Makes pieces token)
    (hkept : token.kind.isFiltered = false) : Delivered pieces [token] := by
  cases h with
  | token hkind => exact .keep (.token hkind rfl rfl) hkept .nil
  | @string start stop parts _ _ _ hstart hparts hstop hliteral =>
    have hquiet : Delivered (start :: parts) [] := by
      refine .of_unnoted (List.forall_mem_cons.2 ⟨?_, fun part hpart => (hparts part hpart).notedKind?⟩)
      rw [hstart]
      rfl
    exact hquiet.append (.keep (.string hstop (Assembly.kind_of_literal hliteral)) hkept .nil)

theorem Assembled.delivered {pieces : List Piece} {tokens : List Token}
    (h : Assembled pieces tokens) : Delivered pieces tokens := by
  induction h with
  | nil => exact .nil
  | drop hmakes hfiltered _ ih => exact (hmakes.delivered_of_isFiltered hfiltered).append ih
  | keep hmakes hkept _ ih => exact (hmakes.delivered_of_kept hkept).append ih

/-! ## From pulls to runs -/

namespace Assembly

variable {table : LineTable}

open Scan (Run Settles)

/-- The parts of a string that is complete: a run over them, and its closing quotes. -/
theorem run_of_parts {start stop : Piece} {afterBreak : Bool} {s t : Scan} {text : List Char}
    (h : parts table start afterBreak s = (t, .ok (text, stop))) :
    ∃ pieces m, Run table s pieces m ∧ (∀ piece ∈ pieces, piece.kind.IsPart) ∧
      text = joined afterBreak pieces ∧ m.isDone = false ∧
      m.step table = (t, some (.ok stop)) ∧ stop.kind = .stringEnd := by
  fun_induction parts table start afterBreak s generalizing text with
  | case1 | case2 | case7 | case8 => simp at h
  | case3 afterBreak s s' piece hpull hkind last rest hrec ih
  | case4 afterBreak s s' piece hpull hkind last rest hrec ih
  | case5 afterBreak s s' piece hpull hkind last rest hrec ih =>
    obtain ⟨rfl, hrest⟩ := Prod.mk.inj h
    obtain ⟨⟨text', stop'⟩, hok, hout⟩ := exists_of_map_eq_ok hrest
    obtain ⟨rfl, rfl⟩ := Prod.mk.inj hout
    obtain ⟨pieces, m, hrun, hpieces, htext, hm, hlast, hstop⟩ := ih (by rw [hrec, hok])
    obtain ⟨m', hrun', hm', hstep⟩ := Scan.run_of_next hpull
    have hsettles : Settles table piece s' s' := .other (by simp [hkind]) (by simp [hkind])
    have hpart : piece.kind.IsPart := by
      rw [hkind]
      trivial
    refine ⟨piece :: pieces, m, hrun'.trans (.piece hm' hstep hsettles hrun),
      List.forall_mem_cons.2 ⟨hpart, hpieces⟩, ?_, hm, hlast, hstop⟩
    rw [joined, htext]
  | case6 afterBreak s s' piece hpull hkind =>
    simp only [Prod.mk.injEq, Except.ok.injEq] at h
    obtain ⟨rfl, rfl, rfl⟩ := h
    obtain ⟨m, hrun, hm, hstep⟩ := Scan.run_of_next hpull
    exact ⟨[], m, hrun, by simp, rfl, hm, hstep, hkind⟩

/-- A pull of a token: a run over the pieces that make it, up to the one that completes it. -/
theorem run_of_next {a a' : Assembly} {token : Token}
    (h : a.next table = (a', some (.ok token))) :
    ∃ pieces m piece t, Run table a.scan pieces m ∧ Makes (pieces ++ [piece]) token ∧
      m.isDone = false ∧ m.step table = (t, some (.ok piece)) ∧ Stands piece token ∧
      (piece.kind ≠ .stringEnd → a'.scan = t) ∧
      (piece.kind = .stringEnd → ∃ event, a'.scan = t.report event) ∧ a'.isDone = a.isDone := by
  unfold next at h
  split at h
  · simp at h
  split at h
  · simp at h
  · simp at h
  next s first hpull =>
  obtain ⟨m, hrun, hm, hstep⟩ := Scan.run_of_next hpull
  unfold tokenOf at h
  cases hfirst : first.kind with
  | token kind =>
    simp only [hfirst, Prod.mk.injEq, Option.some.injEq, Except.ok.injEq] at h
    obtain ⟨rfl, rfl⟩ := h
    exact ⟨[], m, first, s, hrun, .token hfirst, hm, hstep, .token hfirst rfl rfl, fun _ => rfl,
      by simp [hfirst], rfl⟩
  | stringStart style raw =>
    simp only [hfirst] at h
    cases hparts : parts table first false s with
    | mk t outcome =>
      rw [hparts] at h
      match outcome with
      | .error fault => simp at h
      | .ok (text, stop) =>
        obtain ⟨pieces, m', hrun', hpieces, rfl, hm', hlast, hstop⟩ := run_of_parts hparts
        dsimp only at h
        cases hliteral : literal style first stop (joined false pieces) with
        | error fault => simp [hliteral] at h
        | ok whole =>
          simp only [hliteral, Prod.mk.injEq, Option.some.injEq, Except.ok.injEq] at h
          obtain ⟨rfl, rfl⟩ := h
          have hsettles : Settles table first s s := .other (by simp [hfirst]) (by simp [hfirst])
          exact ⟨first :: pieces, m', stop, t, hrun.trans (.piece hm hstep hsettles hrun'),
            .string hfirst hpieces hstop hliteral, hm', hlast,
            .string hstop (kind_of_literal hliteral), fun hne => absurd hstop hne,
            fun _ => ⟨_, rfl⟩, rfl⟩
  | stringText | stringEscape | stringLineBreak | stringEnd => simp [hfirst] at h

/-- A pull of nothing runs to the end of the scan. -/
theorem run_of_next_none {a a' : Assembly} (ha : a.isDone = false)
    (h : a.next table = (a', none)) : Run table a.scan [] a'.scan ∧ a'.scan.isDone = true := by
  unfold next at h
  rw [if_neg (by simp [ha])] at h
  split at h
  · next s hpull =>
    simp only [Prod.mk.injEq, and_true] at h
    exact h ▸ Scan.run_of_next_none hpull
  · simp at h
  · split at h <;> simp at h

end Assembly

/-- A kind that is dropped is none of those that are kept. -/
theorem Kind.ne_of_isFiltered {kind other : Kind} (h : kind.isFiltered = true)
    (hother : other.isFiltered = false) : kind ≠ other := by
  rintro rfl
  simp [h] at hother

/-- Two kinds of which one may follow the other directly. -/
def Kind.Agree (previous next : Kind) : Prop :=
  previous.clash? next = none

namespace Stream

variable {table : LineTable}

open Scan (Run Settles)

/-- Neither the stream nor its assembly has come to a fault. -/
structure IsSound (s : Stream) : Prop where
  stream : s.isDone = false
  assembly : s.assembly.isDone = false

/-- What a check that succeeds has found out. -/
theorem check_eq_ok {previous : Option Kind} {blocks blocks' : BlockStack} {token : Token}
    (h : check table previous blocks token = .ok blocks') :
    (∀ kind ∈ previous, kind.Agree token.kind) ∧
      (token.kind = .attributeName →
        blocks.checkMember (table.indentOf token.span.line) = .ok blocks') ∧
      (token.kind ≠ .attributeName → blocks' = blocks) := by
  unfold check at h
  split at h
  · simp at h
  next hclash =>
  refine ⟨?_, ?_⟩
  · rintro kind rfl
    simpa [Kind.Agree] using hclash
  · split at h
    · next hkind =>
      split at h
      · next hcheck => exact ⟨fun _ => Except.ok.inj h ▸ hcheck, fun hne => absurd hkind hne⟩
      · simp at h
    · next hkind => exact ⟨fun he => absurd he hkind, fun _ => (Except.ok.inj h).symm⟩

/-- A token that the stream drops is a run whose pieces are dropped. -/
theorem run_of_filtered {s : Stream} {assembly : Assembly} {token : Token} (hs : s.IsSound)
    (hpull : s.assembly.next table = (assembly, some (.ok token)))
    (hfiltered : token.kind.isFiltered = true) :
    ∃ pieces, Run table s.assembly.scan pieces assembly.scan ∧ Assembled pieces [] ∧
      assembly.isDone = false := by
  obtain ⟨pieces, m, piece, t, hrun, hmakes, hm, hstep, hstands, hscan, -, hsame⟩ :=
    Assembly.run_of_next hpull
  -- Only a piece of its own is filtered: a string is not.
  have hpiece : piece.kind = .token token.kind := by
    cases hstands with
    | token hkind => exact hkind
    | string _ hstring => simp [hstring, Kind.isFiltered, Kind.category] at hfiltered
  have hattribute : piece.kind ≠ .token .attributeName := by
    rw [hpiece]
    exact fun he => Kind.ne_of_isFiltered hfiltered rfl (PieceKind.token.inj he)
  have hstring : piece.kind ≠ .stringEnd := by simp [hpiece]
  refine ⟨pieces ++ [piece], ?_, hmakes.dropped hfiltered, hsame.trans hs.assembly⟩
  exact hrun.snoc hm hstep (hscan hstring ▸ .other hattribute hstring)

/-- A pull of a token is a run whose pieces make just this token. -/
theorem run_of_next {s s' : Stream} {token : Token} (hs : s.IsSound)
    (h : s.next table = (s', some (.ok token))) :
    ∃ pieces, Run table s.assembly.scan pieces s'.assembly.scan ∧ Assembled pieces [token] ∧
      s'.IsSound ∧ s'.previous = some token.kind ∧ ∀ kind ∈ s.previous, kind.Agree token.kind := by
  fun_induction next table s with
  | case1 | case2 | case3 | case5 => simp at h
  | case4 s hdone assembly dropped hpull hfiltered ih =>
    obtain ⟨before, hrun, hbefore, hsame⟩ := run_of_filtered hs hpull hfiltered
    obtain ⟨pieces, hrun', hpieces, hrest⟩ := ih ⟨hs.stream, hsame⟩ h
    exact ⟨before ++ pieces, hrun.trans hrun', hbefore.append hpieces, hrest⟩
  | case6 s hdone assembly token' hpull hkept blocks hcheck scan =>
    simp only [Prod.mk.injEq, Option.some.injEq, Except.ok.injEq] at h
    obtain ⟨rfl, rfl⟩ := h
    obtain ⟨pieces, m, piece, t, hrun, hmakes, hm, hstep, hstands, hscan, hevent, hsame⟩ :=
      Assembly.run_of_next hpull
    obtain ⟨hagree, hmember, hother⟩ := check_eq_ok hcheck
    have hassembled := hmakes.kept (by simpa using hkept)
    refine ⟨pieces ++ [piece], ?_, hassembled, ⟨hs.stream, hsame.trans hs.assembly⟩, rfl, hagree⟩
    refine hrun.snoc hm hstep ?_
    change Settles table piece t { assembly.scan with blocks }
    cases hstands with
    | token hkind _ hspan =>
      have hstring : piece.kind ≠ .stringEnd := by simp [hkind]
      rw [hscan hstring] at hmember hother ⊢
      by_cases hname : token'.kind = .attributeName
      · exact .member (hkind.trans (congrArg _ hname)) (hspan ▸ hmember hname)
      · rw [hother hname]
        exact .other (by simpa [hkind] using hname) hstring
    | string hpiece hstring =>
      obtain ⟨event, hreport⟩ := hevent hpiece
      rw [hother (by simp [hstring]), hreport]
      exact .string event hpiece

/-- Pulls of tokens are a run whose pieces make them, and neighbours agree. -/
theorem run_of_yields {s s' : Stream} {tokens : List Token} (hs : s.IsSound)
    (h : (stage table).Yields s tokens s') :
    ∃ pieces, Run table s.assembly.scan pieces s'.assembly.scan ∧ Assembled pieces tokens ∧
      s'.IsSound ∧ (s.previous.toList ++ tokens.map Token.kind).IsChain Kind.Agree := by
  induction h with
  | none s => exact ⟨[], .refl _, .nil, hs, by cases s.previous <;> simp⟩
  | pull first _ ih =>
    obtain ⟨pieces, hrun, hdelivered, hsound, hprevious, hagree⟩ := run_of_next hs first
    obtain ⟨more, hrun', hdelivered', hsound', hchain⟩ := ih hsound
    refine ⟨pieces ++ more, hrun.trans hrun', hdelivered.append hdelivered', hsound', ?_⟩
    rw [hprevious] at hchain
    rw [List.map_cons]
    generalize hkind : Stream.previous _ = previous at hagree ⊢
    cases previous with
    | none => exact hchain
    | some kind => exact List.isChain_cons_cons.2 ⟨hagree kind rfl, hchain⟩

/-- A pull of nothing runs to the end of the scan, past blanks and line ends. -/
theorem run_of_next_none {s s' : Stream} (hs : s.IsSound) (h : s.next table = (s', none)) :
    ∃ pieces t, Run table s.assembly.scan pieces t ∧ Assembled pieces [] ∧ t.isDone = true := by
  fun_induction next table s with
  | case1 s hdone => exact absurd hdone (by simp [hs.stream])
  | case2 s hdone assembly hpull =>
    obtain ⟨hrun, ht⟩ := Assembly.run_of_next_none hs.assembly hpull
    exact ⟨[], assembly.scan, hrun, .nil, ht⟩
  | case3 | case5 | case6 => simp at h
  | case4 s hdone assembly dropped hpull hfiltered ih =>
    obtain ⟨before, hrun, hbefore, hsame⟩ := run_of_filtered hs hpull hfiltered
    obtain ⟨pieces, t, hrun', hpieces, ht⟩ := ih ⟨hs.stream, hsame⟩ h
    exact ⟨before ++ pieces, t, hrun.trans hrun', hbefore.append hpieces, ht⟩

/-- One pull of the stream, by one pull of its assembly. -/
theorem next_eq (s : Stream) (hs : s.isDone = false) :
    s.next table =
      match s.assembly.next table with
      | (assembly, none) => ({ s with assembly }, none)
      | (assembly, some (.error fault)) =>
        ({ s with assembly, isDone := true }, some (.error fault))
      | (assembly, some (.ok token)) =>
        if token.kind.isFiltered then ({ s with assembly } : Stream).next table
        else
          match check table s.previous assembly.scan.blocks token with
          | .error fault => ({ s with assembly, isDone := true }, some (.error fault))
          | .ok blocks =>
            ({ s with
                assembly := { assembly with scan := { assembly.scan with blocks } }
                previous := some token.kind },
              some (.ok token)) := by
  rw [next, if_neg (by simp [hs])]
  split
  · next hpull => rw [hpull]
  · next hpull => rw [hpull]
  · next hpull =>
    rewrite [hpull]
    rfl

end Stream

/-! ## Lexers -/

namespace Lexer

open Scan (Run)

/-- The scan that a lexer pulls from. -/
def scan (lexer : Lexer) : Scan :=
  lexer.stream.assembly.scan

/-- A pull of a lexer that yields a token is a pull of its stream. -/
theorem next_eq_ok_iff {lexer lexer' : Lexer} {token : Token} :
    lexer.next = (lexer', some (.ok token)) ↔
      lexer'.source = lexer.source ∧
        lexer.stream.next lexer.source.table = (lexer'.stream, some (.ok token)) := by
  obtain ⟨source, stream⟩ := lexer
  obtain ⟨source', stream'⟩ := lexer'
  unfold next
  rcases stream.next source.table with ⟨left, _ | fault | token'⟩ <;>
    simp [eq_comm, and_assoc]

/-- A pull of a lexer that yields nothing is a pull of its stream. -/
theorem next_eq_none_iff {lexer lexer' : Lexer} :
    lexer.next = (lexer', none) ↔
      lexer'.source = lexer.source ∧
        lexer.stream.next lexer.source.table = (lexer'.stream, none) := by
  obtain ⟨source, stream⟩ := lexer
  obtain ⟨source', stream'⟩ := lexer'
  unfold next
  rcases stream.next source.table with ⟨left, _ | fault | token⟩ <;>
    simp [eq_comm]

theorem yields_iff {lexer lexer' : Lexer} {tokens : List Token} :
    stage.Yields lexer tokens lexer' ↔
      lexer'.source = lexer.source ∧
        (Stream.stage lexer.source.table).Yields lexer.stream tokens lexer'.stream := by
  constructor
  · intro h
    induction h with
    | none lexer => exact ⟨rfl, .none _⟩
    | pull first _ ih =>
      obtain ⟨hsource, hpull⟩ := next_eq_ok_iff.1 first
      rw [hsource] at ih
      exact ⟨ih.1, .pull hpull ih.2⟩
  · rintro ⟨hsource, h⟩
    obtain ⟨source, stream⟩ := lexer
    obtain ⟨source', stream'⟩ := lexer'
    obtain rfl : source' = source := hsource
    dsimp only at h
    induction h with
    | none stream => exact .none _
    | @pull s t _ item _ first _ ih =>
      have hpull : ({ source := source', stream := s } : Lexer).next =
          ({ source := source', stream := t }, some (.ok item)) := next_eq_ok_iff.2 ⟨rfl, first⟩
      exact .pull hpull ih

/-- The run behind some tokens that a lexer has yielded, and what they are made of. -/
theorem assembled_of_yields {source : Source} {tokens : List Token} {lexer : Lexer}
    (h : stage.Yields (ofSource source) tokens lexer) :
    ∃ pieces, Run source.table (ofSource source).scan pieces lexer.scan ∧
      Assembled pieces tokens ∧ lexer.stream.IsSound ∧
      (tokens.map Token.kind).IsChain Kind.Agree :=
  Stream.run_of_yields ⟨rfl, rfl⟩ (yields_iff.1 h).2

/-- The run behind all tokens of a source, and what they are made of: the run comes to the
end of the text. -/
theorem assembled_of_tokens {source : Source} {delivered : List Token}
    (h : tokens source = .ok delivered) :
    ∃ pieces t, Run source.table (ofSource source).scan pieces t ∧ t.isDone = true ∧
      Assembled pieces delivered ∧ (delivered.map Token.kind).IsChain Kind.Agree := by
  obtain ⟨last, end', hrow, hend⟩ := Stage.yields_of_collect h
  obtain ⟨hsource, hstream⟩ := next_eq_none_iff.1 hend
  rw [(yields_iff.1 hrow).1] at hstream
  obtain ⟨pieces, hrun, hassembled, hsound, hchain⟩ := assembled_of_yields hrow
  obtain ⟨more, t, hrun', hmore, ht⟩ := Stream.run_of_next_none hsound hstream
  refine ⟨pieces ++ more, t, hrun.trans hrun', ht, ?_, hchain⟩
  rw [← List.append_nil delivered]
  exact hassembled.append hmore

/-- The run behind some tokens that a lexer has yielded. -/
theorem run_of_yields {source : Source} {tokens : List Token} {lexer : Lexer}
    (h : stage.Yields (ofSource source) tokens lexer) :
    ∃ pieces, Run source.table (ofSource source).scan pieces lexer.scan ∧
      Delivered pieces tokens ∧ lexer.stream.IsSound ∧
      (tokens.map Token.kind).IsChain Kind.Agree := by
  obtain ⟨pieces, hrun, hassembled, hrest⟩ := assembled_of_yields h
  exact ⟨pieces, hrun, hassembled.delivered, hrest⟩

/-- The run behind all tokens of a source: it comes to the end of the text. -/
theorem run_of_tokens {source : Source} {delivered : List Token}
    (h : tokens source = .ok delivered) :
    ∃ pieces t, Run source.table (ofSource source).scan pieces t ∧ t.isDone = true ∧
      Delivered pieces delivered ∧ (delivered.map Token.kind).IsChain Kind.Agree := by
  obtain ⟨pieces, t, hrun, ht, hassembled, hchain⟩ := assembled_of_tokens h
  exact ⟨pieces, t, hrun, ht, hassembled.delivered, hchain⟩

end Lexer

end BlockLexer
