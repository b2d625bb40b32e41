import BlockLexer.Proofs.BodyOrigins
import BlockLexer.Proofs.Crossing
import BlockLexer.Proofs.Extent
import BlockLexer.Proofs.Memberless

/-!
# Reserved words

No name in a stream of tokens is a reserved word.  The names of attributes and identifiers are
checked when they are taken.  Those of classes and instances are not: the rules in front of theirs
take the word `end` where it is a word by itself, and where it is not, the scan is stuck behind it.

* `Scan.name_of_act`: an action yields the name of an attribute or an identifier only if it is not
  reserved, and the names of classes and instances are yielded by their own rules.
* `Mode.not_stops_of_endName`: where `end` is taken for the name of a class or an instance, it is
  not the end of the word.
* `Scan.Run.not_endName`: a run to the end of its text yields no such name.
* `free_of_tokenize` puts them together for the tokens of a text.
-/

namespace BlockLexer

open Text Pattern Lexeme

/-- The kinds of the tokens that name something. -/
def Kind.isName : Kind → Bool
  | className | instanceName | attributeName | identifier => true
  | _ => false

theorem Kind.category_ne_of_isName {kind : Kind} (h : kind.isName = true) :
    kind.category ≠ .expression := by
  cases kind <;> simp_all [isName, category]

section Names

variable {mode : Mode} {cs word left : List Char} {rule : Rule} {m : Match}

/-- The rules of the names of classes and instances. -/
def Rule.IsHeaderName (rule : Rule) : Prop :=
  rule = .className ∨ rule = .instanceName

/-- A word is not reserved if it is none of the reserved words, whatever the case of its letters. -/
theorem isReserved_eq_false_iff :
    isReserved word = false ↔ ∀ other ∈ reservedWords, equalsCaseless word other = false := by
  have hlower : ∀ other ∈ reservedWords, other.map Char.toLower = other := by decide
  rw [isReserved, ← Bool.not_eq_true, List.contains_iff_mem]
  constructor
  · intro hnot other hother
    refine decide_eq_false fun hsame => hnot ?_
    rwa [hsame, hlower other hother]
  · intro hfree hmem
    have hsame := hfree _ hmem
    rw [equalsCaseless, hlower _ hmem, decide_eq_false_iff_not] at hsame
    exact hsame rfl

/-- Such a name goes on as far as it can. -/
theorem Rule.IsHeaderName.exists_append (hrule : rule.IsHeaderName)
    (hmatch : rule.match? cs = some m) :
    ∃ left, cs = m.lexeme ++ left ∧ Stops continuesName left := by
  have named {a : Pattern} (ha : IsCut a)
      (h : Match.ofPattern (a.seq (many continuesName)) cs = some m) :
      ∃ left, cs = m.lexeme ++ left ∧ Stops continuesName left := by
    obtain ⟨left, hcut, hcs⟩ := Match.exists_append_of_ofPattern (ha.seq (isCut_many _)) h
    obtain ⟨_, _, between, -, hmany, -⟩ := exists_of_seq_eq_some hcut
    obtain ⟨-, rfl⟩ := Prod.mk.inj (Option.some.inj hmany)
    exact ⟨_, hcs, stops_dropWhile _ _⟩
  rcases hrule with rfl | rfl
  · exact named (isCut_one _) hmatch
  · exact named (isCut_one _) hmatch

/-- Where the word `end` is taken for such a name, it is not the end of the word. -/
theorem Mode.not_stops_of_endName (hmode : mode = .default ∨ mode = .block)
    (hrule : rule.IsHeaderName) (hselect : mode.select (word ++ left) = some (rule, m))
    (hword : equalsCaseless word endName = true) : ¬ Stops isWord left := by
  intro hnext
  rcases hmode with rfl | rfl
  · have hclass : rule = .className := by
      rcases hrule with rfl | rfl
      · rfl
      · have hmem := Scan.mem_rules_of_select hselect
        simp [Mode.rules] at hmem
    subst hclass
    have hnone : Rule.take? (word ++ left) .strayEnd = none :=
      Mode.take?_eq_none_of_select hselect (by decide) (by decide)
    have hne := ne_nil_of_isIdentifier (isIdentifier_of_endName hword)
    simp [Rule.take?, Rule.match?, Match.ofPattern, endWord_of_endName hword hnext, hne] at hnone
  · obtain ⟨m', hend⟩ := Mode.select_of_endName hword hnext
    obtain ⟨rfl, -⟩ := Prod.mk.inj (Option.some.inj (hend.symm.trans hselect))
    rcases hrule with hrule | hrule <;> cases hrule

end Names

namespace Scan

variable {table : LineTable} {s t a u : Scan} {piece : Piece} {pieces : List Piece} {rule : Rule}
  {m : Match}

/-! ## Attributes and identifiers -/

/-- The name of an attribute or an identifier is not reserved.  Only their rules yield the names
of classes and instances, and what they have taken is the value. -/
theorem name_of_act {kind : Kind} (h : s.act table rule m = (a, .ok (some piece)))
    (hkind : piece.kind = .token kind) (hname : kind.isName = true) :
    (kind = .attributeName ∨ kind = .identifier →
        ∃ name, piece.value = .text name ∧ isReserved name = false) ∧
      (kind = .className ∨ kind = .instanceName →
        rule.IsHeaderName ∧ piece.value = .text m.lexeme) := by
  have hinner := Kind.category_ne_of_isName hname
  cases accepts_of_act h with
  | className | capitalName =>
    cases hkind
    exact ⟨by simp, fun _ => ⟨.inl rfl, rfl⟩⟩
  | instanceName =>
    cases hkind
    exact ⟨by simp, fun _ => ⟨.inr rfl, rfl⟩⟩
  | attributeName hfree | identifier hfree =>
    cases hkind
    exact ⟨fun _ => ⟨_, rfl, hfree⟩, by simp⟩
  | operator =>
    obtain rfl := PieceKind.token.inj hkind
    exact absurd (category_operatorKind m.lexeme) hinner
  | bracket _ htake =>
    obtain rfl := PieceKind.token.inj hkind
    exact absurd (Brackets.turns_of_take? htake).category hinner
  | escape => exact absurd hkind ((isPart_escaped m s).ne_token kind)
  | _ => cases hkind <;> cases hname

theorem free_of_step (hs : s.isDone = false) (hstep : s.step table = (t, some (.ok piece)))
    (hkind : piece.kind = .token .attributeName ∨ piece.kind = .token .identifier) :
    ∃ name, piece.value = .text name ∧ isReserved name = false := by
  rcases effect_of_step hs hstep with ⟨-, hend, -⟩ | ⟨ht, -, -⟩
  · rcases hkind with hkind | hkind <;> cases hend.symm.trans hkind
  rcases exists_of_step (some piece) hstep with ⟨-, rfl, -⟩ | ⟨rule, m, a, left, hselect, -, hact, -⟩
  · cases ht
  rcases hkind with hkind | hkind
  · exact (name_of_act hact hkind rfl).1 (.inl rfl)
  · exact (name_of_act hact hkind rfl).1 (.inr rfl)

/-! ## Classes and instances -/

/-- The name of a class or an instance stands between blocks or in a block, and so does what
follows it. -/
theorem Effect.modes_of_headerName (he : Effect table s t (some piece))
    (hkind : piece.kind = .token .className ∨ piece.kind = .token .instanceName) :
    (s.mode = .default ∨ s.mode = .block) ∧ (t.mode = .default ∨ t.mode = .block) := by
  rcases hkind with hkind | hkind
  · cases he.delimits hkind rfl with
    | blockOpens _ hmode hmodes => exact ⟨hmode, .inr (congrArg modeOf hmodes)⟩
  · cases he.delimits hkind rfl with
    | named hmode hmodes =>
      have hsame : t.mode = s.mode := congrArg modeOf hmodes
      exact ⟨hmode, hsame ▸ hmode⟩

/-- A scan that comes to the end of its text has not taken the word `end` for such a name: behind
it the scan would be stuck. -/
theorem Run.not_endName (hrun : Run table s pieces u) (hu : u.isDone = true)
    (hpiece : piece ∈ pieces)
    (hkind : piece.kind = .token .className ∨ piece.kind = .token .instanceName) :
    ∃ name, piece.value = .text name ∧ equalsCaseless name endName = false := by
  obtain ⟨before, after, rfl⟩ := List.append_of_mem hpiece
  obtain ⟨_, -, hrun⟩ := Run.split hrun
  obtain ⟨m, t, v, -, hm, hstep, hsettles, hmore⟩ := Run.uncons hrun
  rcases effect_of_step hm hstep with ⟨-, hend, -⟩ | ⟨ht, he, -⟩
  · rcases hkind with hkind | hkind <;> cases hend.symm.trans hkind
  obtain ⟨hmode, hmode'⟩ := he.modes_of_headerName hkind
  rcases exists_of_step (some piece) hstep with ⟨-, rfl, -⟩ | ⟨rule, found, a, left, hselect, hrest,
    hact, -, rfl, -⟩
  · cases ht
  obtain ⟨hrule, hvalue⟩ : rule.IsHeaderName ∧ piece.value = .text found.lexeme := by
    rcases hkind with hkind | hkind
    · exact (name_of_act hact hkind rfl).2 (.inl rfl)
    · exact (name_of_act hact hkind rfl).2 (.inr rfl)
  refine ⟨found.lexeme, hvalue, ?_⟩
  by_contra hword
  rw [Bool.not_eq_false] at hword
  obtain ⟨left, hleft, hstops⟩ := hrule.exists_append (Mode.match?_of_select hselect)
  obtain rfl := List.append_cancel_left (hrest.symm.trans hleft)
  have hnext : ¬ Stops isWord t.rest :=
    Mode.not_stops_of_endName hmode hrule (hrest ▸ hselect) hword
  cases hrest' : t.rest with
  | nil => exact hnext (hrest' ▸ stops_nil)
  | cons c behind =>
    rw [hrest'] at hnext hstops
    have hc : isWord c = true := by
      by_contra hnot
      exact hnext (stops_cons (by simpa using hnot))
    have hv : v.rest = c :: behind := hsettles.rest_eq.trans hrest'
    have hvmode : v.mode = .default ∨ v.mode = .block := by
      rw [show v.mode = t.mode from congrArg modeOf hsettles.same.1]
      exact hmode'
    obtain ⟨_, _, _, -, hmove, -⟩ := hmore.exists_move hu (hsettles.same.2.2.trans ht)
    obtain ⟨_, _, _, _, hselect', -⟩ := hmove.exists_of_rest (by simp [hv])
    rw [hv, Mode.select_eq_none_of_isWord hvmode hc (hstops c rfl)] at hselect'
    cases hselect'

end Scan

/-- No name is a reserved word.  Attributes and identifiers have none of the reserved words as
their name, whatever the case of its letters, and classes and instances are not named `end`. -/
theorem free_of_tokenize {tree : Files.FileTree} {config : Config} {text : List Char}
    {origin : Files.Path} {tokens : List Token} (h : tokenize tree config text origin = .ok tokens) :
    ∀ token ∈ tokens,
      (token.kind = .attributeName ∨ token.kind = .identifier →
        ∃ name, token.value = .text name ∧ ∀ word ∈ reservedWords, equalsCaseless name word = false) ∧
      (token.kind = .className ∨ token.kind = .instanceName →
        ∃ name, token.value = .text name ∧ equalsCaseless name endName = false) := by
  intro token htoken
  obtain ⟨source, -, htokens⟩ := exists_of_bind_eq_ok h
  obtain ⟨pieces, t, hrun, ht, hdelivered, -⟩ := Lexer.run_of_tokens htokens
  obtain ⟨piece, hpiece, hstands⟩ := hdelivered.exists_piece htoken
  cases hstands with
  | string _ hstring => simp [hstring]
  | token hkind hvalue _ =>
    have kinds {kind kind' : Kind} (hname : token.kind = kind ∨ token.kind = kind') :
        piece.kind = .token kind ∨ piece.kind = .token kind' := by
      rcases hname with rfl | rfl
      · exact .inl hkind
      · exact .inr hkind
    constructor
    · intro hname
      obtain ⟨before, m, t, -, hm, hstep⟩ := hrun.exists_of_mem hpiece
      obtain ⟨name, htext, hfree⟩ := Scan.free_of_step hm hstep (kinds hname)
      exact ⟨name, hvalue.trans htext, isReserved_eq_false_iff.1 hfree⟩
    · intro hname
      obtain ⟨name, htext, hfree⟩ := hrun.not_endName ht hpiece (kinds hname)
      exact ⟨name, hvalue.trans htext, hfree⟩

/-- Names that begin like reserved words, of each of the four kinds. -/
theorem free_of_tokenize_of_similar_names :
    ∃ tokens, tokenize ⟨[], []⟩ {} "Ending End_1
  ended = None_ + TRUE_
end".toList textOrigin =
        .ok tokens ∧
      tokens.map (fun token => (token.kind, token.value)) =
        [(.className, .text "Ending".toList), (.instanceName, .text "End_1".toList),
          (.attributeName, .text "ended".toList), (.identifier, .text "None_".toList),
          (.plus, .nothing), (.identifier, .text "TRUE_".toList), (.blockEnd, .nothing),
          (.endOfText, .nothing)] ∧
      ∀ token ∈ tokens,
        (token.kind = .attributeName ∨ token.kind = .identifier →
          ∃ name, token.value = .text name ∧
            ∀ word ∈ reservedWords, equalsCaseless name word = false) ∧
        (token.kind = .className ∨ token.kind = .instanceName →
          ∃ name, token.value = .text name ∧ equalsCaseless name endName = false) := by
  have hvalues : (tokenize ⟨[], []⟩ {} "Ending End_1
  ended = None_ + TRUE_
end".toList
      textOrigin).map (List.map fun token => (token.kind, token.value)) =
        .ok [(.className, .text "Ending".toList), (.instanceName, .text "End_1".toList),
          (.attributeName, .text "ended".toList), (.identifier, .text "None_".toList),
          (.plus, .nothing), (.identifier, .text "TRUE_".toList), (.blockEnd, .nothing),
          (.endOfText, .nothing)] := by
    decide +kernel
  obtain ⟨tokens, htokens, hvalues⟩ := exists_of_map_eq_ok hvalues
  exact ⟨tokens, htokens, hvalues, free_of_tokenize htokens⟩

/-- In front of a letter that stands in no name, the word `end` is yielded as the name of a class,
but the scan is stuck at the letter. -/
example :
    let table := LineTable.ofText 4 "Endé
end
".toList
    let s := Scan.ofText "Endé
end
".toList
    (s.next table).2 = some (.ok (s.token .className (.text "End".toList) "End".toList)) ∧
      (((s.next table).1.next table).2 =
        some (.error { cause := .illegalCharacter 'é', line := 1, column := 4 })) := by
  decide +kernel

end BlockLexer
