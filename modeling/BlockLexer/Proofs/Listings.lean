import BlockLexer.Proofs.BodyOrigins
import BlockLexer.Token.Listing

/-!
# Lines of listings

A token is listed as one line of text.  Texts are quoted, so that a line feed in them is written
as an escape, and numbers have none.  Only the names of a body are written as they are.

* `Text.lineFeed_not_mem_quoted` and `Decimal.NumberFormat.lineFeed_not_mem_form`: what a text and a
  double are written as holds no line feed.
* `Token.lineFeed_not_mem_line`: neither does the line of a token, if there is none in the names of
  a body.
* `Token.IsListedBy` says how a line of a listing begins, and `Token.isListedBy_line` that the line
  of a token does so.
-/

namespace BlockLexer

open Text Decimal

/-! ## Forms without line feeds -/

theorem Text.lineFeed_not_mem_toDigits {base : Nat} (hbase : 1 < base) (n : Nat) :
    '\n' ∉ Nat.toDigits base n := by
  have hdigit (d : Nat) : '\n' ≠ d.digitChar := (Nat.digitChar_ne '\n' rfl).symm
  induction n using Nat.strongRecOn with
  | ind n ih =>
    rw [Nat.toDigits_eq_if hbase]
    split
    · rw [List.mem_singleton]
      exact hdigit n
    · rw [List.mem_append, List.mem_singleton, not_or]
      exact ⟨ih _ (Nat.div_lt_self (by omega) hbase), hdigit _⟩

/-- A line feed is written as an escape. -/
theorem Text.lineFeed_not_mem_quotedChar (quote c : Char) : '\n' ∉ quotedChar quote c := by
  have hdigits : '\n' ∉ hexDigits c.toNat := lineFeed_not_mem_toDigits (by decide) c.toNat
  unfold quotedChar
  by_cases hfeed : c = '\n'
  · subst hfeed
    show '\n' ∉ ['\\', 'n']
    decide
  · have hne : '\n' ≠ c := Ne.symm hfeed
    repeat' split
    all_goals simp [hne, hdigits]

theorem Text.lineFeed_not_mem_quoted (cs : List Char) : '\n' ∉ quoted cs := by
  have hchars : '\n' ∉ cs.flatMap (quotedChar '"') := by
    rw [List.mem_flatMap]
    rintro ⟨c, -, hc⟩
    exact lineFeed_not_mem_quotedChar '"' c hc
  simp [quoted, hchars]

theorem lineFeed_not_mem_integerForm (n : Int) : '\n' ∉ integerForm n := by
  unfold integerForm
  cases n with
  | ofNat n =>
    show '\n' ∉ (Nat.repr n).toList
    rw [Nat.toList_repr]
    exact lineFeed_not_mem_toDigits (by decide) n
  | negSucc n =>
    show '\n' ∉ ("-" ++ Nat.repr (n + 1)).toList
    rw [String.toList_append, Nat.toList_repr, List.mem_append, not_or]
    exact ⟨by decide, lineFeed_not_mem_toDigits (by decide) (n + 1)⟩

namespace Decimal

theorem lineFeed_not_mem_plainForm {digits : List Char} (h : '\n' ∉ digits) (lead : Int) :
    '\n' ∉ plainForm digits lead := by
  have hzeros (n : Nat) : '\n' ∉ List.replicate n '0' := fun hmem => by
    cases List.eq_of_mem_replicate hmem
  unfold plainForm
  split
  · simp [h]
  · have htake : '\n' ∉ digits.take (lead.toNat + 1) := fun hmem => h (List.mem_of_mem_take hmem)
    have hdrop : '\n' ∉ digits.drop (lead.toNat + 1) := fun hmem => h (List.mem_of_mem_drop hmem)
    dsimp only
    split <;> simp [htake, hdrop]

theorem lineFeed_not_mem_scientificForm {digits : List Char} (h : '\n' ∉ digits) (plusSign : Bool)
    (lead : Int) : '\n' ∉ scientificForm plusSign digits lead := by
  have hexponent := lineFeed_not_mem_toDigits (show 1 < 10 by decide) lead.natAbs
  have htake : '\n' ∉ digits.take 1 := fun hmem => h (List.mem_of_mem_take hmem)
  have hdrop : '\n' ∉ digits.tail := fun hmem => h (List.mem_of_mem_tail hmem)
  unfold scientificForm
  dsimp only
  repeat' split
  all_goals simp [htake, hdrop, hexponent]

/-- A double is written without line feeds in every format. -/
theorem NumberFormat.lineFeed_not_mem_form (format : NumberFormat) (x : Double) :
    '\n' ∉ format.form x := by
  have hmagnitude : '\n' ∉ format.magnitudeForm x := by
    have hdigits := lineFeed_not_mem_toDigits (show 1 < 10 by decide)
      (x.shortest format.tie).digits
    unfold magnitudeForm
    split
    · decide
    · dsimp only
      split
      · exact lineFeed_not_mem_plainForm hdigits _
      · exact lineFeed_not_mem_scientificForm hdigits _ _
  unfold form
  split
  · decide
  · dsimp only
    repeat' split
    all_goals simp [hmagnitude]

end Decimal

/-- What pieces are written with is in a piece or between two of them. -/
theorem Text.mem_joinWith {sep : List Char} {pieces : List (List Char)} {c : Char}
    (h : c ∈ joinWith sep pieces) : c ∈ sep ∨ ∃ piece ∈ pieces, c ∈ piece := by
  unfold joinWith at h
  induction pieces with
  | nil => cases h
  | cons piece pieces ih =>
    cases pieces with
    | nil =>
      rw [List.intercalate_singleton] at h
      exact .inr ⟨piece, List.mem_cons_self, h⟩
    | cons next more =>
      rw [List.intercalate_cons_cons, List.mem_append, List.mem_append] at h
      rcases h with (h | h) | h
      · exact .inr ⟨piece, List.mem_cons_self, h⟩
      · exact .inl h
      · refine (ih h).imp_right ?_
        rintro ⟨other, hother, hc⟩
        exact ⟨other, List.mem_cons_of_mem piece hother, hc⟩

/-- A value is written without line feeds, if there are none in the names of a body. -/
theorem Value.lineFeed_not_mem_listing {value : Value}
    (h : ∀ body, value = .body body → ∀ name ∈ body.names, '\n' ∉ name) :
    '\n' ∉ value.listing := by
  cases value with
  | nothing => exact List.not_mem_nil
  | text cs => exact lineFeed_not_mem_quoted cs
  | integer n => exact lineFeed_not_mem_integerForm n
  | float x => exact listingNumber.lineFeed_not_mem_form x
  | bool b => cases b <;> decide
  | complex re im =>
    simp [listing, listingNumber.lineFeed_not_mem_form]
  | body part =>
    have hnames : '\n' ∉ joinWith [',', ' '] part.names := by
      intro hmem
      rcases mem_joinWith hmem with hsep | ⟨name, hname, hfeed⟩
      · exact absurd hsep (by decide)
      · exact h part rfl name hname hfeed
    simp only [listing]
    split <;> simp [lineFeed_not_mem_quoted, hnames]

/-- So is a token. -/
theorem Token.lineFeed_not_mem_line {token : Token}
    (h : ∀ body, token.value = .body body → ∀ name ∈ body.names, '\n' ∉ name) :
    '\n' ∉ token.line := by
  have hpad (width : Nat) {cs : List Char} (hcs : '\n' ∉ cs) : '\n' ∉ padRight width cs := by
    rw [padRight, List.mem_append, not_or]
    exact ⟨hcs, fun hmem => by cases List.eq_of_mem_replicate hmem⟩
  have hplace : '\n' ∉
      Nat.toDigits 10 token.span.line ++ ':' :: Nat.toDigits 10 token.span.column := by
    simp [lineFeed_not_mem_toDigits]
  have hkind : '\n' ∉ token.kind.name.toList := by
    cases token.kind <;> decide
  have hvalue := Value.lineFeed_not_mem_listing h
  unfold line
  dsimp only
  split
  · simp [hpad 8 hplace, hkind]
  · simp [hpad 8 hplace, hpad 10 hkind, hvalue]

/-! ## How a line begins -/

/-- How a line of a listing begins: with the line and the column of its token, and behind spaces
with its kind. -/
def Token.IsListedBy (token : Token) (line : List Char) : Prop :=
  ∃ spaces tail, line = Nat.toDigits 10 token.span.line ++ ':' ::
      (Nat.toDigits 10 token.span.column ++ (spaces ++ (token.kind.name.toList ++ tail))) ∧
    spaces ≠ [] ∧ (∀ c ∈ spaces, c = ' ') ∧ (tail = [] ∨ tail.head? = some ' ')

theorem Token.isListedBy_line (token : Token) : token.IsListedBy token.line := by
  have hspaces (n : Nat) : ∀ c ∈ List.replicate n ' ' ++ [' '], c = ' ' := by
    intro c hc
    rw [← List.replicate_succ'] at hc
    exact List.eq_of_mem_replicate hc
  have htail (n : Nat) (value : List Char) :
      (List.replicate n ' ' ++ ' ' :: value).head? = some ' ' := by
    cases n <;> rfl
  unfold line
  dsimp only
  split
  · refine ⟨_, [], ?_, ?_, hspaces (8 - (Nat.toDigits 10 token.span.line ++
      ':' :: Nat.toDigits 10 token.span.column).length), .inl rfl⟩
    · simp [padRight]
    · simp
  · refine ⟨_, _, ?_, ?_, hspaces (8 - (Nat.toDigits 10 token.span.line ++
      ':' :: Nat.toDigits 10 token.span.column).length),
      .inr (htail (10 - token.kind.name.toList.length) token.value.listing)⟩
    · simp [padRight]
    · simp

end BlockLexer
