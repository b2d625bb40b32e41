import BlockLexer.Proofs.Actions
import BlockLexer.Proofs.Run

/-!
# Refusals

Every fault of a lexer has one of a few reasons.  This module lists them, once for each stage.

* `Scan.Fails` is why a step fails: its action refuses the match, no rule takes the next
  character, or something is open at the end of the text.
* `Cause.IsLate` are the causes of the later stages, and `Stream.exists_of_next_error` says
  that a checked stream has no others.
-/

namespace BlockLexer

open Text

namespace Scan

variable {table : LineTable} {s t : Scan} {fault : Fault}

/-! ## Steps -/

/-- Why a step fails. -/
inductive Fails (table : LineTable) (s : Scan) : Fault → Prop
  /-- Something is open at the end of the text. -/
  | finish {fault : Fault} (hrest : s.rest = []) (hfinish : s.finish table = .error fault) :
      Fails table s fault
  /-- No rule takes the next character. -/
  | stuck {c : Char} {cs : List Char} (hrest : s.rest = c :: cs)
      (hselect : s.mode.select s.rest = none) : Fails table s (s.stuck c)
  | refused {rule : Rule} {m : Match} {cause : Cause}
      (hselect : s.mode.select s.rest = some (rule, m)) (hrefuses : s.Refuses table m rule cause) :
      Fails table s (s.fault cause)

theorem fails_of_step (h : s.step table = (t, some (.error fault))) : s.Fails table fault := by
  rcases cases_of_step_error h with ⟨hrest, hfinish, -⟩ | ⟨c, cs, hrest, hselect, rfl, -⟩ |
    ⟨rule, m, a, hselect, hact, -⟩
  · exact .finish hrest hfinish
  · exact .stuck hrest hselect
  · -- The report of the match is no part of what an action looks at.
    obtain ⟨-, cause, hrefuses, rfl⟩ := refuses_of_act hact
    exact .refused hselect (by cases hrefuses <;> constructor <;> assumption)

/-- A pull that fails comes to a step that fails. -/
theorem exists_of_next_error (h : s.next table = (t, some (.error fault))) :
    ∃ u : Scan, u.Fails table fault := by
  obtain ⟨u, -, -, hstep⟩ := run_of_next h
  exact ⟨u, fails_of_step hstep⟩

end Scan

/-! ## Later stages -/

/-- The causes that come up when the pieces of strings are put together and tokens checked. -/
inductive Cause.IsLate : Cause → Prop
  | string : IsLate .textEndInString
  | fragment : IsLate .strayFragment
  | letter (letter : List Char) : IsLate (.unknownQuoteLetter letter)
  | codePoint (text : List Char) : IsLate (.invalidCodePoint text)
  | neighbours (clash : Clash) (previous next : Kind) : IsLate (.adjacency clash previous next)
  | indentation (required actual : Nat) : IsLate (.misaligned required actual)

namespace Assembly

variable {table : LineTable} {a a' : Assembly} {s t : Scan} {start piece : Piece} {fault : Fault}

theorem isLate_of_applyLetter {letter text : List Char} {cause : Cause}
    (h : applyLetter letter text = .error cause) : cause.IsLate := by
  unfold applyLetter at h
  split at h
  · cases h
  · cases h
  · cases h
  · split at h
    · cases h
    · cases h
      exact .codePoint text
  · cases h
    exact .letter letter

theorem exists_of_parts_error {afterBreak : Bool}
    (h : parts table start afterBreak s = (t, .error fault)) :
    (∃ u : Scan, u.Fails table fault) ∨ fault.cause.IsLate := by
  fun_induction parts table start afterBreak s generalizing fault with
  | case1 | case7 | case8 =>
    obtain rfl := Except.error.inj (Prod.mk.inj h).2
    exact .inr .string
  | case2 _ s s' fault' hpull =>
    obtain rfl := Except.error.inj (Prod.mk.inj h).2
    exact .inl (Scan.exists_of_next_error hpull)
  | case3 _ s s' piece hpull _ last rest hrec ih
  | case4 _ s s' piece hpull _ last rest hrec ih
  | case5 _ s s' piece hpull _ last rest hrec ih =>
    obtain ⟨rfl, hrest⟩ := Prod.mk.inj h
    exact ih (by rw [hrec, eq_error_of_map_eq_error hrest])
  | case6 => cases (Prod.mk.inj h).2

theorem exists_of_tokenOf_error (h : tokenOf table piece s = (t, .error fault)) :
    (∃ u : Scan, u.Fails table fault) ∨ fault.cause.IsLate := by
  unfold tokenOf at h
  split at h
  · cases (Prod.mk.inj h).2
  · split at h
    · next hparts =>
      obtain rfl := Except.error.inj (Prod.mk.inj h).2
      exact exists_of_parts_error hparts
    split at h
    · next hliteral =>
      obtain rfl := Except.error.inj (Prod.mk.inj h).2
      unfold literal at hliteral
      split at hliteral
      · next hletter =>
        obtain rfl := Except.error.inj hliteral
        exact .inr (isLate_of_applyLetter hletter)
      · cases hliteral
    · cases (Prod.mk.inj h).2
  all_goals
    obtain rfl := Except.error.inj (Prod.mk.inj h).2
    exact .inr .fragment

theorem exists_of_next_error (h : a.next table = (a', some (.error fault))) :
    (∃ u : Scan, u.Fails table fault) ∨ fault.cause.IsLate := by
  unfold next at h
  split at h
  · cases h
  split at h
  · cases h
  · next hpull =>
    obtain rfl := Except.error.inj (Option.some.inj (Prod.mk.inj h).2)
    exact .inl (Scan.exists_of_next_error hpull)
  split at h
  · cases h
  · next htoken =>
    obtain rfl := Except.error.inj (Option.some.inj (Prod.mk.inj h).2)
    exact exists_of_tokenOf_error htoken

end Assembly

theorem BlockStack.exists_of_checkMember_error {blocks : BlockStack} {actual : Nat} {cause : Cause}
    (h : blocks.checkMember actual = .error cause) :
    ∃ required, cause = .misaligned required actual := by
  unfold checkMember at h
  split at h
  · cases h
  split at h
  · cases h
    exact ⟨_, rfl⟩
  split at h
  · cases h
  split at h
  · cases h
  · cases h
    exact ⟨_, rfl⟩

namespace Stream

variable {table : LineTable} {s s' : Stream} {fault : Fault}

theorem isLate_of_check {previous : Option Kind} {blocks : BlockStack} {token : Token}
    (h : check table previous blocks token = .error fault) : fault.cause.IsLate := by
  unfold check at h
  split at h
  · obtain rfl := Except.error.inj h
    exact .neighbours _ _ _
  split at h
  · split at h
    · cases h
    · next hmember =>
      obtain rfl := Except.error.inj h
      obtain ⟨required, rfl⟩ := BlockStack.exists_of_checkMember_error hmember
      exact .indentation _ _
  · cases h

theorem exists_of_next_error (h : s.next table = (s', some (.error fault))) :
    (∃ u : Scan, u.Fails table fault) ∨ fault.cause.IsLate := by
  fun_induction next table s with
  | case1 | case2 | case6 => cases (Prod.mk.inj h).2
  | case3 s hdone assembly fault' hpull =>
    obtain rfl := Except.error.inj (Option.some.inj (Prod.mk.inj h).2)
    exact Assembly.exists_of_next_error hpull
  | case4 s hdone assembly token hpull hfiltered ih => exact ih h
  | case5 s hdone assembly token hpull hkept fault' hcheck =>
    obtain rfl := Except.error.inj (Option.some.inj (Prod.mk.inj h).2)
    exact .inr (isLate_of_check hcheck)

end Stream

end BlockLexer
