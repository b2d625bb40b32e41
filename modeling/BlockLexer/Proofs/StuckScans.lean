import BlockLexer.Proofs.Origins
import BlockLexer.Proofs.Refusals
import BlockLexer.Proofs.Select
import BlockLexer.Proofs.Shifted
import BlockLexer.Proofs.Way

/-!
# Where a scan is stuck

A scan is stuck where no rule of its mode takes the next character.  The text of a source ends
with a line feed, whatever was imported into it, so a body always has a next line, and a backslash
in a string always has a character behind it.

* `Mode.select_string_eq_none_iff` and `Mode.exists_select_body`: in front of a line feed
  somewhere behind it, a scan in a string is stuck just at the end of a line that the string must
  end on, and a scan in a body nowhere.
* `Scan.Reached` are the states of a scan that is pulled, those within a pull included, and
  `Scan.Reached.standsIn`: what they have left is the end of the text, and they know the place.
* `Scan.finish_of_next_error`: from a mode that `TakesAnything` a pull fails only at the end of the
  text.
* `Scan.Reached.stuck` is where a scan of a source is stuck, and the fault that it yields there.
-/

namespace BlockLexer

open Text Pattern Lexeme Files

/-! ## Rules that always match -/

section Modes

variable {mode : Mode} {style : QuoteStyle} {cs : List Char} {rule : Rule} {m : Match}

/-- Where a rule of a mode takes something, some rule is selected. -/
theorem Mode.exists_select_of_match? (hmem : rule ∈ mode.rules) (hmatch : rule.match? cs = some m)
    (hne : m.lexeme ≠ []) : ∃ rule m, mode.select cs = some (rule, m) := by
  have htake : Rule.take? cs rule = some (rule, m) := by
    rw [Rule.take?, hmatch]
    exact if_neg (by simpa using hne)
  cases hselect : mode.select cs with
  | some selected => exact ⟨selected.1, selected.2, rfl⟩
  | none => cases (List.findSome?_eq_none_iff.1 hselect rule hmem).symm.trans htake

/-- In a body a line is taken with its end. -/
theorem Mode.exists_select_body (hlast : cs.getLast? = some '\n') :
    ∃ rule m, Mode.body.select cs = some (rule, m) := by
  have hfeed : ¬ ∀ c ∈ cs, inLine c = true := fun hall => by
    cases hall '\n' (List.mem_of_getLast? hlast)
  obtain ⟨c, left, hleft⟩ := List.exists_cons_of_ne_nil (mt List.dropWhile_eq_nil_iff.1 hfeed)
  have hstop := stops_dropWhile inLine cs
  rw [hleft] at hstop
  obtain rfl : c = '\n' := by simpa [inLine] using hstop c rfl
  have hcut : (many inLine).seq lineEnd cs = some (cs.takeWhile inLine ++ ['\n'], left) :=
    seq_eq_some (congrArg (fun left => some (cs.takeWhile inLine, left)) hleft) rfl
  have hmem : Rule.bodyLine ∈ Mode.body.rules := by decide
  exact exists_select_of_match? hmem (Match.ofPattern_eq_some hcut) (by simp)

theorem Mode.mem_string_rules (style : QuoteStyle) :
    .escape ∈ (Mode.string style).rules ∧ .closeString style ∈ (Mode.string style).rules ∧
      .stringText style ∈ (Mode.string style).rules ∧
      (style.isTriple = true → .loneQuote style ∈ (Mode.string style).rules) := by
  cases style <;> decide

/-- In a string a rule takes the next character, unless it ends a line that the string must end on.
A backslash is not the last character. -/
theorem Mode.exists_select_string (hlast : cs.getLast? = some '\n')
    (hline : style.isTriple = true ∨ cs.head? ≠ some '\n') :
    ∃ rule m, (Mode.string style).select cs = some (rule, m) := by
  obtain ⟨hescape, hclose, htext, hlone⟩ := mem_string_rules style
  obtain ⟨c, more, rfl⟩ := List.exists_cons_of_ne_nil (List.ne_nil_of_mem (List.mem_of_getLast? hlast))
  by_cases hback : c = '\\'
  · subst hback
    obtain ⟨d, behind, rfl⟩ : ∃ d behind, more = d :: behind := by
      refine List.exists_cons_of_ne_nil ?_
      rintro rfl
      cases hlast
    have hcut : escape ('\\' :: d :: behind) = some (['\\', d], behind) := rfl
    exact exists_select_of_match? hescape (Match.ofPattern_eq_some hcut) (List.cons_ne_nil _ _)
  by_cases hmark : c = style.mark
  · subst hmark
    by_cases htriple : style.isTriple = true
    · have hcut : one (· = style.mark) (style.mark :: more) = some ([style.mark], more) :=
        if_pos (decide_eq_true rfl)
      exact exists_select_of_match? (hlone htriple) (Match.ofPattern_eq_some hcut)
        (List.cons_ne_nil _ _)
    · have hcut : word style.quotes (style.mark :: more) = some ([style.mark], more) := by
        cases style with
        | single | double => rfl
        | tripleSingle | tripleDouble => exact absurd rfl htriple
      exact exists_select_of_match? hclose (Match.ofPattern_eq_some hcut) (List.cons_ne_nil _ _)
  · have hc : isStringText style c = true := by
      have hfeed : style.isTriple = true ∨ c ≠ '\n' :=
        hline.imp_right fun hne he => hne (congrArg some he)
      simp only [isStringText, Bool.and_eq_true, Bool.or_eq_true, decide_eq_true_eq]
      exact ⟨⟨hmark, hback⟩, hfeed⟩
    have hne : (c :: more).takeWhile (isStringText style) ≠ [] := by
      rw [List.takeWhile_cons_of_pos hc]
      exact List.cons_ne_nil _ _
    have hcut : many1 (isStringText style) (c :: more) =
        some ((c :: more).takeWhile (isStringText style),
          (c :: more).dropWhile (isStringText style)) := if_neg (by simpa using hne)
    exact exists_select_of_match? htext (Match.ofPattern_eq_some hcut) hne

/-- So a scan in a string is stuck just where a line ends on which the string must end. -/
theorem Mode.select_string_eq_none_iff (hlast : cs.getLast? = some '\n') :
    (Mode.string style).select cs = none ↔ style.isTriple = false ∧ cs.head? = some '\n' := by
  constructor
  · intro hselect
    by_contra hnot
    rw [not_and, Bool.eq_false_iff] at hnot
    have hline : style.isTriple = true ∨ cs.head? ≠ some '\n' := by tauto
    obtain ⟨rule, m, hsome⟩ := exists_select_string hlast hline
    cases hselect.symm.trans hsome
  · rintro ⟨hsingle, hhead⟩
    obtain ⟨more, rfl⟩ := List.head?_eq_some_iff.1 hhead
    cases style with
    | single | double => rfl
    | tripleSingle | tripleDouble => cases hsingle

/-- The modes that have a rule for every character: bodies, and strings that may run over several
lines. -/
def Mode.TakesAnything : Mode → Prop
  | body => True
  | string style => style.isTriple = true
  | default | block | expression => False

theorem Mode.TakesAnything.exists_select (h : mode.TakesAnything) (hlast : cs.getLast? = some '\n') :
    ∃ rule m, mode.select cs = some (rule, m) := by
  cases mode with
  | body => exact exists_select_body hlast
  | string style => exact exists_select_string hlast (.inl h)
  | default | block | expression => exact h.elim

end Modes

namespace Scan

variable {table : LineTable} {start s t : Scan} {fault : Fault}

/-! ## States of a scan that is pulled -/

/-- The states that a scan comes to, those within a pull and that behind a fault included. -/
inductive Reached (table : LineTable) (start : Scan) : Scan → Prop
  | start : Reached table start start
  | step {s : Scan} (h : Reached table start s) (hs : s.isDone = false) :
      Reached table start (s.step table).1

/-- A pull leads from such a state to another one. -/
theorem Reached.next (h : Reached table start s) : Reached table start (s.next table).1 := by
  fun_induction Scan.next table s with
  | case1 => exact h
  | case2 s hdone t item hstep =>
    have hreached := h.step (by simpa using hdone)
    rwa [hstep] at hreached
  | case3 s hdone t hstep ih =>
    have hreached := h.step (by simpa using hdone)
    rw [hstep] at hreached
    exact ih hreached

/-- So do many pulls. -/
theorem reached_of_pulls (table : LineTable) (start : Scan) (n : Nat) :
    Reached table start ((fun s => (s.next table).1)^[n] start) := by
  induction n with
  | zero => exact .start
  | succ n ih =>
    rw [Function.iterate_succ_apply']
    exact ih.next

/-- A step moves behind what it takes, also if it fails. -/
theorem exists_lexeme_of_step (table : LineTable) (s : Scan) :
    ∃ lexeme, s.rest = lexeme ++ (s.step table).1.rest ∧
      (s.step table).1.position = s.position.after lexeme := by
  unfold Scan.step
  split
  · exact ⟨[], rfl, rfl⟩
  split
  · exact ⟨[], rfl, rfl⟩
  next rule m hselect =>
  obtain ⟨left, hleft⟩ := Rule.exists_append_of_match? (Mode.match?_of_select hselect)
  let event := Event.ruleMatched rule s.mode s.position.line s.position.column
  have hmoved : s.rest = m.lexeme ++ (((s.report event).act table rule m).1.advance m.lexeme).rest ∧
      (((s.report event).act table rule m).1.advance m.lexeme).position =
        s.position.after m.lexeme := by
    simp only [advance, act_rest, act_position]
    exact ⟨hleft.trans (by rw [report, hleft, List.drop_left]), rfl⟩
  refine ⟨m.lexeme, ?_⟩
  dsimp only
  split
  · exact hmoved
  · next piece _ =>
    have hnote := place_note piece (((s.report event).act table rule m).1.advance m.lexeme)
    exact ⟨hmoved.1.trans (congrArg (m.lexeme ++ ·.1) hnote.symm),
      (congrArg (·.2.1) hnote).trans hmoved.2⟩
  · exact hmoved

/-- So it leaves an end of what was left. -/
theorem suffix_of_step (table : LineTable) (s : Scan) : (s.step table).1.rest <:+ s.rest := by
  obtain ⟨lexeme, hrest, -⟩ := exists_lexeme_of_step table s
  exact ⟨lexeme, hrest.symm⟩

theorem Reached.suffix (h : Reached table start s) : s.rest <:+ start.rest := by
  induction h with
  | start => exact List.suffix_rfl
  | step _ _ ih => exact (suffix_of_step table _).trans ih

/-- Such a state stands in the text of the scan. -/
theorem Reached.standsIn {text : List Char} (h : Reached table (ofText text) s) :
    StandsIn text s := by
  induction h with
  | start => exact standsIn_of_start rfl rfl
  | @step s _ _ ih =>
    obtain ⟨passed, htext, hposition⟩ := ih
    obtain ⟨lexeme, hrest, hmoved⟩ := exists_lexeme_of_step table s
    refine ⟨passed ++ lexeme, ?_, ?_⟩
    · rw [htext, hrest, List.append_assoc]
    · rw [hmoved, hposition, Position.after_append]

/-! ## Characters that no rule takes -/

/-- A scan that is stuck yields its fault and comes to its end. -/
theorem next_of_stuck {c : Char} {more : List Char} (hs : s.isDone = false)
    (hrest : s.rest = c :: more) (hselect : s.mode.select s.rest = none) :
    s.next table = ({ s with isDone := true }, some (.error (s.stuck c))) := by
  refine next_of_step_some table hs ?_
  unfold Scan.step
  split
  · next hnil => cases hrest.symm.trans hnil
  · next hcons =>
    obtain ⟨rfl, -⟩ := List.cons.inj (hrest.symm.trans hcons)
    rw [hselect]

/-- Outside of strings this is an illegal character. -/
theorem stuck_of_mode_ne_string {c : Char} (hmode : ∀ style, s.mode ≠ .string style) :
    s.stuck c = s.fault (.illegalCharacter c) := by
  unfold stuck
  split
  · next hmodes => exact absurd (mode_eq_string hmodes) (hmode _)
  · rfl

/-- At the end of a line on which the string must end, it is that end. -/
theorem stuck_of_lineFeed {style : QuoteStyle} (hmode : s.mode = .string style)
    (hsingle : style.isTriple = false) : s.stuck '\n' = s.fault .lineEndInString := by
  obtain ⟨raw, line, column, outer, hmodes⟩ := exists_of_mode_eq_string hmode
  unfold stuck
  rw [hmodes]
  exact if_pos (by simp [hsingle])

/-! ## Modes that take anything -/

/-- In such a mode no action refuses its match. -/
theorem Refuses.not_takesAnything {rule : Rule} {m : Match} {cause : Cause}
    (h : s.Refuses table m rule cause) (hmem : rule ∈ s.mode.rules) : ¬ s.mode.TakesAnything := by
  have elsewhere {home : Mode} (hhome : rule.home? = some home) (hnot : ¬ home.TakesAnything) :
      ¬ s.mode.TakesAnything :=
    Mode.eq_of_mem_rules hmem hhome ▸ hnot
  have header (hclass : rule = .className) : ¬ s.mode.TakesAnything := by
    rcases Mode.eq_default_or_eq_block (hclass ▸ hmem) with hmode | hmode <;> rw [hmode] <;> exact id
  cases h with
  | strayEnd | endName | close | attributeName | imaginary | float | identifier | bracket
  | noExpression => exact elsewhere rfl id
  | member => exact header rfl
  | name hrule =>
    rcases hrule with rfl | rfl
    · exact header rfl
    · exact elsewhere rfl id
  | integer hrule =>
    simp only [List.mem_cons, List.not_mem_nil, or_false] at hrule
    rcases hrule with rfl | rfl | rfl | rfl <;> exact elsewhere rfl id

/-- What the end of the text yields there depends on nothing but what is open. -/
theorem finish_of_modes (hmodes : t.modes = s.modes) (hmode : s.mode.TakesAnything) :
    t.finish table = s.finish table := by
  unfold finish
  rw [hmodes]
  cases hopen : s.modes with
  | nil =>
    rw [mode, hopen] at hmode
    exact hmode.elim
  | cons activation outer =>
    cases activation with
    | body | string => rfl
    | block | expression =>
      rw [mode, hopen] at hmode
      exact hmode.elim

/-- From such a mode a pull fails only at the end of the text. -/
theorem finish_of_next_error (hmode : s.mode.TakesAnything)
    (hclosed : s.rest = [] ∨ s.rest.getLast? = some '\n')
    (h : s.next table = (t, some (.error fault))) :
    t.rest = [] ∧ s.finish table = .error fault := by
  fun_induction Scan.next table s with
  | case1 => cases (Prod.mk.inj h).2
  | case2 s hdone t' item hstep =>
    obtain ⟨rfl, hitem⟩ := Prod.mk.inj h
    rw [Option.some.inj hitem] at hstep
    cases fails_of_step hstep with
    | finish hrest hfinish =>
      rw [step_of_rest_nil table hrest] at hstep
      obtain ⟨rfl, -⟩ := Prod.mk.inj hstep
      exact ⟨hrest, hfinish⟩
    | stuck hrest hselect =>
      rw [hrest] at hclosed hselect
      obtain ⟨rule, m, hsome⟩ :=
        hmode.exists_select (hclosed.resolve_left (List.cons_ne_nil _ _))
      cases hselect.symm.trans hsome
    | refused hselect hrefuses =>
      exact absurd hmode (hrefuses.not_takesAnything (mem_rules_of_select hselect))
  | case3 s hdone t' hstep ih =>
    have hmodes : t'.modes = s.modes := by
      cases (effect_of_step_quiet hstep).1 with
      | still _ hsame => exact hsame
      | bodyOpens hblock =>
        rw [hblock] at hmode
        exact hmode.elim
    have hsuffix := suffix_of_step table s
    rw [hstep] at hsuffix
    have hmode' : t'.mode.TakesAnything := by
      rwa [show t'.mode = s.mode from congrArg modeOf hmodes]
    obtain ⟨hrest, hfinish⟩ := ih hmode' (closed_of_suffix hsuffix hclosed) h
    exact ⟨hrest, (finish_of_modes hmodes hmode).symm.trans hfinish⟩

end Scan

/-! ## Scans of sources -/

/-- A source that was prepared from a text or from a file. -/
inductive Source.IsPrepared (source : Source) : Prop
  | ofText {tree : FileTree} {config : Config} {text : List Char} {origin : Path}
      (h : (Source.ofText tree config text origin).outcome = .ok source) : IsPrepared source
  | ofFile {tree : FileTree} {config : Config} {path : Path}
      (h : (Source.ofFile tree config path).outcome = .ok source) : IsPrepared source

/-- A file that is read is a text. -/
theorem Source.IsPrepared.exists_ofText {source : Source} (h : source.IsPrepared) :
    ∃ tree config text origin, (Source.ofText tree config text origin).outcome = .ok source := by
  cases h with
  | ofText h => exact ⟨_, _, _, _, h⟩
  | ofFile h =>
    unfold Source.ofFile at h
    split at h
    · cases h
    · exact ⟨_, _, _, _, h⟩

theorem Source.IsPrepared.closed {source : Source} (h : source.IsPrepared) :
    source.text = [] ∨ source.text.getLast? = some '\n' := by
  obtain ⟨_, _, _, _, h⟩ := h.exists_ofText
  exact closed_of_ofText h

namespace Scan

/-- Where a scan of a source is stuck.  If no rule of the mode takes the next character, the scan
stands between blocks, in a block or in an expression, or a line ends on which a string must end,
and a pull yields the fault for just this.  Strings are stuck nowhere else, and there always.  A
body, and a string that may run over several lines, has a rule for everything, so that a pull from
there fails only at the end of the text. -/
theorem Reached.stuck {source : Source} {s : Scan} (hsource : source.IsPrepared)
    (h : Reached source.table (ofText source.text) s) :
    (∀ c more, s.rest = c :: more → s.mode.select s.rest = none →
      ∃ cause, (s.isDone = false →
          s.next source.table = ({ s with isDone := true }, some (.error (s.fault cause)))) ∧
        ((s.mode = .default ∨ s.mode = .block ∨ s.mode = .expression) ∧
            cause.message = "Illegal character " ++ String.ofList (quotedSingle c) ∨
          ∃ style, s.mode = .string style ∧ style.isTriple = false ∧ c = '\n' ∧
            cause.message = "EOL while scanning a string")) ∧
      (∀ style, s.mode = .string style → s.rest ≠ [] →
        (s.mode.select s.rest = none ↔ style.isTriple = false ∧ s.rest.head? = some '\n')) ∧
      (s.mode = .body ∨ (∃ style, s.mode = .string style ∧ style.isTriple = true) →
        (s.rest ≠ [] → ∃ rule m, s.mode.select s.rest = some (rule, m)) ∧
          ∀ t fault, s.next source.table = (t, some (.error fault)) →
            t.rest = [] ∧ s.finish source.table = .error fault) := by
  have hclosed : s.rest = [] ∨ s.rest.getLast? = some '\n' :=
    closed_of_suffix h.suffix hsource.closed
  refine ⟨?_, ?_, ?_⟩
  · intro c more hrest hselect
    have hlast := hclosed.resolve_left (hrest ▸ List.cons_ne_nil _ _)
    have hnext (hs : s.isDone = false) : s.next source.table =
        ({ s with isDone := true }, some (.error (s.stuck c))) :=
      next_of_stuck hs hrest hselect
    have hillegal (hmode : s.mode = .default ∨ s.mode = .block ∨ s.mode = .expression) :
        s.stuck c = s.fault (.illegalCharacter c) := by
      refine stuck_of_mode_ne_string fun style hstring => ?_
      rcases hmode with hmode | hmode | hmode <;> cases hmode.symm.trans hstring
    cases hmode : s.mode with
    | default | block | expression =>
      have houtside : s.mode = .default ∨ s.mode = .block ∨ s.mode = .expression := by
        simp [hmode]
      rw [hillegal houtside] at hnext
      exact ⟨.illegalCharacter c, hnext, .inl ⟨by simp, rfl⟩⟩
    | body =>
      rw [hmode] at hselect
      obtain ⟨rule, m, hsome⟩ := Mode.exists_select_body hlast
      cases hselect.symm.trans hsome
    | string style =>
      rw [hmode] at hselect
      obtain ⟨hsingle, hhead⟩ := (Mode.select_string_eq_none_iff hlast).1 hselect
      obtain rfl : c = '\n' := by simpa [hrest] using hhead
      rw [stuck_of_lineFeed hmode hsingle] at hnext
      exact ⟨.lineEndInString, hnext, .inr ⟨style, rfl, hsingle, rfl, rfl⟩⟩
  · intro style hmode hne
    rw [hmode]
    exact Mode.select_string_eq_none_iff (hclosed.resolve_left hne)
  · intro hmode
    have htakes : s.mode.TakesAnything := by
      rcases hmode with hmode | ⟨style, hmode, htriple⟩ <;> rw [hmode]
      · trivial
      · exact htriple
    exact ⟨fun hne => htakes.exists_select (hclosed.resolve_left hne),
      fun t fault => finish_of_next_error htakes hclosed⟩

/-- A string with quotes for one line that runs into the next. -/
theorem Reached.stuck_in_broken_string :
    ∃ source s t fault,
      (Source.ofText ⟨[], []⟩ {} "A\n x = 'a\nb'\nend\n".toList textOrigin).outcome = .ok source ∧
      Reached source.table (ofText source.text) s ∧ s.rest = "\nb'\nend\n".toList ∧
      s.mode = .string .single ∧ s.mode.select s.rest = none ∧
      s.next source.table = (t, some (.error fault)) ∧
      fault.cause.message = "EOL while scanning a string" := by
  have hstate : (Source.ofText ⟨[], []⟩ {} "A\n x = 'a\nb'\nend\n".toList textOrigin).outcome.map
      (fun source =>
        let s := (fun s => (s.next source.table).1)^[6] (ofText source.text)
        (s.rest, s.mode, s.isDone)) = .ok ("\nb'\nend\n".toList, .string .single, false) := by
    decide +kernel
  obtain ⟨source, hsource, hstate⟩ := exists_of_map_eq_ok hstate
  have hreached := reached_of_pulls source.table (ofText source.text) 6
  dsimp only at hstate
  generalize (fun s => (Scan.next source.table s).1)^[6] (ofText source.text) = s at hstate hreached
  obtain ⟨hrest, hmode, hs⟩ : _ ∧ _ ∧ _ := by simpa only [Prod.mk.injEq] using hstate
  obtain ⟨hstuck, hstring, -⟩ := hreached.stuck (.ofText hsource)
  have hselect : s.mode.select s.rest = none := by
    refine (hstring .single hmode ?_).2 ⟨rfl, ?_⟩ <;> rw [hrest]
    · decide
    · rfl
  obtain ⟨cause, hnext, ⟨hother, -⟩ | ⟨-, -, -, -, hmessage⟩⟩ := hstuck '\n' _ hrest hselect
  · rcases hother with h | h | h <;> cases hmode.symm.trans h
  · exact ⟨source, s, _, _, hsource, hreached, hrest, hmode, hselect, hnext hs, hmessage⟩

end Scan

end BlockLexer
