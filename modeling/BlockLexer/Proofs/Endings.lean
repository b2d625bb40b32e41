import BlockLexer.Proofs.Effect

/-!
# How streams end

Every stage is pulled in the same way, and each of them has its own mark of being done.
This module says what pulls of a stage come to, however often it is pulled.

* `Stage.Ends` is the shape of a stream: some items, then a last one that is a fault or
  closes the stream, and nothing behind it.
* `Stage.Fuses` is what has to be known of one pull, and `Stage.Fuses.exists_ends` counts
  the pulls.
* `Scan.fuses`, `Assembly.fuses`, `Stream.fuses` and `Lexer.fuses` are the four stages,
  each by the one before it.
* `Source.stages_end` is all of them at the beginning of a source.
-/

namespace BlockLexer

open Text

namespace Stage

variable {σ α : Type} {stage : Stage σ α} {IsEnd : α → Prop} {Live Dead : σ → Prop}

/-- What a pull yields, by the number of pulls before it. -/
def pull (stage : Stage σ α) : Nat → σ → Option (Except Fault α)
  | 0, s => (stage.next s).2
  | n + 1, s => stage.pull n (stage.next s).1

/-- Pulls yield these items and then the last one, which is a fault or closes the stream.
No item before it closes the stream, and behind it nothing comes. -/
structure Ends (stage : Stage σ α) (IsEnd : α → Prop) (s : σ) (items : List α)
    (last : Except Fault α) : Prop where
  pulls : ∀ n, stage.pull n s = (items.map Except.ok ++ [last])[n]?
  open_before : ∀ item ∈ items, ¬ IsEnd item
  closes : ∀ item, last = .ok item → IsEnd item

/-- What one pull does to a stage that is live or dead: a dead stage yields nothing and
stays dead, and a live one yields something and stays live unless this was the last. -/
structure Fuses (stage : Stage σ α) (IsEnd : α → Prop) (Live Dead : σ → Prop) : Prop where
  dead : ∀ s, Dead s → ∃ t, stage.next s = (t, none) ∧ Dead t
  live : ∀ s, Live s → ∃ t item?, stage.next s = (t, some item?) ∧
    ((∃ item, item? = .ok item ∧ ¬ IsEnd item ∧ Live t) ∨
      (Dead t ∧ ∀ item, item? = .ok item → IsEnd item))

/-- A dead stage yields nothing, however often it is pulled. -/
theorem Fuses.pull_of_dead (h : stage.Fuses IsEnd Live Dead) {s : σ} (hs : Dead s) (n : Nat) :
    stage.pull n s = none := by
  induction n generalizing s with
  | zero =>
    obtain ⟨t, hnext, -⟩ := h.dead s hs
    rw [pull, hnext]
  | succ n ih =>
    obtain ⟨t, hnext, ht⟩ := h.dead s hs
    rw [pull, hnext]
    exact ih ht

/-- A last item, behind which the stage is dead. -/
theorem Fuses.ends_of_last (h : stage.Fuses IsEnd Live Dead) {s t : σ} {last : Except Fault α}
    (hnext : stage.next s = (t, some last)) (ht : Dead t)
    (hlast : ∀ item, last = .ok item → IsEnd item) : stage.Ends IsEnd s [] last := by
  refine ⟨fun n => ?_, by simp, hlast⟩
  cases n with
  | zero =>
    rw [pull, hnext]
    rfl
  | succ n =>
    rw [pull, hnext]
    exact h.pull_of_dead ht n

/-- One more item in front. -/
theorem Ends.cons {s t : σ} {item : α} {items : List α} {last : Except Fault α}
    (h : stage.Ends IsEnd t items last) (hnext : stage.next s = (t, some (.ok item)))
    (hitem : ¬ IsEnd item) : stage.Ends IsEnd s (item :: items) last := by
  refine ⟨fun n => ?_, List.forall_mem_cons.2 ⟨hitem, h.open_before⟩, h.closes⟩
  cases n with
  | zero =>
    rw [pull, hnext]
    rfl
  | succ n =>
    rw [pull, hnext]
    exact h.pulls n

/-- A stage that fuses ends, after no more items than its bound says. -/
theorem Fuses.exists_ends (h : stage.Fuses IsEnd Live Dead) {s : σ} (hs : Live s) :
    ∃ items last, stage.Ends IsEnd s items last ∧ items.length + 1 ≤ stage.remaining s := by
  -- The recursion is on the bound that every pull lowers.
  induction hn : stage.remaining s using Nat.strongRecOn generalizing s with
  | ind n ih =>
    subst hn
    obtain ⟨t, item?, hnext, ⟨item, rfl, hitem, ht⟩ | ⟨ht, hlast⟩⟩ := h.live s hs
    · have hlt := stage.remaining_lt hnext
      obtain ⟨items, last, hends, hlength⟩ := ih _ hlt ht rfl
      refine ⟨item :: items, last, hends.cons hnext hitem, ?_⟩
      rw [List.length_cons]
      omega
    · have hlt := stage.remaining_lt hnext
      refine ⟨[], item?, h.ends_of_last hnext ht hlast, ?_⟩
      rw [List.length_nil]
      omega

/-- Within so many items pulls of a stage come to an end, and it is the only one. -/
def EndsWithin (stage : Stage σ α) (IsEnd : α → Prop) (bound : Nat) (s : σ) : Prop :=
  ∃ items last, stage.Ends IsEnd s items last ∧ items.length + 1 ≤ bound

theorem Fuses.endsWithin (h : stage.Fuses IsEnd Live Dead) {s : σ} (hs : Live s) {bound : Nat}
    (hbound : stage.remaining s ≤ bound) : stage.EndsWithin IsEnd bound s := by
  obtain ⟨items, last, hends, hlength⟩ := h.exists_ends hs
  exact ⟨items, last, hends, Nat.le_trans hlength hbound⟩

end Stage

/-! ## The scan -/

namespace Scan

variable {table : LineTable} {s t : Scan}

/-- The piece at the end of the text. -/
def IsLast (piece : Piece) : Prop :=
  piece.kind = .token .endOfText

/-- What opens or closes something is not the end of the text. -/
theorem Effect.not_isLast {piece : Piece} (h : Effect table s t (some piece)) :
    ¬ IsLast piece := by
  intro hlast
  cases h.delimits hlast rfl

/-- A step with a fault ends the scan. -/
theorem isDone_of_step_error {fault : Fault} (h : s.step table = (t, some (.error fault))) :
    t.isDone = true := by
  rcases cases_of_step_error h with ⟨-, -, rfl⟩ | ⟨_, _, -, -, -, rfl⟩ | ⟨_, _, _, -, -, rfl⟩ <;> rfl

/-- A pull of a scan that is not done: a piece before the end, or the last item. -/
theorem exists_of_next (table : LineTable) (hs : s.isDone = false) :
    ∃ t item?, s.next table = (t, some item?) ∧
      ((∃ piece, item? = .ok piece ∧ ¬ IsLast piece ∧ t.isDone = false) ∨
        (t.isDone = true ∧ ∀ piece, item? = .ok piece → IsLast piece)) := by
  fun_induction next table s with
  | case1 s hdone => simp [hs] at hdone
  | case2 s hdone t item? hstep =>
    refine ⟨t, item?, rfl, ?_⟩
    cases item? with
    | error fault =>
      exact .inr ⟨isDone_of_step_error hstep, fun piece hpiece => by cases hpiece⟩
    | ok piece =>
      rcases effect_of_step hs hstep with ⟨-, hkind, rfl⟩ | ⟨ht, he, -⟩
      · refine .inr ⟨rfl, fun piece' hpiece => ?_⟩
        obtain rfl := Except.ok.inj hpiece
        exact hkind
      · exact .inl ⟨piece, rfl, he.not_isLast, ht⟩
  | case3 s hdone t hstep ih =>
    have hsame := (step_quiet table hstep).2
    exact ih (hsame.trans hs)

theorem fuses (table : LineTable) :
    (stage table).Fuses IsLast (fun s => s.isDone = false) (fun s => s.isDone = true) where
  dead s hs := ⟨s, next_of_isDone table hs, hs⟩
  live _ hs := exists_of_next table hs

end Scan

/-! ## The assembly of strings -/

/-- The token at the end of the text. -/
def Token.IsLast (token : Token) : Prop :=
  token.kind = .endOfText

namespace Assembly

variable {table : LineTable}

/-- Neither the assembly nor its scan is done. -/
def IsLive (a : Assembly) : Prop :=
  a.isDone = false ∧ a.scan.isDone = false

/-- The assembly has come to a fault of its own, or its scan is done. -/
def IsDead (a : Assembly) : Prop :=
  a.isDone = true ∨ a.scan.isDone = true

theorem exists_of_isDead (table : LineTable) {a : Assembly} (h : a.IsDead) :
    ∃ a', a.next table = (a', none) ∧ a'.IsDead := by
  unfold next
  by_cases hdone : a.isDone = true
  · rw [if_pos hdone]
    exact ⟨a, rfl, h⟩
  · have hscan : a.scan.isDone = true := h.resolve_left hdone
    rw [if_neg hdone, Scan.next_of_isDone table hscan]
    exact ⟨a, rfl, h⟩

/-- Behind a string that is complete the scan goes on. -/
theorem isDone_of_parts {start stop : Piece} {s t : Scan} {text : List Char}
    (h : parts table start false s = (t, .ok (text, stop))) : t.isDone = false := by
  obtain ⟨pieces, m, -, -, -, hm, hstep, hstop⟩ := run_of_parts h
  rcases Scan.effect_of_step hm hstep with ⟨-, hkind, -⟩ | ⟨ht, -, -⟩
  · cases hstop.symm.trans hkind
  · exact ht

/-- The token that begins with a piece, if there is one: it is the last one if the piece
is, and otherwise the scan goes on. -/
theorem of_tokenOf {piece : Piece} {s t : Scan} {token : Token}
    (h : tokenOf table piece s = (t, .ok token)) :
    (token.IsLast ↔ Scan.IsLast piece) ∧ (s.isDone = false → t.isDone = false) ∧
      (Scan.IsLast piece → t = s) := by
  unfold Token.IsLast Scan.IsLast
  unfold tokenOf at h
  split at h
  · next kind hkind =>
    obtain ⟨rfl, hout⟩ := Prod.mk.inj h
    obtain rfl := Except.ok.inj hout
    refine ⟨?_, fun hs => hs, fun _ => rfl⟩
    rw [hkind, PieceKind.token.injEq]
  · next style raw hkind =>
    have hnot : piece.kind ≠ .token .endOfText := by
      rw [hkind]
      exact PieceKind.noConfusion
    split at h
    · cases h
    next text stop hparts =>
    split at h
    · cases h
    next joined hliteral =>
    obtain ⟨rfl, hout⟩ := Prod.mk.inj h
    obtain rfl := Except.ok.inj hout
    have hstring := kind_of_literal hliteral
    have ht := isDone_of_parts hparts
    refine ⟨?_, fun _ => ht, fun hlast => absurd hlast hnot⟩
    rw [hstring]
    exact ⟨fun hend => (Kind.noConfusion hend), fun hend => absurd hend hnot⟩
  all_goals cases h

theorem exists_of_isLive (table : LineTable) {a : Assembly} (h : a.IsLive) :
    ∃ a' item?, a.next table = (a', some item?) ∧
      ((∃ token, item? = .ok token ∧ ¬ token.IsLast ∧ a'.IsLive) ∨
        (a'.IsDead ∧ ∀ token : Token, item? = .ok token → token.IsLast)) := by
  obtain ⟨hdone, hscan⟩ := h
  obtain ⟨s, item?, hnext, hcases⟩ := Scan.exists_of_next table hscan
  unfold next
  rw [if_neg (by simp [hdone]), hnext]
  cases item? with
  | error fault =>
    rcases hcases with ⟨piece, hpiece, -⟩ | ⟨hs, -⟩
    · cases hpiece
    · exact ⟨_, _, rfl, .inr ⟨.inr hs, fun token htoken => by cases htoken⟩⟩
  | ok piece =>
    dsimp only
    rcases htoken : tokenOf table piece s with ⟨t, fault | token⟩
    · exact ⟨_, _, rfl, .inr ⟨.inl rfl, fun token htoken => by cases htoken⟩⟩
    · obtain ⟨hlast, hlive, hsame⟩ := of_tokenOf htoken
      refine ⟨_, _, rfl, ?_⟩
      rcases hcases with ⟨piece', hpiece, hnot, hs⟩ | ⟨hs, hend⟩
      · obtain rfl := Except.ok.inj hpiece
        exact .inl ⟨token, rfl, fun hl => hnot (hlast.1 hl), hdone, hlive hs⟩
      · have hpiece : Scan.IsLast piece := hend piece rfl
        refine .inr ⟨.inr ?_, fun token' htoken' => ?_⟩
        · rw [hsame hpiece]
          exact hs
        · obtain rfl := Except.ok.inj htoken'
          exact hlast.2 hpiece

theorem fuses (table : LineTable) : (stage table).Fuses Token.IsLast IsLive IsDead where
  dead _ h := exists_of_isDead table h
  live _ h := exists_of_isLive table h

end Assembly

/-! ## The checked stream -/

namespace Stream

variable {table : LineTable}

/-- The stream has not come to a fault, and its assembly is live. -/
def IsLive (s : Stream) : Prop :=
  s.isDone = false ∧ s.assembly.IsLive

/-- The stream has come to a fault, or its assembly is dead. -/
def IsDead (s : Stream) : Prop :=
  s.isDone = true ∨ s.assembly.IsDead

theorem exists_of_isDead (table : LineTable) {s : Stream} (h : s.IsDead) :
    ∃ t, s.next table = (t, none) ∧ t.IsDead := by
  by_cases hdone : s.isDone = true
  · rw [next, if_pos hdone]
    exact ⟨s, rfl, h⟩
  · obtain ⟨a, hnext, ha⟩ := Assembly.exists_of_isDead table (h.resolve_left hdone)
    rw [next_eq s (by simpa using hdone), hnext]
    exact ⟨_, rfl, .inr ha⟩

/-- The last token is not dropped. -/
theorem not_isLast_of_isFiltered {token : Token} (h : token.kind.isFiltered = true) :
    ¬ token.IsLast := by
  intro hlast
  rw [hlast] at h
  cases h

theorem exists_of_isLive (table : LineTable) {s : Stream} (h : s.IsLive) :
    ∃ t item?, s.next table = (t, some item?) ∧
      ((∃ token, item? = .ok token ∧ ¬ token.IsLast ∧ t.IsLive) ∨
        (t.IsDead ∧ ∀ token : Token, item? = .ok token → token.IsLast)) := by
  fun_induction next table s with
  | case1 s hdone => simp [h.1] at hdone
  | case2 s hdone a hpull =>
    obtain ⟨a', item?, hnext, -⟩ := Assembly.exists_of_isLive table h.2
    cases hpull.symm.trans hnext
  | case3 s hdone a fault hpull =>
    exact ⟨_, _, rfl, .inr ⟨.inl rfl, fun token htoken => by cases htoken⟩⟩
  | case4 s hdone a token hpull hfiltered ih =>
    obtain ⟨a', item?, hnext, hcases⟩ := Assembly.exists_of_isLive table h.2
    obtain ⟨rfl, hitem⟩ := Prod.mk.inj (hpull.symm.trans hnext)
    obtain rfl := Option.some.inj hitem
    apply ih
    rcases hcases with ⟨-, -, -, ha⟩ | ⟨-, hend⟩
    · exact ⟨h.1, ha⟩
    · exact absurd (hend token rfl) (not_isLast_of_isFiltered hfiltered)
  | case5 s hdone a token hpull hkept fault hcheck =>
    exact ⟨_, _, rfl, .inr ⟨.inl rfl, fun token htoken => by cases htoken⟩⟩
  | case6 s hdone a token hpull hkept blocks hcheck scan =>
    obtain ⟨a', item?, hnext, hcases⟩ := Assembly.exists_of_isLive table h.2
    obtain ⟨rfl, hitem⟩ := Prod.mk.inj (hpull.symm.trans hnext)
    obtain rfl := Option.some.inj hitem
    refine ⟨_, _, rfl, ?_⟩
    -- The check writes to the blocks, which the marks of being done do not look at.
    rcases hcases with ⟨token', htoken, hnot, ha⟩ | ⟨ha, hend⟩
    · obtain rfl := Except.ok.inj htoken
      exact .inl ⟨token, rfl, hnot, h.1, ha⟩
    · exact .inr ⟨.inr ha, hend⟩

theorem fuses (table : LineTable) : (stage table).Fuses Token.IsLast IsLive IsDead where
  dead _ h := exists_of_isDead table h
  live _ h := exists_of_isLive table h

end Stream

/-! ## Lexers -/

namespace Lexer

theorem fuses :
    stage.Fuses Token.IsLast (fun lexer => lexer.stream.IsLive)
      (fun lexer => lexer.stream.IsDead) where
  dead lexer h := by
    obtain ⟨t, hnext, ht⟩ := Stream.exists_of_isDead lexer.source.table h
    refine ⟨{ lexer with stream := t }, ?_, ht⟩
    show lexer.next = _
    rw [next, hnext]
  live lexer h := by
    obtain ⟨t, item?, hnext, hcases⟩ := Stream.exists_of_isLive lexer.source.table h
    show ∃ t item?, lexer.next = (t, some item?) ∧ _
    rw [next, hnext]
    cases item? with
    | ok token => exact ⟨_, _, rfl, hcases⟩
    | error fault =>
      -- A fault is located, and remains one.
      refine ⟨_, _, rfl, .inr ⟨?_, fun token htoken => by cases htoken⟩⟩
      rcases hcases with ⟨token, htoken, -⟩ | ⟨ht, -⟩
      · cases htoken
      · exact ht

end Lexer

/-- A text has no more characters than bytes. -/
theorem Text.length_le_byteSize (cs : List Char) : cs.length ≤ byteSize cs := by
  induction cs with
  | nil => exact Nat.le_refl 0
  | cons c cs ih =>
    have hpos := c.utf8Size_pos
    rw [List.length_cons, byteSize_cons]
    omega

/-- Each stage of a source comes to its end after no more items than the text has bytes
and one.  The last item is the only fault or the only end of the text, and behind it
every pull yields nothing. -/
theorem Source.stages_end (source : Source) :
    (Scan.stage source.table).EndsWithin Scan.IsLast (byteSize source.text + 1)
        (.ofText source.text) ∧
      (Assembly.stage source.table).EndsWithin Token.IsLast (byteSize source.text + 1)
        { scan := .ofText source.text } ∧
      (Stream.stage source.table).EndsWithin Token.IsLast (byteSize source.text + 1)
        (.ofText source.text) ∧
      Lexer.stage.EndsWithin Token.IsLast (byteSize source.text + 1) (.ofSource source) := by
  have hbound : source.text.length + 1 ≤ byteSize source.text + 1 :=
    Nat.succ_le_succ (length_le_byteSize source.text)
  refine ⟨?_, ?_, ?_, ?_⟩
  · exact (Scan.fuses source.table).endsWithin rfl hbound
  · exact (Assembly.fuses source.table).endsWithin ⟨rfl, rfl⟩ hbound
  · exact (Stream.fuses source.table).endsWithin ⟨rfl, rfl, rfl⟩ hbound
  · exact Lexer.fuses.endsWithin ⟨rfl, rfl, rfl⟩ hbound

end BlockLexer
