import BlockLexer.Lexer

/-!
# Pulls in a row

`Stage.collect` pulls until nothing comes any more.  This module says the same
without recursion: `Stage.Yields` is a row of pulls that all yield an item, and
`Stage.collect_eq_ok_iff` says that a stage collects exactly the items of a row
behind which nothing comes.
-/

namespace BlockLexer

/-- A result that a function was applied to comes from a result. -/
theorem exists_of_map_eq_ok {α β : Type} {f : α → β} {r : Except Fault α} {b : β}
    (h : r.map f = .ok b) : ∃ a, r = .ok a ∧ f a = b := by
  cases r with
  | error fault => cases h
  | ok a => exact ⟨a, rfl, Except.ok.inj h⟩

/-- Two results in a row are a result if both are. -/
theorem exists_of_bind_eq_ok {α β : Type} {r : Except Fault α} {f : α → Except Fault β} {b : β}
    (h : r.bind f = .ok b) : ∃ a, r = .ok a ∧ f a = .ok b := by
  cases r with
  | error fault => cases h
  | ok a => exact ⟨a, rfl, h⟩

/-- A fault of a result that is changed is a fault of the result. -/
theorem eq_error_of_map_eq_error {α β : Type} {f : α → β} {r : Except Fault α} {fault : Fault}
    (h : r.map f = .error fault) : r = .error fault := by
  cases r with
  | error other => rw [Except.error.inj h]
  | ok a => cases h

/-- The fault of two results in a row is that of the first one, or that of the second one. -/
theorem error_or_of_bind_eq_error {α β : Type} {r : Except Fault α} {f : α → Except Fault β}
    {fault : Fault} (h : r.bind f = .error fault) :
    r = .error fault ∨ ∃ a, r = .ok a ∧ f a = .error fault := by
  cases r with
  | error other => exact .inl (congrArg _ (Except.error.inj h))
  | ok a => exact .inr ⟨a, rfl, h⟩

namespace Stage

variable {σ α : Type} {stage : Stage σ α}

/-- The items that pulls in a row yield, and the state behind them. -/
inductive Yields (stage : Stage σ α) : σ → List α → σ → Prop
  | none (s : σ) : Yields stage s [] s
  | pull {s t u : σ} {item : α} {items : List α} (first : stage.next s = (t, some (.ok item)))
      (more : Yields stage t items u) : Yields stage s (item :: items) u

theorem collect_of_none {s t : σ} (h : stage.next s = (t, none)) : stage.collect s = .ok [] := by
  unfold collect
  rw [items_of_none h]
  rfl

theorem collect_of_error {s t : σ} {fault : Fault} (h : stage.next s = (t, some (.error fault))) :
    stage.collect s = .error fault := by
  unfold collect
  rw [items_of_error h]
  rfl

theorem collect_of_ok {s t : σ} {item : α} (h : stage.next s = (t, some (.ok item))) :
    stage.collect s = (stage.collect t).map (item :: ·) := by
  unfold collect
  rw [items_of_ok h]
  rfl

/-- What is collected depends on the next pull only. -/
theorem collect_congr {s t : σ} (h : stage.next s = stage.next t) :
    stage.collect s = stage.collect t := by
  match hpull : stage.next t with
  | (u, none) => rw [collect_of_none (h.trans hpull), collect_of_none hpull]
  | (u, some (.error fault)) => rw [collect_of_error (h.trans hpull), collect_of_error hpull]
  | (u, some (.ok item)) => rw [collect_of_ok (h.trans hpull), collect_of_ok hpull]

/-- What a row of pulls yields is collected, if nothing comes behind it. -/
theorem Yields.collect {s t u : σ} {items : List α} (h : stage.Yields s items t)
    (hend : stage.next t = (u, Option.none)) : stage.collect s = .ok items := by
  induction h with
  | none s => exact collect_of_none hend
  | pull first _ ih =>
    rw [collect_of_ok first, ih hend]
    rfl

/-- What is collected is yielded by a row of pulls behind which nothing comes. -/
theorem yields_of_collect {s : σ} {items : List α} (h : stage.collect s = .ok items) :
    ∃ t u, stage.Yields s items t ∧ stage.next t = (u, none) := by
  -- The recursion is on the bound that every pull lowers.
  induction hn : stage.remaining s using Nat.strongRecOn generalizing s items with
  | ind n ih =>
    match hpull : stage.next s with
    | (t, none) =>
      rw [collect_of_none hpull] at h
      obtain rfl : [] = items := Except.ok.inj h
      exact ⟨s, t, .none s, hpull⟩
    | (t, some (.error fault)) =>
      rw [collect_of_error hpull] at h
      cases h
    | (t, some (.ok item)) =>
      rw [collect_of_ok hpull] at h
      obtain ⟨more, hmore, rfl⟩ := exists_of_map_eq_ok h
      have hlt : stage.remaining t < n := hn ▸ stage.remaining_lt hpull
      obtain ⟨last, u, hrow, hend⟩ := ih _ hlt hmore rfl
      exact ⟨last, u, .pull hpull hrow, hend⟩

/-- Where collecting fails, a row of pulls comes to the fault. -/
theorem yields_of_collect_eq_error {s : σ} {fault : Fault} (h : stage.collect s = .error fault) :
    ∃ items t u, stage.Yields s items t ∧ stage.next t = (u, some (.error fault)) := by
  induction hn : stage.remaining s using Nat.strongRecOn generalizing s with
  | ind n ih =>
    match hpull : stage.next s with
    | (t, none) =>
      rw [collect_of_none hpull] at h
      cases h
    | (t, some (.error fault')) =>
      rw [collect_of_error hpull] at h
      obtain rfl := Except.error.inj h
      exact ⟨[], s, t, .none s, hpull⟩
    | (t, some (.ok item)) =>
      rw [collect_of_ok hpull] at h
      have hlt : stage.remaining t < n := hn ▸ stage.remaining_lt hpull
      obtain ⟨items, last, u, hrow, hend⟩ := ih _ hlt (eq_error_of_map_eq_error h) rfl
      exact ⟨item :: items, last, u, .pull hpull hrow, hend⟩

theorem collect_eq_ok_iff {s : σ} {items : List α} :
    stage.collect s = .ok items ↔ ∃ t u, stage.Yields s items t ∧ stage.next t = (u, none) :=
  ⟨yields_of_collect, fun ⟨_, _, hrow, hend⟩ => hrow.collect hend⟩

end Stage

end BlockLexer
