import BlockLexer.Fault

/-!
# Stages

A stage is pulled: every pull yields an item, a fault, or nothing any more.
`Stage` asks for a bound on the pulls that are left, so that a stage can be
pulled until it ends.

* `Stage.items` pulls up to the first fault or the end;
* `Stage.collect` is the list of all items, or the fault.
-/

namespace BlockLexer

/-- A way to pull items out of a state. -/
structure Stage (σ α : Type) where
  /-- One pull: the state behind it, and what it yields. -/
  next : σ → σ × Option (Except Fault α)
  /-- How many pulls may yield something, at most. -/
  remaining : σ → Nat
  /-- Every pull that yields something comes nearer to the end. -/
  remaining_lt : ∀ {s s' item}, next s = (s', some item) → remaining s' < remaining s

namespace Stage

variable {σ α : Type}

/-- Pulls up to the first fault or the end.  The fault is the last of the items. -/
def items (stage : Stage σ α) (s : σ) : σ × List (Except Fault α) :=
  match _ : stage.next s with
  | (s', none) => (s', [])
  | (s', some (.error fault)) => (s', [.error fault])
  | (s', some (.ok item)) =>
    let (last, more) := stage.items s'
    (last, .ok item :: more)
termination_by stage.remaining s
decreasing_by exact stage.remaining_lt ‹_›

theorem items_of_none {stage : Stage σ α} {s s' : σ} (h : stage.next s = (s', none)) :
    stage.items s = (s', []) := by
  rw [items]
  split <;> simp_all

theorem items_of_error {stage : Stage σ α} {s s' : σ} {fault : Fault}
    (h : stage.next s = (s', some (.error fault))) :
    stage.items s = (s', [.error fault]) := by
  rw [items]
  split <;> simp_all

theorem items_of_ok {stage : Stage σ α} {s s' : σ} {item : α}
    (h : stage.next s = (s', some (.ok item))) :
    stage.items s = ((stage.items s').1, .ok item :: (stage.items s').2) := by
  rw [items]
  split <;> simp_all

/-- A list of items, or the first fault in it. -/
def gather : List (Except Fault α) → Except Fault (List α)
  | [] => .ok []
  | .error fault :: _ => .error fault
  | .ok item :: more => (gather more).map (item :: ·)

/-- All items of a stage, or the fault that it ends with. -/
def collect (stage : Stage σ α) (s : σ) : Except Fault (List α) :=
  gather (stage.items s).2

end Stage

end BlockLexer
