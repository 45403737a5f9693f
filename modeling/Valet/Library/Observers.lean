import Valet.Library.Runs

/-!
# Watching a run

A record that is kept beside the state, and that no step looks at, says what a
run has done so far.  Whether a step is possible does not depend on it.
-/

namespace Valet.Library

variable {State Label Record : Type*}

/-- Take the step and write it down. -/
def watch (step : State → Label → Option State) (note : Record → State → Label → Record)
    (watched : State × Record) (label : Label) : Option (State × Record) :=
  (step watched.1 label).map fun next => (next, note watched.2 watched.1 label)

variable {step : State → Label → Option State} {note : Record → State → Label → Record}

theorem watch_eq_some {watched next : State × Record} {label : Label} :
    watch step note watched label = some next ↔
      step watched.1 label = some next.1 ∧ note watched.2 watched.1 label = next.2 := by
  unfold watch
  rw [Option.map_eq_some_iff]
  constructor
  · rintro ⟨state, edge, rfl⟩
    exact ⟨edge, rfl⟩
  · rintro ⟨edge, written⟩
    exact ⟨next.1, edge, Prod.ext rfl written⟩

/-- What is watched is a run. -/
theorem exec_of_watch {first last : State × Record} {labels : List Label}
    (ran : exec (watch step note) first labels = some last) :
    exec step first.1 labels = some last.1 := by
  induction labels generalizing first with
  | nil =>
      cases ran
      rfl
  | cons label rest ih =>
      obtain ⟨middle, edge, tail⟩ := Option.bind_eq_some_iff.mp ran
      rw [exec, (watch_eq_some.mp edge).1]
      exact ih tail

end Valet.Library
