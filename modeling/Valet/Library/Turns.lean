import Mathlib.Tactic.TypeStar
import Mathlib.Logic.Basic

/-!
# Loops that depend on outside choices

One turn of a loop returns, goes on to the next turn, or hangs.  What it does
may depend on a choice from outside, a new one for every turn.  A loop returns
under a sequence of choices when some turn does; it can be kept going when some
sequence never lets it return.
-/

namespace Valet.Library

/-- How a turn of a loop ends. -/
inductive Turn (State : Type*) where
  | returned
  | again (state : State)
  | hung

variable {State Choice : Type*} {turn : State → Choice → Turn State}

/-- The loop returns within so many turns. -/
def ReturnsWithin (turn : State → Choice → Turn State) : (Nat → Choice) → Nat → State → Prop
  | _, 0, _ => False
  | choices, count + 1, state =>
      match turn state (choices 0) with
      | .returned => True
      | .again next => ReturnsWithin turn (fun later => choices (later + 1)) count next
      | .hung => False

def Returns (turn : State → Choice → Turn State) (choices : Nat → Choice) (state : State) : Prop :=
  ∃ count, ReturnsWithin turn choices count state

/-- Some choices never let the loop return. -/
def KeptGoing (turn : State → Choice → Turn State) (state : State) : Prop :=
  ∃ choices, ¬ Returns turn choices state

theorem keptGoing_iff {state : State} :
    KeptGoing turn state ↔ ¬ ∀ choices, Returns turn choices state := not_forall.symm

theorem returns_of_returned {choices : Nat → Choice} {state : State}
    (ends : turn state (choices 0) = .returned) : Returns turn choices state := by
  refine ⟨1, ?_⟩
  rw [ReturnsWithin, ends]
  trivial

theorem returns_of_again {choices : Nat → Choice} {state next : State}
    (goes : turn state (choices 0) = .again next)
    (later : Returns turn (fun later => choices (later + 1)) next) :
    Returns turn choices state := by
  obtain ⟨count, within⟩ := later
  refine ⟨count + 1, ?_⟩
  rw [ReturnsWithin, goes]
  exact within

/-- One choice now and a way to keep the loop going afterwards. -/
theorem KeptGoing.of_again {state next : State} {choice : Choice}
    (goes : turn state choice = .again next) (kept : KeptGoing turn next) :
    KeptGoing turn state := by
  obtain ⟨choices, never⟩ := kept
  refine ⟨fun count => Nat.casesOn count choice choices, ?_⟩
  rintro ⟨count, within⟩
  cases count with
  | zero => exact within
  | succ count =>
      have first : turn state (Nat.casesOn 0 choice choices) = .again next := goes
      rw [ReturnsWithin, first] at within
      exact never ⟨count, within⟩

/-- A choice that leads from each state of an invariant to another keeps the loop going. -/
theorem keptGoing_of_invariant (choice : Choice) (Inv : State → Prop)
    (goes : ∀ state, Inv state → ∃ next, turn state choice = .again next ∧ Inv next)
    {state : State} (holds : Inv state) : KeptGoing turn state := by
  refine ⟨fun _ => choice, ?_⟩
  rintro ⟨count, within⟩
  induction count generalizing state with
  | zero => exact within
  | succ count ih =>
      obtain ⟨next, again, kept⟩ := goes state holds
      rw [ReturnsWithin, again] at within
      exact ih kept within

end Valet.Library
