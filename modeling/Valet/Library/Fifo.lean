import Mathlib.Tactic.TypeStar
import Mathlib.Data.List.Basic

/-!
# Bounded queues that answer calls

A component that is called one call at a time is a function from its state and
the call to the answer and the next state.  What a caller sees of it is the list
of answers, so two components agree on a list of calls when they answer it
alike.  The bounded FIFO is what a queue of a given capacity is meant to be.
-/

namespace Valet.Library

section Answers

variable {State Other Call Answer : Type*}

/-- The answers to a list of calls, in order. -/
def answers (respond : State → Call → Answer × State) : State → List Call → List Answer
  | _, [] => []
  | state, call :: rest => (respond state call).1 :: answers respond (respond state call).2 rest

/-- The state that a list of calls leaves. -/
def afterCalls (respond : State → Call → Answer × State) : State → List Call → State
  | state, [] => state
  | state, call :: rest => afterCalls respond (respond state call).2 rest

variable (respond : State → Call → Answer × State) (answering : Other → Call → Answer × Other)

theorem answers_append (state : State) (calls more : List Call) :
    answers respond state (calls ++ more) =
      answers respond state calls ++ answers respond (afterCalls respond state calls) more := by
  induction calls generalizing state with
  | nil => rfl
  | cons call rest ih =>
      simp only [List.cons_append, answers, afterCalls, ih]

theorem afterCalls_append (state : State) (calls more : List Call) :
    afterCalls respond state (calls ++ more) =
      afterCalls respond (afterCalls respond state calls) more := by
  induction calls generalizing state with
  | nil => rfl
  | cons call rest ih => exact ih _

@[simp] theorem answers_length (state : State) (calls : List Call) :
    (answers respond state calls).length = calls.length := by
  induction calls generalizing state with
  | nil => rfl
  | cons call rest ih => simp only [answers, List.length_cons, ih]

/-- Calls that are answered alike in related states, and lead to related states again, are
answered alike throughout. -/
theorem answers_eq_of_related (Related : State → Other → Prop) (Admits : Call → Prop)
    (alike : ∀ {state other call}, Related state other → Admits call →
      (respond state call).1 = (answering other call).1 ∧
        Related (respond state call).2 (answering other call).2)
    {state : State} {other : Other} {calls : List Call} (related : Related state other)
    (admits : ∀ call ∈ calls, Admits call) :
    answers respond state calls = answers answering other calls := by
  induction calls generalizing state other with
  | nil => rfl
  | cons call rest ih =>
      obtain ⟨answer, next⟩ := alike related (admits call List.mem_cons_self)
      have later := ih next fun later member => admits later (List.mem_cons_of_mem _ member)
      simp only [answers, answer, later]

variable {respond answering}

/-- Agreement on two lists of calls, one after the other, splits. -/
theorem answers_append_eq {state : State} {other : Other} {calls more : List Call}
    (same : answers respond state (calls ++ more) = answers answering other (calls ++ more)) :
    answers respond (afterCalls respond state calls) more =
      answers answering (afterCalls answering other calls) more := by
  rw [answers_append, answers_append] at same
  exact (List.append_inj same (by rw [answers_length, answers_length])).2

end Answers

/-- The calls on a queue. -/
inductive QueueCall (α : Type*) where
  | put (value : α)
  | get

/-- The answers of a queue; a `get` hands out the content of a cell. -/
inductive QueueAnswer (α : Type*) where
  | stored
  | full
  | got (cell : Option α)
  | empty

namespace Fifo

variable {α : Type*}

/-- The queue that keeps up to `capacity` values in order. -/
def respond (capacity : Nat) (values : List α) : QueueCall α → QueueAnswer α × List α
  | .put value =>
      if values.length < capacity then
        (.stored, values ++ [value])
      else
        (.full, values)
  | .get =>
      match values with
      | [] => (.empty, [])
      | value :: rest => (.got (some value), rest)

section

variable {capacity : Nat}

theorem respond_put_room {values : List α} (room : values.length < capacity) (value : α) :
    respond capacity values (.put value) = (.stored, values ++ [value]) := if_pos room

theorem respond_put_full {values : List α} (full : ¬ values.length < capacity) (value : α) :
    respond capacity values (.put value) = (.full, values) := if_neg full

end

/-- What a queue hands out when it is emptied is what it held. -/
theorem eq_of_drains (capacity : Nat) {values others : List α}
    (alike : ∀ count, answers (respond capacity) values (List.replicate count .get) =
      answers (respond capacity) others (List.replicate count .get)) : values = others := by
  induction values generalizing others with
  | nil =>
      cases others with
      | nil => rfl
      | cons other rest => cases alike 1
  | cons value values ih =>
      cases others with
      | nil => cases alike 1
      | cons other others =>
          have first : value = other := by
            have one := alike 1
            simp only [List.replicate_one, answers, respond] at one
            cases one
            rfl
          have rest : values = others := by
            apply ih
            intro count
            have more := alike (count + 1)
            simp only [List.replicate_succ, answers, respond] at more
            exact (List.cons.inj more).2
          rw [first, rest]

end Fifo

end Valet.Library
