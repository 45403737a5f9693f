import Mathlib.Tactic.TypeStar
import Mathlib.Data.List.Defs

/-!
# Guarded runs of a partial step function

A labelled system is a partial function from a state and a label to the next
state.  A guard is a predicate on a state and the label about to be taken.  The
runs whose every step meets the guard carry the invariants that one guarded
step preserves.
-/

namespace Valet.Library

variable {State Label : Type*}

/-- Execute the labels in order; `none` when one of them is not enabled. -/
def exec (step : State → Label → Option State) : State → List Label → Option State
  | state, [] => some state
  | state, label :: rest => (step state label).bind fun next => exec step next rest

/-- A finite run along which every step meets the guard. -/
inductive Run (step : State → Label → Option State) (Guard : State → Label → Prop) :
    State → List Label → State → Prop where
  | refl (state : State) : Run step Guard state [] state
  | head {first middle last : State} {label : Label} {rest : List Label}
      (guard : Guard first label) (edge : step first label = some middle)
      (tail : Run step Guard middle rest last) :
      Run step Guard first (label :: rest) last

/-- The guard that admits every step. -/
def always : State → Label → Prop := fun _ _ => True

namespace Run

variable {step : State → Label → Option State} {Guard Weaker : State → Label → Prop}

theorem mono (weaken : ∀ state label, Guard state label → Weaker state label)
    {first last : State} {labels : List Label}
    (run : Run step Guard first labels last) : Run step Weaker first labels last := by
  induction run with
  | refl state => exact .refl state
  | head guard edge _ ih => exact .head (weaken _ _ guard) edge ih

theorem trans {first middle last : State} {labels more : List Label}
    (start : Run step Guard first labels middle)
    (finish : Run step Guard middle more last) :
    Run step Guard first (labels ++ more) last := by
  induction start with
  | refl => exact finish
  | head guard edge _ ih => exact .head guard edge (ih finish)

/-- What one guarded step preserves, a whole guarded run preserves. -/
theorem preserves {Inv : State → Prop}
    (keep : ∀ {state next : State} {label : Label}, Inv state → Guard state label →
      step state label = some next → Inv next)
    {first last : State} {labels : List Label}
    (run : Run step Guard first labels last) (holds : Inv first) : Inv last := by
  induction run with
  | refl => exact holds
  | head guard edge _ ih => exact ih (keep holds guard edge)

/-- Steps that each cost a part of a potential that no step restores are bounded by it. -/
theorem spends {Inv : State → Prop} {counted : Label → Bool} {potential : State → Nat}
    (keep : ∀ {state next : State} {label : Label}, Inv state → Guard state label →
      step state label = some next → Inv next)
    (spend : ∀ {state next : State} {label : Label}, Inv state → Guard state label →
      step state label = some next →
        (if counted label then 1 else 0) + potential next ≤ potential state)
    {first last : State} {labels : List Label}
    (run : Run step Guard first labels last) (holds : Inv first) :
    labels.countP counted + potential last ≤ potential first := by
  induction run with
  | refl => exact Nat.le_of_eq (Nat.zero_add _)
  | @head first middle last label rest guard edge _ ih =>
      have paid := spend holds guard edge
      have later := ih (keep holds guard edge)
      rw [List.countP_cons]
      omega

theorem exec_eq {first last : State} {labels : List Label}
    (run : Run step Guard first labels last) : exec step first labels = some last := by
  induction run with
  | refl => rfl
  | head guard edge _ ih => simp only [exec, edge, Option.bind_some, ih]

end Run

/-- An execution is a run of the unguarded system. -/
theorem run_of_exec {step : State → Label → Option State} {first last : State}
    {labels : List Label} (ran : exec step first labels = some last) :
    Run step always first labels last := by
  induction labels generalizing first with
  | nil =>
      cases ran
      exact .refl _
  | cons label rest ih =>
      obtain ⟨middle, edge, tail⟩ := Option.bind_eq_some_iff.mp ran
      exact .head trivial edge (ih tail)

/-- A guard that is just what a step needs to reach a state with a property: under an invariant,
the runs within a base guard along which every state has the property are the guarded ones. -/
theorem guarded_iff_within {step : State → Label → Option State}
    {Base Guard : State → Label → Prop} {Inv Holds : State → Prop}
    (keep : ∀ {state next : State} {label : Label}, Inv state → Base state label →
      Guard state label → step state label = some next → Inv next)
    (holds : ∀ {state : State}, Inv state → Holds state)
    (exact_ : ∀ {state next : State} {label : Label}, Inv state → Base state label →
      step state label = some next → Holds next → Guard state label)
    {first last : State} {labels : List Label} (inv : Inv first)
    (run : Run step Base first labels last) :
    (∀ count middle, exec step first (labels.take count) = some middle → Holds middle) ↔
      Run step (fun state label => Base state label ∧ Guard state label) first labels last := by
  constructor
  · intro all
    induction run with
    | refl => exact .refl _
    | @head first middle last label rest base edge _ ih =>
        have guard : Guard first label :=
          exact_ inv base edge (all 1 middle (by simp [exec, edge]))
        refine .head ⟨base, guard⟩ edge (ih (keep inv base guard edge) ?_)
        intro count state ran
        exact all (count + 1) state (by simpa [exec, edge] using ran)
  · intro guarded
    induction guarded with
    | refl =>
        intro count middle ran
        rw [List.take_nil] at ran
        cases ran
        exact holds inv
    | @head first middle last label rest guard edge tail ih =>
        intro count state ran
        cases count with
        | zero =>
            cases ran
            exact holds inv
        | succ count =>
            have base := tail.mono fun _ _ both => both.1
            refine ih (keep inv guard.1 guard.2 edge) base count state ?_
            simpa [exec, edge] using ran

/-- The same among all runs. -/
theorem guarded_iff {step : State → Label → Option State} {Guard : State → Label → Prop}
    {Inv Holds : State → Prop}
    (keep : ∀ {state next : State} {label : Label}, Inv state → Guard state label →
      step state label = some next → Inv next)
    (holds : ∀ {state : State}, Inv state → Holds state)
    (exact_ : ∀ {state next : State} {label : Label}, Inv state →
      step state label = some next → Holds next → Guard state label)
    {first last : State} {labels : List Label} (inv : Inv first)
    (run : Run step always first labels last) :
    (∀ count middle, exec step first (labels.take count) = some middle → Holds middle) ↔
      Run step Guard first labels last := by
  have within := guarded_iff_within (fun inv _ guard edge => keep inv guard edge) holds
    (fun inv _ edge after => exact_ inv edge after) inv run
  rw [within]
  constructor
  · exact Run.mono fun _ _ both => both.2
  · exact Run.mono fun _ _ guard => ⟨trivial, guard⟩

/-- The same for a property of the steps: a guard that is just what it takes for a step to have the
property. -/
theorem guarded_iff_during {step : State → Label → Option State}
    {Base Guard Holds : State → Label → Prop} {Inv : State → Prop}
    (keep : ∀ {state next : State} {label : Label}, Inv state → Base state label →
      Guard state label → step state label = some next → Inv next)
    (exact_ : ∀ {state next : State} {label : Label}, Inv state → Base state label →
      step state label = some next → (Holds state label ↔ Guard state label))
    {first last : State} {labels : List Label} (inv : Inv first)
    (run : Run step Base first labels last) :
    (∀ before label after middle, labels = before ++ label :: after →
      exec step first before = some middle → Holds middle label) ↔
      Run step (fun state label => Base state label ∧ Guard state label) first labels last := by
  constructor
  · intro all
    induction run with
    | refl => exact .refl _
    | @head first middle last label rest base edge _ ih =>
        have guard : Guard first label :=
          (exact_ inv base edge).mp (all [] label rest first rfl rfl)
        refine .head ⟨base, guard⟩ edge (ih (keep inv base guard edge) ?_)
        intro before later after state parts ran
        refine all (label :: before) later after state ?_ (by simpa [exec, edge] using ran)
        rw [parts, List.cons_append]
  · intro guarded
    clear run
    induction guarded with
    | refl =>
        intro before label after middle parts
        exact absurd parts (by simp)
    | @head first middle last label rest guard edge _ ih =>
        intro before later after state parts ran
        cases before with
        | nil =>
            cases ran
            cases parts
            exact (exact_ inv guard.1 edge).mpr guard.2
        | cons started before =>
            cases parts
            refine ih (keep inv guard.1 guard.2 edge) before later after state rfl ?_
            simpa [exec, edge] using ran

/-- The step, disabled where the guard fails. -/
def guardedStep (step : State → Label → Option State) (Guard : State → Label → Prop)
    [∀ state label, Decidable (Guard state label)] (state : State) (label : Label) :
    Option State :=
  if Guard state label then step state label else none

/-- Executing the guarded step computes a guarded run. -/
theorem run_of_guarded {step : State → Label → Option State} {Guard : State → Label → Prop}
    [∀ state label, Decidable (Guard state label)] {first last : State} {labels : List Label}
    (ran : exec (guardedStep step Guard) first labels = some last) :
    Run step Guard first labels last := by
  induction labels generalizing first with
  | nil =>
      cases ran
      exact .refl _
  | cons label rest ih =>
      obtain ⟨middle, edge, tail⟩ := Option.bind_eq_some_iff.mp ran
      unfold guardedStep at edge
      split at edge
      · rename_i guard
        exact .head guard edge (ih tail)
      · cases edge

end Valet.Library
