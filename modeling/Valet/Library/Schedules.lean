import Valet.Library.Runs

/-!
# Schedules that bring a system somewhere

Where each step can be taken by one label, repeating that label reaches what
every step comes closer to; schedules for one thing after another compose.
-/

namespace Valet.Library

variable {State Label : Type*} {step : State → Label → Option State}

theorem exec_append {first middle : State} {labels more : List Label}
    (start : exec step first labels = some middle) :
    exec step first (labels ++ more) = exec step middle more := by
  induction labels generalizing first with
  | nil =>
      cases start
      rfl
  | cons label rest ih =>
      obtain ⟨next, edge, tail⟩ := Option.bind_eq_some_iff.mp start
      rw [List.cons_append, exec, edge]
      exact ih tail

/-- Repeating a label that finishes or comes closer reaches the finish. -/
theorem repeat_until {label : Label} {Done : State → Prop} (Inv : State → Prop)
    (measure : State → Nat)
    (goes : ∀ state, Inv state → ∃ next, step state label = some next ∧
      (Done next ∨ (Inv next ∧ measure next < measure state)))
    {first : State} (inv : Inv first) :
    ∃ count last, exec step first (List.replicate count label) = some last ∧ Done last := by
  induction size : measure first using Nat.strongRecOn generalizing first with
  | ind size ih =>
      obtain ⟨next, edge, done | ⟨again, closer⟩⟩ := goes first inv
      · refine ⟨1, next, ?_, done⟩
        rw [List.replicate_one, exec, edge]
        rfl
      · obtain ⟨count, last, ran, done⟩ := ih _ (size ▸ closer) again rfl
        refine ⟨count + 1, last, ?_, done⟩
        rw [List.replicate_succ, exec, edge]
        exact ran

/-- What can always be shortened by some labels can be emptied by such labels. -/
theorem drain {Item : Type*} (Allowed : Label → Prop) (Inv : State → Prop)
    (items : State → List Item)
    (shorten : ∀ state, Inv state → items state ≠ [] → ∃ labels next,
      (∀ label ∈ labels, Allowed label) ∧ exec step state labels = some next ∧ Inv next ∧
        (items next).length < (items state).length)
    {first : State} (inv : Inv first) :
    ∃ labels last, (∀ label ∈ labels, Allowed label) ∧ exec step first labels = some last ∧
      Inv last ∧ items last = [] := by
  induction size : (items first).length using Nat.strongRecOn generalizing first with
  | ind size ih =>
      by_cases empty : items first = []
      · exact ⟨[], first, fun _ member => absurd member List.not_mem_nil, rfl, inv, empty⟩
      · obtain ⟨labels, next, allowed, ran, again, shorter⟩ := shorten first inv empty
        obtain ⟨more, last, allowedMore, ranMore, ends, done⟩ :=
          ih _ (size ▸ shorter) again rfl
        refine ⟨labels ++ more, last, ?_, (exec_append ran).trans ranMore, ends, done⟩
        intro label member
        rcases List.mem_append.mp member with front | back
        · exact allowed label front
        · exact allowedMore label back

end Valet.Library
