import Mathlib.Algebra.BigOperators.Fin
import Mathlib.Algebra.Order.BigOperators.Group.List
import Mathlib.Algebra.Order.Group.Nat
import Mathlib.Data.List.FinRange

/-!
# Tallies over the places of a system

The things a distributed state holds lie in several places: in a queue, with
one of the parties, on one of the connections.  A tally adds up a weight over
all of them.  Moving a thing from one place to another keeps the tally.
-/

namespace Valet.Library

variable {α : Type*} {parties : Nat}

/-- The total weight of a list of things. -/
def tally (weight : α → Nat) (things : List α) : Nat := (things.map weight).sum

@[simp] theorem tally_nil (weight : α → Nat) : tally weight [] = 0 := rfl

@[simp] theorem tally_cons (weight : α → Nat) (thing : α) (rest : List α) :
    tally weight (thing :: rest) = weight thing + tally weight rest := by
  simp [tally]

@[simp] theorem tally_append (weight : α → Nat) (first second : List α) :
    tally weight (first ++ second) = tally weight first + tally weight second := by
  simp [tally]

theorem le_tally_of_mem {weight : α → Nat} {things : List α} {thing : α}
    (member : thing ∈ things) : weight thing ≤ tally weight things :=
  List.le_sum_of_mem (List.mem_map.mpr ⟨thing, member, rfl⟩)

theorem exists_of_tally_pos {weight : α → Nat} {things : List α}
    (positive : 0 < tally weight things) : ∃ thing ∈ things, 0 < weight thing := by
  induction things with
  | nil => cases positive
  | cons thing rest ih =>
      rw [tally_cons] at positive
      by_cases here : 0 < weight thing
      · exact ⟨thing, List.mem_cons_self, here⟩
      · obtain ⟨other, member, found⟩ := ih (by omega)
        exact ⟨other, List.mem_cons_of_mem _ member, found⟩

/-- The things that all parties hold, party by party. -/
def pooled (hold : Fin parties → List α) : List α := (List.finRange parties).flatMap hold

theorem mem_pooled {hold : Fin parties → List α} {thing : α} :
    thing ∈ pooled hold ↔ ∃ party, thing ∈ hold party := by
  simp [pooled]

theorem tally_pooled (weight : α → Nat) (hold : Fin parties → List α) :
    tally weight (pooled hold) = ∑ party, tally weight (hold party) := by
  rw [pooled, Fin.sum_univ_def]
  induction List.finRange parties with
  | nil => rfl
  | cons party rest ih => simp [ih]

/-- Changing what one party holds changes the tally by the difference. -/
theorem tally_pooled_update (weight : α → Nat) {β : Type*} (hold : β → List α)
    (state : Fin parties → β) (party : Fin parties) (value : β) :
    tally weight (pooled fun other => hold (Function.update state party value other)) +
        tally weight (hold (state party)) =
      tally weight (pooled fun other => hold (state other)) + tally weight (hold value) := by
  rw [tally_pooled, tally_pooled, ← Finset.add_sum_erase _ _ (Finset.mem_univ party),
    ← Finset.add_sum_erase _ (fun other => tally weight (hold (state other)))
      (Finset.mem_univ party), Function.update_self]
  have rest : ∑ other ∈ Finset.univ.erase party,
      tally weight (hold (Function.update state party value other)) =
      ∑ other ∈ Finset.univ.erase party, tally weight (hold (state other)) := by
    apply Finset.sum_congr rfl
    intro other member
    rw [Function.update_of_ne (Finset.ne_of_mem_erase member)]
  omega

@[simp] theorem pooled_nil : pooled (fun _ : Fin parties => ([] : List α)) = [] := by
  simp [pooled]

end Valet.Library
