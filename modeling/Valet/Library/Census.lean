import Mathlib.Data.Fintype.Card

/-!
# Counting the slots of a table

A table with a fixed number of slots and a counter beside it: how marking and
clearing a slot changes the number of marked slots.
-/

namespace Valet.Library

variable {slots : Nat}

/-- The number of marked slots. -/
def census (marked : Fin slots → Bool) : Nat := (Finset.univ.filter fun i => marked i = true).card

variable {marked other : Fin slots → Bool} {i : Fin slots}

theorem census_le (marked : Fin slots → Bool) : census marked ≤ slots := by
  have bound := Finset.card_le_univ (Finset.univ.filter fun i => marked i = true)
  rwa [Fintype.card_fin] at bound

theorem census_mono (more : ∀ i, marked i = true → other i = true) :
    census marked ≤ census other := by
  apply Finset.card_le_card
  intro i member
  rw [Finset.mem_filter] at member ⊢
  exact ⟨member.1, more i member.2⟩

theorem census_none : census (fun _ : Fin slots => false) = 0 := by
  simp [census]

theorem census_full (all : ∀ i, marked i = true) : census marked = slots := by
  simp [census, all]

/-- Marking a slot that is clear. -/
theorem census_mark (clear : marked i = false) :
    census (Function.update marked i true) = census marked + 1 := by
  have more : (Finset.univ.filter fun j => Function.update marked i true j = true) =
      insert i (Finset.univ.filter fun j => marked j = true) := by
    ext j
    by_cases same : j = i
    · simp [same]
    · simp [same]
  rw [census, more, Finset.card_insert_of_notMem (by simp [clear]), census]

/-- Clearing a slot that is marked. -/
theorem census_clear (mark : marked i = true) :
    census (Function.update marked i false) + 1 = census marked := by
  have clear : Function.update marked i false i = false := Function.update_self ..
  have again := census_mark clear
  rw [Function.update_idem, ← mark, Function.update_eq_self] at again
  exact again.symm

/-- The slots that are marked in a larger table only. -/
theorem census_diff (more : ∀ i, marked i = true → other i = true) :
    census (fun i => other i && !marked i) + census marked = census other := by
  have parts := Finset.card_filter_add_card_filter_not (s := Finset.univ.filter fun i =>
    other i = true) (fun i => marked i = true)
  rw [Finset.filter_filter, Finset.filter_filter] at parts
  have inside : (Finset.univ.filter fun i => other i = true ∧ marked i = true) =
      Finset.univ.filter fun i => marked i = true := by
    ext i
    simp only [Finset.mem_filter, Finset.mem_univ, true_and]
    exact ⟨fun both => both.2, fun mark => ⟨more i mark, mark⟩⟩
  have outside : (Finset.univ.filter fun i => other i = true ∧ ¬ marked i = true) =
      Finset.univ.filter fun i => (other i && !marked i) = true := by
    ext i
    simp
  rw [inside, outside] at parts
  rw [census, census, census, ← parts, Nat.add_comm]

/-- A table of which a slot is clear is not full. -/
theorem census_lt (clear : marked i = false) : census marked < slots := by
  have more := census_mark clear
  have bound := census_le (Function.update marked i true)
  omega

/-- The table whose first slots are marked. -/
theorem census_below {count : Nat} (bound : count ≤ slots) :
    census (fun i : Fin slots => decide (i.val < count)) = count := by
  induction count with
  | zero => simp [census]
  | succ count ih =>
      have clear : decide ((⟨count, bound⟩ : Fin slots).val < count) = false := by simp
      have grown : (fun i : Fin slots => decide (i.val < count + 1)) =
          Function.update (fun i : Fin slots => decide (i.val < count)) ⟨count, bound⟩ true := by
        funext i
        by_cases same : i = ⟨count, bound⟩
        · simp [same]
        · have other : i.val ≠ count := fun equal => same (Fin.ext equal)
          rw [Function.update_of_ne same]
          simp only [decide_eq_decide]
          omega
      rw [grown, census_mark clear, ih (by omega)]

end Valet.Library
