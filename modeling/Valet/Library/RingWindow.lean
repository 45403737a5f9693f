import Mathlib.Data.List.ReduceOption
import Mathlib.Logic.Function.Basic

/-!
# Windows of a circular array

A circular array stores the element of a free-running position in the cell that
a slot function names.  The window of `count` positions from `start` on is what
a bounded queue over the array holds; writing the cell of the next position
appends to the window as long as that cell is none of the window's own.
-/

namespace Valet.Library

variable {α : Type*}

/-- The cells of the `count` positions from `start` on, in order. -/
def window (cell : Nat → Option α) (slot : Nat → Nat) : Nat → Nat → List (Option α)
  | _, 0 => []
  | start, count + 1 => cell (slot start) :: window cell slot (start + 1) count

@[simp] theorem window_zero (cell : Nat → Option α) (slot : Nat → Nat) (start : Nat) :
    window cell slot start 0 = [] := rfl

@[simp] theorem window_length (cell : Nat → Option α) (slot : Nat → Nat)
    (start count : Nat) : (window cell slot start count).length = count := by
  induction count generalizing start with
  | zero => rfl
  | succ count ih => simp [window, ih]

theorem window_succ_last (cell : Nat → Option α) (slot : Nat → Nat) (start count : Nat) :
    window cell slot start (count + 1) =
      window cell slot start count ++ [cell (slot (start + count))] := by
  induction count generalizing start with
  | zero => rfl
  | succ count ih =>
      have shifted := ih (start + 1)
      rw [show start + 1 + count = start + (count + 1) by omega] at shifted
      calc window cell slot start (count + 1 + 1)
          = cell (slot start) :: window cell slot (start + 1) (count + 1) := rfl
        _ = cell (slot start) :: (window cell slot (start + 1) count ++
              [cell (slot (start + (count + 1)))]) := by rw [shifted]
        _ = window cell slot start (count + 1) ++ [cell (slot (start + (count + 1)))] := rfl

theorem window_drop (cell : Nat → Option α) (slot : Nat → Nat) (start count skipped : Nat) :
    (window cell slot start count).drop skipped =
      window cell slot (start + skipped) (count - skipped) := by
  induction skipped generalizing start count with
  | zero => rfl
  | succ skipped ih =>
      cases count with
      | zero => rw [window_zero, List.drop_nil, Nat.zero_sub, window_zero]
      | succ count =>
          rw [window, List.drop_succ_cons, ih, Nat.add_sub_add_right]
          congr 1
          omega

/-- Only the cells of the window matter. -/
theorem window_congr {cell other : Nat → Option α} {slot slot' : Nat → Nat}
    {start start' count : Nat}
    (agree : ∀ offset, offset < count →
      cell (slot (start + offset)) = other (slot' (start' + offset))) :
    window cell slot start count = window other slot' start' count := by
  induction count generalizing start start' with
  | zero => rfl
  | succ count ih =>
      have first := agree 0 (Nat.succ_pos _)
      have rest : window cell slot (start + 1) count = window other slot' (start' + 1) count := by
        apply ih
        intro offset bound
        have later := agree (offset + 1) (by omega)
        rwa [show start + (offset + 1) = start + 1 + offset by omega,
          show start' + (offset + 1) = start' + 1 + offset by omega] at later
      simp only [window, rest]
      simp only [Nat.add_zero] at first
      rw [first]

/-- Two windows over the same cells are equal only when their cells are. -/
theorem window_inj {cell other : Nat → Option α} {slot : Nat → Nat} {start count : Nat}
    (same : window cell slot start count = window other slot start count) :
    ∀ offset, offset < count → cell (slot (start + offset)) = other (slot (start + offset)) := by
  induction count generalizing start with
  | zero =>
      intro offset bound
      exact absurd bound (Nat.not_lt_zero offset)
  | succ count ih =>
      obtain ⟨first, rest⟩ := List.cons.inj same
      intro offset bound
      cases offset with
      | zero => exact first
      | succ offset =>
          have later := ih rest offset (Nat.lt_of_succ_lt_succ bound)
          rwa [show start + 1 + offset = start + (offset + 1) by omega] at later

/-- Writing a cell leaves the window alone exactly when the cell is none of the window's own,
or holds the value already. -/
theorem window_update_eq_iff {cell : Nat → Option α} {slot : Nat → Nat}
    {start count index : Nat} {value : Option α} :
    window (Function.update cell index value) slot start count = window cell slot start count ↔
      ∀ offset, offset < count → slot (start + offset) = index → cell index = value := by
  constructor
  · intro same offset bound hit
    have kept := window_inj same offset bound
    rw [hit, Function.update_self] at kept
    exact kept.symm
  · intro free
    apply window_congr
    intro offset bound
    rcases eq_or_ne (slot (start + offset)) index with hit | miss
    · rw [hit, Function.update_self, free offset bound hit]
    · exact Function.update_of_ne miss _ _

/-- Writing a cell outside the window leaves the window alone. -/
theorem window_update_fresh (cell : Nat → Option α) (slot : Nat → Nat)
    {start count index : Nat} (value : Option α)
    (fresh : ∀ offset, offset < count → slot (start + offset) ≠ index) :
    window (Function.update cell index value) slot start count =
      window cell slot start count := by
  apply window_congr
  intro offset bound
  exact Function.update_of_ne (fresh offset bound) _ _

/-- Writing the cell of the next position appends to the window. -/
theorem window_push (cell : Nat → Option α) (slot : Nat → Nat) {start count : Nat}
    (value : Option α)
    (fresh : ∀ offset, offset < count → slot (start + offset) ≠ slot (start + count)) :
    window (Function.update cell (slot (start + count)) value) slot start (count + 1) =
      window cell slot start count ++ [value] := by
  rw [window_succ_last, window_update_fresh cell slot value fresh, Function.update_self]

/-- Whatever cell is written, a window holds nothing but its old elements and the new one. -/
theorem mem_window_update {cell : Nat → Option α} {slot : Nat → Nat}
    {start count index : Nat} {value other : Option α}
    (member : other ∈ window (Function.update cell index value) slot start count) :
    other ∈ window cell slot start count ∨ other = value := by
  induction count generalizing start with
  | zero => cases member
  | succ count ih =>
      rcases List.mem_cons.mp member with rfl | later
      · by_cases same : slot start = index
        · right
          rw [same, Function.update_self]
        · left
          rw [Function.update_of_ne same]
          exact List.mem_cons_self
      · rcases ih later with old | new
        · exact Or.inl (List.mem_cons_of_mem _ old)
        · exact Or.inr new

end Valet.Library
