import Mathlib.Data.List.Basic
import Mathlib.Order.Nat
import Mathlib.Logic.Function.Basic

/-!
# A stack in an array

Elements are taken from the top of a stack and put back on it.  The stack is an
array with a count; what lies above the count stays in the array until a put
overwrites it, so that the array also lists elements that were taken.  Elements
that come back in another order overwrite each other there.
-/

namespace Valet.Library

structure SlotStack (α : Type*) where
  elements : Nat → Option α
  currNr : Nat
  capNr : Nat

namespace SlotStack

variable {α : Type*}

/-- The array of these elements, all of them on the stack. -/
def full (capNr : Nat) (element : Nat → α) : SlotStack α where
  elements := fun i => if i < capNr then some (element i) else none
  currNr := capNr
  capNr := capNr

/-- `none` when the array is full. -/
def put (stack : SlotStack α) (element : α) : Option (SlotStack α) :=
  if stack.currNr < stack.capNr then
    some { stack with
      elements := Function.update stack.elements stack.currNr (some element)
      currNr := stack.currNr + 1 }
  else
    none

/-- The top element and the stack without it. -/
def get (stack : SlotStack α) : Option (α × SlotStack α) :=
  if stack.currNr = 0 then
    none
  else
    (stack.elements (stack.currNr - 1)).map fun element =>
      (element, { stack with currNr := stack.currNr - 1 })

/-- The array lists the element. -/
def Lists (stack : SlotStack α) (element : α) : Prop :=
  ∃ i, i < stack.capNr ∧ stack.elements i = some element

/-- The array lists the element in a slot that the next put leaves alone. -/
def ListsElsewhere (stack : SlotStack α) (element : α) : Prop :=
  ∃ i, i < stack.capNr ∧ i ≠ stack.currNr ∧ stack.elements i = some element

/-- The elements on the stack. -/
def live (stack : SlotStack α) : List α :=
  (List.range stack.currNr).filterMap stack.elements

/-- The slots below the count are filled. -/
structure Sound (stack : SlotStack α) : Prop where
  within : stack.currNr ≤ stack.capNr
  filled : ∀ i, i < stack.currNr → ∃ element, stack.elements i = some element

variable {stack next : SlotStack α} {element other : α}

theorem put_eq_some (put : stack.put element = some next) :
    stack.currNr < stack.capNr ∧ next = { stack with
      elements := Function.update stack.elements stack.currNr (some element)
      currNr := stack.currNr + 1 } := by
  rw [SlotStack.put] at put
  split at put
  · rename_i room
    exact ⟨room, (Option.some.inj put).symm⟩
  · cases put

theorem get_eq_some (got : stack.get = some (element, next)) :
    0 < stack.currNr ∧ stack.elements (stack.currNr - 1) = some element ∧
      next = { stack with currNr := stack.currNr - 1 } := by
  rw [get] at got
  split at got
  · cases got
  · rename_i some_
    obtain ⟨top, found, same⟩ := Option.map_eq_some_iff.mp got
    obtain ⟨rfl, rfl⟩ := Prod.mk.inj same
    exact ⟨Nat.pos_of_ne_zero some_, found, rfl⟩

theorem full_sound (capNr : Nat) (element : Nat → α) : (full capNr element).Sound where
  within := le_refl _
  filled := fun i less => ⟨element i, if_pos less⟩

theorem Sound.put (sound : stack.Sound) (put : stack.put element = some next) : next.Sound := by
  obtain ⟨room, rfl⟩ := put_eq_some put
  refine ⟨room, fun i less => ?_⟩
  dsimp only at less ⊢
  rcases Nat.lt_succ_iff_lt_or_eq.mp less with below | rfl
  · rw [Function.update_of_ne (Nat.ne_of_lt below)]
    exact sound.filled i below
  · exact ⟨element, Function.update_self _ _ _⟩

theorem Sound.get (sound : stack.Sound) (got : stack.get = some (element, next)) :
    next.Sound := by
  obtain ⟨_, _, rfl⟩ := get_eq_some got
  refine ⟨le_trans (Nat.sub_le _ _) sound.within, fun i less => ?_⟩
  exact sound.filled i (lt_of_lt_of_le less (Nat.sub_le _ _))

/-- What the array lists after a put. -/
theorem lists_put_iff (put : stack.put element = some next) :
    next.Lists other ↔ other = element ∨ stack.ListsElsewhere other := by
  obtain ⟨room, rfl⟩ := put_eq_some put
  constructor
  · rintro ⟨i, less, found⟩
    dsimp only at less found
    rcases eq_or_ne i stack.currNr with rfl | apart
    · rw [Function.update_self] at found
      exact .inl (Option.some.inj found).symm
    · rw [Function.update_of_ne apart] at found
      exact .inr ⟨i, less, apart, found⟩
  · rintro (rfl | ⟨i, less, apart, found⟩)
    · exact ⟨stack.currNr, room, Function.update_self _ _ _⟩
    · exact ⟨i, less, (Function.update_of_ne apart _ _).trans found⟩

/-- A get leaves the array as it is, and the element in it. -/
theorem lists_get_iff (got : stack.get = some (element, next)) :
    next.Lists other ↔ stack.Lists other := by
  obtain ⟨_, _, rfl⟩ := get_eq_some got
  exact Iff.rfl

theorem lists_got (sound : stack.Sound) (got : stack.get = some (element, next)) :
    stack.Lists element := by
  obtain ⟨some_, found, _⟩ := get_eq_some got
  refine ⟨stack.currNr - 1, lt_of_lt_of_le ?_ sound.within, found⟩
  exact Nat.sub_lt some_ Nat.one_pos

theorem live_put (put : stack.put element = some next) : next.live = stack.live ++ [element] := by
  obtain ⟨_, rfl⟩ := put_eq_some put
  have below : (List.range stack.currNr).filterMap
      (Function.update stack.elements stack.currNr (some element)) = stack.live := by
    apply List.filterMap_congr
    intro i member
    exact Function.update_of_ne (Nat.ne_of_lt (List.mem_range.mp member)) _ _
  rw [live, List.range_succ, List.filterMap_append, below,
    List.filterMap_cons_some (Function.update_self _ _ _), List.filterMap_nil]

theorem live_get (got : stack.get = some (element, next)) : stack.live = next.live ++ [element] := by
  obtain ⟨some_, found, rfl⟩ := get_eq_some got
  obtain ⟨count, same⟩ := Nat.exists_eq_succ_of_ne_zero (Nat.ne_of_gt some_)
  rw [same, Nat.succ_sub_one] at found ⊢
  rw [live, same, Nat.succ_eq_add_one, List.range_succ, List.filterMap_append,
    List.filterMap_cons_some found, List.filterMap_nil, live]

theorem live_full (capNr : Nat) (element : Nat → α) :
    (full capNr element).live = (List.range capNr).map element := by
  rw [live, full, ← List.filterMap_eq_map]
  apply List.filterMap_congr
  intro i member
  exact if_pos (List.mem_range.mp member)

end SlotStack

end Valet.Library
