import Mathlib.Data.List.Nodup
import Mathlib.Tactic.TypeStar

/-!
# Tickets for consecutive positions

Parties reserve runs of consecutive positions at the head of a line and give
them up at its tail, oldest first.  The tickets that are out at any time fill
the positions between tail and head without gaps, so that they are disjoint and
only the oldest begins at the tail.
-/

namespace Valet.Library

variable {Owner : Type*}

/-- The `count` positions from `start` on, reserved by their owner. -/
structure Ticket (Owner : Type*) where
  owner : Owner
  start : Nat
  count : Nat

/-- The tickets, oldest first, fill the positions from the tail up to the head. -/
def Tiles : (tail : Nat) → List (Ticket Owner) → (head : Nat) → Prop
  | tail, [], head => tail = head
  | tail, ticket :: rest, head =>
      ticket.start = tail ∧ 0 < ticket.count ∧ Tiles (tail + ticket.count) rest head

/-- The oldest ticket is its owner's only one, when no owner has two. -/
theorem eq_oldest_of_owner {tickets rest : List (Ticket Owner)} {first ticket : Ticket Owner}
    (oldest : tickets = first :: rest) (distinct : (tickets.map Ticket.owner).Nodup)
    (member : ticket ∈ tickets) (owner : ticket.owner = first.owner) : ticket = first := by
  rw [oldest] at member distinct
  rcases List.mem_cons.mp member with same | behind
  · exact same
  · rw [List.map_cons, List.nodup_cons] at distinct
    exact absurd (List.mem_map.mpr ⟨ticket, behind, owner⟩) distinct.1

namespace Tiles

variable {tail head : Nat} {tickets : List (Ticket Owner)} {ticket other : Ticket Owner}

theorem le (tiles : Tiles tail tickets head) : tail ≤ head := by
  induction tickets generalizing tail with
  | nil => exact Nat.le_of_eq tiles
  | cons first rest ih =>
      have later := ih tiles.2.2
      omega

/-- A new ticket goes to the head of the line. -/
theorem reserve (tiles : Tiles tail tickets head) (owner : Owner) {count : Nat}
    (some_ : 0 < count) : Tiles tail (tickets ++ [⟨owner, head, count⟩]) (head + count) := by
  induction tickets generalizing tail with
  | nil =>
      obtain rfl : tail = head := tiles
      exact ⟨rfl, some_, rfl⟩
  | cons first rest ih => exact ⟨tiles.1, tiles.2.1, ih tiles.2.2⟩

/-- The positions of a ticket lie between tail and head. -/
theorem bounds (tiles : Tiles tail tickets head) (member : ticket ∈ tickets) :
    tail ≤ ticket.start ∧ 0 < ticket.count ∧ ticket.start + ticket.count ≤ head := by
  induction tickets generalizing tail with
  | nil => cases member
  | cons first rest ih =>
      obtain ⟨start, some_, later⟩ := tiles
      rcases List.mem_cons.mp member with rfl | behind
      · have end_ := later.le
        omega
      · obtain ⟨low, positive, high⟩ := ih later behind
        omega

/-- Only the oldest ticket begins at the tail. -/
theorem oldest (tiles : Tiles tail tickets head) (member : ticket ∈ tickets)
    (first : ticket.start = tail) : ∃ rest, tickets = ticket :: rest := by
  cases tickets with
  | nil => cases member
  | cons front rest =>
      obtain ⟨start, some_, later⟩ := tiles
      rcases List.mem_cons.mp member with rfl | behind
      · exact ⟨rest, rfl⟩
      · have low := (later.bounds behind).1
        omega

/-- Tickets that share a position are one ticket. -/
theorem eq_of_shared (tiles : Tiles tail tickets head) (member : ticket ∈ tickets)
    (again : other ∈ tickets) {position : Nat} (low : ticket.start ≤ position)
    (high : position < ticket.start + ticket.count) (lowOther : other.start ≤ position)
    (highOther : position < other.start + other.count) : ticket = other := by
  induction tickets generalizing tail with
  | nil => cases member
  | cons first rest ih =>
      obtain ⟨start, some_, later⟩ := tiles
      rcases List.mem_cons.mp member with rfl | behind
      · rcases List.mem_cons.mp again with same | behindOther
        · exact same.symm
        · have bounds := later.bounds behindOther
          omega
      · rcases List.mem_cons.mp again with rfl | behindOther
        · have bounds := later.bounds behind
          omega
        · exact ih later behind behindOther

/-- The only owner's ticket begins at the tail, when no owner has two. -/
theorem start_of_only (tiles : Tiles tail tickets head)
    (distinct : (tickets.map Ticket.owner).Nodup) (member : ticket ∈ tickets)
    (only : ∀ other ∈ tickets, other.owner = ticket.owner) : ticket.start = tail := by
  cases tickets with
  | nil => cases member
  | cons front rest =>
      rcases List.mem_cons.mp member with rfl | behind
      · exact tiles.1
      · rw [List.map_cons, List.nodup_cons] at distinct
        have same := only front List.mem_cons_self
        exact absurd (List.mem_map.mpr ⟨ticket, behind, same.symm⟩) distinct.1

/-- Giving up the oldest ticket moves the tail behind it. -/
theorem release {rest : List (Ticket Owner)} (tiles : Tiles tail (ticket :: rest) head) :
    Tiles (tail + ticket.count) rest head := tiles.2.2

end Tiles

section Slices

variable {α : Type*}

/-- What stands at the `count` positions from `start` on. -/
def slice (values : List α) (start count : Nat) : List α := (values.drop start).take count

variable {values more : List α} {start count : Nat}

@[simp] theorem slice_zero : slice values start 0 = [] := List.take_zero

/-- Later elements do not change a slice that is inside already. -/
theorem slice_append (inside : start + count ≤ values.length) :
    slice (values ++ more) start count = slice values start count := by
  rw [slice, List.drop_append_of_le_length (by omega), slice,
    List.take_append_of_le_length (by rw [List.length_drop]; omega)]

theorem slice_new : slice (values ++ more) values.length more.length = more := by
  rw [slice, List.drop_left, List.take_length]

theorem take_append_slice :
    values.take start ++ slice values start count = values.take (start + count) :=
  List.take_add.symm

theorem slice_succ (inside : start + count < values.length) :
    slice values start (count + 1) = slice values start count ++ [values[start + count]] := by
  have bound : count < (values.drop start).length := by
    rw [List.length_drop]
    omega
  rw [slice, List.take_succ_eq_append_getElem bound, List.getElem_drop, slice]

theorem getElem?_slice {index : Nat} (bound : index < count) :
    (slice values start count)[index]? = values[start + index]? := by
  rw [slice, List.getElem?_take_of_lt bound, List.getElem?_drop]

end Slices

end Valet.Library
