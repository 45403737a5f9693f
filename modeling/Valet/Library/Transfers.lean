import Valet.Library.Channel
import Mathlib.Data.List.Perm.Basic

/-!
# Moving elements between two arrays

A copying loop is a list of moves, each to an index of the target from an index
of the source.  Moves with distinct targets act alike in any order, and what
moves with distinct sources brought is taken back by the opposite moves.
-/

namespace Valet.Library

variable {Target Source Elem : Type} [DecidableEq Target]

/-- Carry the moves out one after the other. -/
def transfer (target : Target → Elem) (source : Source → Elem)
    (moves : List (Target × Source)) : Target → Elem :=
  store target (moves.map fun move => (move.1, source move.2))

variable {target : Target → Elem} {source : Source → Elem} {moves more : List (Target × Source)}

@[simp] theorem transfer_nil : transfer target source [] = target := rfl

@[simp] theorem transfer_cons (move : Target × Source) :
    transfer target source (move :: moves) =
      transfer (Function.update target move.1 (source move.2)) source moves := rfl

/-- An index that no move goes to keeps its element. -/
theorem transfer_of_not_mem {index : Target} (untouched : index ∉ moves.map Prod.fst) :
    transfer target source moves index = target index := by
  apply store_of_not_mem
  intro value member
  obtain ⟨move, inMoves, same⟩ := List.mem_map.mp member
  cases same
  exact untouched (List.mem_map_of_mem inMoves)

/-- An index that one move goes to holds what the move brought. -/
theorem transfer_of_mem {move : Target × Source} (distinct : (moves.map Prod.fst).Nodup)
    (member : move ∈ moves) : transfer target source moves move.1 = source move.2 := by
  apply store_of_mem
  · rwa [List.map_map]
  · exact List.mem_map_of_mem (f := fun move => (move.1, source move.2)) member

/-- Moves with distinct targets may be carried out in any order. -/
theorem transfer_perm (distinct : (moves.map Prod.fst).Nodup) (same : moves.Perm more) :
    transfer target source moves = transfer target source more := by
  have distinctMore : (more.map Prod.fst).Nodup := (same.map Prod.fst).nodup_iff.mp distinct
  funext index
  by_cases touched : index ∈ moves.map Prod.fst
  · obtain ⟨move, member, rfl⟩ := List.mem_map.mp touched
    rw [transfer_of_mem distinct member, transfer_of_mem distinctMore (same.mem_iff.mp member)]
  · rw [transfer_of_not_mem touched,
      transfer_of_not_mem fun again => touched ((same.map Prod.fst).mem_iff.mpr again)]

/-- Moving back what was moved: the indices that the moves came from get what they held. -/
theorem transfer_back [DecidableEq Source] {home : Source → Elem}
    {back : List (Source × Target)} (targets : (moves.map Prod.fst).Nodup)
    (sources : (moves.map Prod.snd).Nodup) (same : (moves.map Prod.swap).Perm back)
    {move : Target × Source} (member : move ∈ moves) :
    transfer home (transfer target source moves) back move.2 = source move.2 := by
  have distinct : ((moves.map Prod.swap).map Prod.fst).Nodup := by
    rw [List.map_map]
    exact sources
  rw [← transfer_perm distinct same]
  have inBack : move.swap ∈ moves.map Prod.swap := List.mem_map_of_mem member
  calc transfer home (transfer target source moves) (moves.map Prod.swap) move.swap.1
      = transfer target source moves move.swap.2 := transfer_of_mem distinct inBack
    _ = source move.2 := transfer_of_mem targets member

end Valet.Library
