import Valet.Bd.SenderLoop
import Valet.Bd.Layout
import Mathlib.Data.List.Chain

/-!
# When the loop of `remote_sender_fn` returns

An item that does not merge with the next one is sent and may come back to the
end of the list, so that items that never merge can go round for ever.  Whether
the loop returns whatever becomes of the writes depends on what the items of
the list merge into.
-/

namespace Valet.Bd

open Valet.Library

namespace LocalPageList

/-- What the items merge into when they are taken in order. -/
def runs : LocalPageList → List LocalPageList → List LocalPageList
  | first, [] => [first]
  | first, tmp :: rest =>
      if first.mergesWith tmp then
        runs (first.merge tmp) rest
      else
        first :: runs tmp rest

/-- The items merge into one, or into two of which the other merges with the one when that comes
back as a whole. -/
def MergesTogether : List LocalPageList → Prop
  | [] => True
  | first :: rest =>
      match runs first rest with
      | [_] => True
      | [one, other] => one.crossesBorder = false ∧ other.mergesWith one = true
      | _ => False

variable {first tmp : LocalPageList} {rest : List LocalPageList}

theorem mergesWith_iff : first.mergesWith tmp = true ↔
    tmp.startIndex = first.startIndex + first.len ∧ first.len + tmp.len ≤ rdmaWrBufLen :=
  decide_eq_true_iff

theorem apart_of_ne (ne : tmp.startIndex ≠ first.startIndex + first.len) :
    first.mergesWith tmp = false := by
  rw [← Bool.not_eq_true, mergesWith_iff]
  exact fun merges => ne merges.1

theorem merge_len : (first.merge tmp).len = first.len + tmp.len := List.length_append

theorem runs_merge (merges : first.mergesWith tmp = true) :
    runs first (tmp :: rest) = runs (first.merge tmp) rest := by
  rw [runs, if_pos merges]

theorem runs_apart (apart : first.mergesWith tmp = false) :
    runs first (tmp :: rest) = first :: runs tmp rest := by
  rw [runs, if_neg (by rw [apart]; exact Bool.false_ne_true)]

theorem runs_ne_nil (first : LocalPageList) (rest : List LocalPageList) :
    runs first rest ≠ [] := by
  induction rest generalizing first with
  | nil => exact List.cons_ne_nil _ _
  | cons tmp rest ih =>
      rw [runs]
      split
      · exact ih _
      · exact List.cons_ne_nil _ _

/-- The first run begins with the first item. -/
theorem runs_head {one : LocalPageList} {more : List LocalPageList}
    (same : runs first rest = one :: more) :
    one.startIndex = first.startIndex ∧ first.len ≤ one.len := by
  induction rest generalizing first with
  | nil =>
      cases same
      exact ⟨rfl, le_refl _⟩
  | cons tmp rest ih =>
      cases merges : first.mergesWith tmp with
      | true =>
          rw [runs_merge merges] at same
          obtain ⟨start, long⟩ := ih same
          rw [merge_len] at long
          exact ⟨start, le_trans (Nat.le_add_right _ _) long⟩
      | false =>
          rw [runs_apart merges] at same
          cases same
          exact ⟨rfl, le_refl _⟩

/-- Two runs on end do not merge. -/
theorem runs_two_apart {one other : LocalPageList} {more : List LocalPageList}
    (same : runs first rest = one :: other :: more) : one.mergesWith other = false := by
  induction rest generalizing first with
  | nil => cases same
  | cons tmp rest ih =>
      cases merges : first.mergesWith tmp with
      | true =>
          rw [runs_merge merges] at same
          exact ih same
      | false =>
          rw [runs_apart merges] at same
          obtain ⟨rfl, later⟩ := List.cons.inj same
          obtain ⟨start, long⟩ := runs_head later
          rw [← Bool.not_eq_true, mergesWith_iff] at merges ⊢
          rw [start]
          rintro ⟨contiguous, fits⟩
          exact merges ⟨contiguous, by omega⟩

theorem runs_wellFormed (wellFormed : first.WellFormed)
    (all : ∀ item ∈ rest, item.WellFormed) : ∀ item ∈ runs first rest, item.WellFormed := by
  induction rest generalizing first with
  | nil =>
      intro item member
      cases List.mem_singleton.mp member
      exact wellFormed
  | cons tmp rest ih =>
      have tmpFormed := all tmp List.mem_cons_self
      have others : ∀ item ∈ rest, item.WellFormed :=
        fun item member => all item (List.mem_cons_of_mem _ member)
      cases merges : first.mergesWith tmp with
      | true =>
          obtain ⟨contiguous, fits⟩ := mergesWith_iff.mp merges
          rw [runs_merge merges]
          exact ih (merged_wellFormed wellFormed tmpFormed contiguous fits) others
      | false =>
          rw [runs_apart merges]
          intro item member
          rcases List.mem_cons.mp member with rfl | later
          · exact wellFormed
          · exact ih tmpFormed others item later

/-- A run has room for as many items as it has pages. -/
theorem length_le_runs (wellFormed : first.WellFormed) (all : ∀ item ∈ rest, item.WellFormed) :
    rest.length + first.len ≤ rdmaWrBufLen * (runs first rest).length := by
  induction rest generalizing first with
  | nil =>
      have fits := wellFormed.fits
      simpa [runs] using fits
  | cons tmp rest ih =>
      have tmpFormed := all tmp List.mem_cons_self
      have some_ := tmpFormed.nonempty
      have fits := wellFormed.fits
      have others : ∀ item ∈ rest, item.WellFormed :=
        fun item member => all item (List.mem_cons_of_mem _ member)
      cases merges : first.mergesWith tmp with
      | true =>
          obtain ⟨contiguous, together⟩ := mergesWith_iff.mp merges
          have bound := ih (merged_wellFormed wellFormed tmpFormed contiguous together) others
          have len : LocalPageList.len { first with batchList := first.batchList ++ tmp.batchList } =
              first.len + tmp.len := List.length_append
          rw [len] at bound
          rw [runs_merge merges, List.length_cons]
          exact le_trans (by omega) bound
      | false =>
          have bound := ih tmpFormed others
          rw [runs_apart merges, List.length_cons, List.length_cons, Nat.mul_add]
          omega

/-- A single run takes up what merges with it. -/
theorem runs_append {one : LocalPageList} (same : runs first rest = [one])
    (merges : one.mergesWith tmp = true) : runs first (rest ++ [tmp]) = [one.merge tmp] := by
  induction rest generalizing first with
  | nil =>
      cases same
      exact runs_merge merges
  | cons item rest ih =>
      cases taken : first.mergesWith item with
      | true =>
          rw [runs_merge taken] at same
          rw [List.cons_append, runs_merge taken]
          exact ih same
      | false =>
          rw [runs_apart taken] at same
          exact absurd (List.cons.inj same).2 (runs_ne_nil _ _)

theorem not_crosses_of_inside {item : LocalPageList} (wellFormed : item.WellFormed)
    (inside : item.Inside) : item.crossesBorder = false := by
  have nonempty := wellFormed.nonempty
  have last := inside (item.len - 1) (by omega)
  rw [← Nat.add_sub_assoc nonempty] at last
  simp [crossesBorder, swapspaceIndex_eq, boundaryIndex_eq nonempty, last]

/-- The halves of an item that crosses a border. -/
theorem halves_spec {item : LocalPageList} (wellFormed : item.WellFormed)
    (crosses : item.crossesBorder = true) :
    item.firstHalf.crossesBorder = false ∧ item.secondHalf.crossesBorder = false ∧
      item.firstHalf.startIndex = item.startIndex ∧
      item.startIndex < item.secondHalf.startIndex ∧
      item.startIndex + item.firstHalf.len = item.secondHalf.startIndex ∧
      item.secondHalf.startIndex + item.secondHalf.len = item.startIndex + item.len ∧
      0 < item.secondHalf.len := by
  obtain ⟨positive, less, _⟩ := border_spec wellFormed.nonempty crosses
  obtain ⟨firstFormed, firstInside⟩ := firstHalf_wellFormed wellFormed crosses
  obtain ⟨secondFormed, secondInside⟩ := secondHalf_wellFormed wellFormed crosses
  have start : item.secondHalf.startIndex = item.startIndex + item.border := rfl
  refine ⟨not_crosses_of_inside firstFormed firstInside,
    not_crosses_of_inside secondFormed secondInside, rfl, ?_, ?_, ?_, secondFormed.nonempty⟩
  · omega
  · rw [firstHalf_len (le_of_lt less), start]
  · rw [secondHalf_len, start]
    omega

/-- The halves lie in different swapspaces. -/
theorem halves_apart {item : LocalPageList} (wellFormed : item.WellFormed)
    (crosses : item.crossesBorder = true) :
    item.secondHalf.swapspaceIndex ≠ item.swapspaceIndex := by
  obtain ⟨_, _, _, beyond⟩ := border_spec wellFormed.nonempty crosses
  rw [swapspaceIndex_eq, swapspaceIndex_eq]
  exact beyond

end LocalPageList

namespace SenderLoop

open LocalPageList

variable {first tmp : LocalPageList} {rest back : List LocalPageList}

/-! ## Keeping the loop going -/

/-- The loop can be kept going from here. -/
def Kept (first : LocalPageList) (rest : List LocalPageList) : Prop :=
  ∀ s : SenderLoop, s.Holds first rest → KeptGoing turn s

/-- The writes can come to leave this behind of an item. -/
def Leaves (item : LocalPageList) (back : List LocalPageList) : Prop :=
  ∃ outcomes, putBack outcomes item = back

theorem leaves_nothing (item : LocalPageList) : Leaves item [] := by
  refine ⟨fun _ => .posted, ?_⟩
  unfold putBack backOf
  split <;> rfl

theorem leaves_whole (inside : first.crossesBorder = false) : Leaves first [first] := by
  refine ⟨fun _ => .failed, ?_⟩
  simp only [putBack, inside, Bool.false_eq_true, if_false, backOf]

theorem leaves_first (crosses : first.crossesBorder = true) : Leaves first [first.firstHalf] := by
  refine ⟨fun _ => .failed, ?_⟩
  simp only [putBack, crosses, if_true]

theorem leaves_second (wellFormed : first.WellFormed) (crosses : first.crossesBorder = true) :
    Leaves first [first.secondHalf] := by
  refine ⟨fun swapspace =>
    if swapspace = first.secondHalf.swapspaceIndex then .bounced else .posted, ?_⟩
  have apart := (halves_apart wellFormed crosses).symm
  simp only [putBack, crosses, if_true, if_neg apart, backOf]

theorem kept_merge (merges : first.mergesWith tmp = true) (kept : Kept (first.merge tmp) rest) :
    Kept first (tmp :: rest) := by
  intro s holds
  obtain ⟨next, goes, nextHolds⟩ := holds.turn_merge merges fun _ => .posted
  exact .of_again goes (kept next nextHolds)

theorem kept_send (apart : first.mergesWith tmp = false) (leaves : Leaves first back)
    (room : back ≠ [] → rest.length + back.length ≤ AlfQueue.ringReach)
    (kept : Kept tmp (rest ++ back)) : Kept first (tmp :: rest) := by
  intro s holds
  obtain ⟨outcomes, rfl⟩ := leaves
  obtain ⟨next, goes, nextHolds⟩ := holds.turn_send apart outcomes room
  exact .of_again goes (kept next nextHolds)

/-- A few items that do not cross a border, none of which merges with the one behind it when they
go round. -/
structure Rotates (first : LocalPageList) (rest : List LocalPageList) : Prop where
  others : rest ≠ []
  few : rest.length < AlfQueue.ringReach
  inside : ∀ item ∈ first :: rest, item.crossesBorder = false
  apart : List.IsChain (fun item next => item.mergesWith next = false) (first :: rest ++ [first])

/-- While every write fails, such items go round for ever. -/
theorem Rotates.kept (rotates : Rotates first rest) : Kept first rest := by
  intro s holds
  apply keptGoing_of_invariant (fun _ => WriteOutcome.failed) fun s : SenderLoop =>
    ∃ first rest, s.Holds first rest ∧ Rotates first rest
  · rintro s ⟨first, rest, holds, rotates⟩
    cases rest with
    | nil => exact absurd rfl rotates.others
    | cons tmp rest =>
        have apart := rotates.apart
        rw [List.cons_append, List.cons_append, List.isChain_cons_cons] at apart
        have few := rotates.few
        rw [List.length_cons] at few
        have back : putBack (fun _ => .failed) first = [first] := by
          simp only [putBack, rotates.inside first List.mem_cons_self, Bool.false_eq_true,
            if_false, backOf]
        obtain ⟨next, goes, nextHolds⟩ := holds.turn_send apart.1 (fun _ => .failed) fun _ => by
          rw [back, List.length_singleton]
          omega
        rw [back] at nextHolds
        refine ⟨next, goes, tmp, rest ++ [first], nextHolds, by simp, ?_, ?_, ?_⟩
        · rw [List.length_append, List.length_singleton]
          exact few
        · intro item member
          apply rotates.inside item
          simp only [List.mem_cons, List.mem_append, List.not_mem_nil, or_false] at member ⊢
          tauto
        · apply List.IsChain.append apart.2 (List.IsChain.singleton _)
          intro last isLast next isNext
          rw [← List.cons_append, List.getLast?_concat] at isLast
          cases isLast
          cases isNext
          exact apart.1
  · exact ⟨first, rest, holds, rotates⟩

theorem kept_pair (inside : first.crossesBorder = false) (insideTmp : tmp.crossesBorder = false)
    (apart : first.mergesWith tmp = false) (apartBack : tmp.mergesWith first = false) :
    Kept first [tmp] := by
  have rotates : Rotates first [tmp] := by
    refine ⟨List.cons_ne_nil _ _, by rw [List.length_singleton]; decide, ?_, ?_⟩
    · simp [inside, insideTmp]
    · simp [apart, apartBack]
  exact rotates.kept

theorem kept_triple {one other last : LocalPageList} (insideOne : one.crossesBorder = false)
    (insideOther : other.crossesBorder = false) (insideLast : last.crossesBorder = false)
    (apartOne : one.mergesWith other = false) (apartOther : other.mergesWith last = false)
    (apartLast : last.mergesWith one = false) : Kept one [other, last] := by
  have rotates : Rotates one [other, last] := by
    refine ⟨List.cons_ne_nil _ _, show 2 < AlfQueue.ringReach by decide, ?_, ?_⟩
    · simp [insideOne, insideOther, insideLast]
    · simp [apartOne, apartOther, apartLast]
  exact rotates.kept

/-- Of an item that crosses a border one half can be left that the item behind does not merge
with either way. -/
theorem kept_halved {item other : LocalPageList} (wellFormed : item.WellFormed)
    (crosses : item.crossesBorder = true) (nonempty : 0 < other.len) :
    ∃ half, Leaves item [half] ∧ half.crossesBorder = false ∧
      other.mergesWith half = false ∧ half.mergesWith other = false := by
  obtain ⟨insideFirst, insideSecond, start, before, border, ends, positive⟩ :=
    halves_spec wellFormed crosses
  by_cases avoid : item.startIndex = other.startIndex + other.len ∨
      other.startIndex = item.secondHalf.startIndex
  · refine ⟨item.secondHalf, leaves_second wellFormed crosses, insideSecond, ?_, ?_⟩
    · exact apart_of_ne (by omega)
    · exact apart_of_ne (by omega)
  · obtain ⟨notBefore, notBehind⟩ := not_or.mp avoid
    refine ⟨item.firstHalf, leaves_first crosses, insideFirst, ?_, ?_⟩
    · exact apart_of_ne (by omega)
    · exact apart_of_ne (by omega)

/-- An item in hand that crosses a border, and one on the list that it does not merge with. -/
theorem kept_crossing {item other : LocalPageList} (wellFormed : item.WellFormed)
    (crosses : item.crossesBorder = true) (nonempty : 0 < other.len)
    (inside : other.crossesBorder = false) (apart : item.mergesWith other = false) :
    Kept item [other] := by
  obtain ⟨half, leaves, insideHalf, apartHalf, apartBack⟩ :=
    kept_halved wellFormed crosses nonempty
  refine kept_send apart leaves (fun _ => show 1 ≤ AlfQueue.ringReach by decide) ?_
  exact kept_pair inside insideHalf apartHalf apartBack

/-- An item that crosses a border can leave a half behind that goes round with the next item. -/
theorem kept_left {item other : LocalPageList} (wellFormed : item.WellFormed)
    (otherFormed : other.WellFormed) (crosses : item.crossesBorder = true) :
    ∃ half, Leaves item [half] ∧ Kept other [half] := by
  cases otherCrosses : other.crossesBorder with
  | false =>
      obtain ⟨half, leaves, insideHalf, apart, apartBack⟩ :=
        kept_halved wellFormed crosses otherFormed.nonempty
      exact ⟨half, leaves, kept_pair otherCrosses insideHalf apart apartBack⟩
  | true =>
      obtain ⟨insideFirst, insideSecond, start, before, border, ends, positive⟩ :=
        halves_spec wellFormed crosses
      by_cases follows : item.startIndex = other.startIndex + other.len
      · refine ⟨item.secondHalf, leaves_second wellFormed crosses, ?_⟩
        exact kept_crossing otherFormed otherCrosses positive insideSecond
          (apart_of_ne (by omega))
      · refine ⟨item.firstHalf, leaves_first crosses, ?_⟩
        exact kept_crossing otherFormed otherCrosses (by omega) insideFirst
          (apart_of_ne (by omega))

/-- Two runs keep the loop going unless the second merges with the first when that comes back. -/
theorem kept_two {one other : LocalPageList} (wellFormed : one.WellFormed)
    (otherFormed : other.WellFormed) (apart : one.mergesWith other = false)
    (never : ¬ (one.crossesBorder = false ∧ other.mergesWith one = true)) :
    ∃ part, Leaves one [part] ∧ Kept other [part] := by
  cases crosses : one.crossesBorder with
  | true => exact kept_left wellFormed otherFormed crosses
  | false =>
      have apartBack : other.mergesWith one = false := by
        rw [← Bool.not_eq_true]
        exact fun merges => never ⟨crosses, merges⟩
      refine ⟨one, leaves_whole crosses, ?_⟩
      cases otherCrosses : other.crossesBorder with
      | false => exact kept_pair otherCrosses crosses apartBack apart
      | true => exact kept_crossing otherFormed otherCrosses wellFormed.nonempty crosses apartBack

/-- The same for three runs of which the last merges with the middle one: either the first goes
round with the last, or all three go round. -/
theorem kept_three {one other last : LocalPageList} (wellFormed : one.WellFormed)
    (otherFormed : other.WellFormed) (lastFormed : last.WellFormed)
    (apart : one.mergesWith other = false) (inside : other.crossesBorder = false)
    (merges : last.mergesWith other = true) :
    ∃ back more, Leaves one back ∧ Leaves other more ∧ back.length ≤ 1 ∧ more.length ≤ 1 ∧
      Kept last (back ++ more) := by
  obtain ⟨follows, fits⟩ := mergesWith_iff.mp merges
  have someOther := otherFormed.nonempty
  have someLast := lastFormed.nonempty
  have someOne := wellFormed.nonempty
  cases crosses : one.crossesBorder with
  | true =>
      obtain ⟨half, leaves, kept⟩ := kept_left wellFormed lastFormed crosses
      exact ⟨[half], [], leaves, leaves_nothing _, le_refl _, Nat.zero_le _, kept⟩
  | false =>
      refine ⟨[one], [other], leaves_whole crosses, leaves_whole inside, le_refl _, le_refl _, ?_⟩
      have apartLast : other.mergesWith last = false := apart_of_ne (by omega)
      cases mergesOne : last.mergesWith one with
      | true =>
          -- both the first and the middle run follow on the last one
          obtain ⟨followsOne, fitsOne⟩ := mergesWith_iff.mp mergesOne
          have len : (last.merge one).len = last.len + one.len := merge_len
          have start : (last.merge one).startIndex = last.startIndex := rfl
          have formed : (last.merge one).WellFormed :=
            merged_wellFormed lastFormed wellFormed followsOne fitsOne
          have apartMerged : (last.merge one).mergesWith other = false :=
            apart_of_ne (by omega)
          refine kept_merge mergesOne ?_
          cases mergedCrosses : (last.merge one).crossesBorder with
          | false => exact kept_pair mergedCrosses inside apartMerged (apart_of_ne (by omega))
          | true => exact kept_crossing formed mergedCrosses someOther inside apartMerged
      | false =>
          cases lastCrosses : last.crossesBorder with
          | false => exact kept_triple lastCrosses crosses inside mergesOne apart apartLast
          | true =>
              obtain ⟨insideFirst, insideSecond, start, before, border, ends, positive⟩ :=
                halves_spec lastFormed lastCrosses
              have few : [other].length + 1 ≤ AlfQueue.ringReach :=
                show 2 ≤ AlfQueue.ringReach by decide
              by_cases behind : one.startIndex = last.secondHalf.startIndex
              · refine kept_send mergesOne (leaves_second lastFormed lastCrosses) (fun _ => few) ?_
                exact kept_triple crosses inside insideSecond apart
                  (apart_of_ne (by omega)) (apart_of_ne (by omega))
              · refine kept_send mergesOne (leaves_first lastCrosses) (fun _ => few) ?_
                exact kept_triple crosses inside insideFirst apart
                  (apart_of_ne (by omega)) (apart_of_ne (by omega))

/-! ## From the list to its runs -/

theorem kept_single {one : LocalPageList} (same : runs first rest = [one])
    (kept : Kept one back) : Kept first (rest ++ back) := by
  induction rest generalizing first with
  | nil =>
      cases same
      exact kept
  | cons tmp rest ih =>
      cases merges : first.mergesWith tmp with
      | true =>
          rw [runs_merge merges] at same
          exact kept_merge merges (ih same)
      | false =>
          rw [runs_apart merges] at same
          exact absurd (List.cons.inj same).2 (runs_ne_nil _ _)

/-- The first run is sent and leaves something behind; the others come next. -/
theorem kept_next {one other : LocalPageList} {more left : List LocalPageList}
    (same : runs first rest = one :: other :: more) (leaves : Leaves one left)
    (room : left ≠ [] → rest.length + back.length + left.length ≤ AlfQueue.ringReach)
    (kept : ∀ tmp later, runs tmp later = other :: more → later.length ≤ rest.length →
      (∀ item ∈ tmp :: later, item ∈ rest) → Kept tmp (later ++ (back ++ left))) :
    Kept first (rest ++ back) := by
  induction rest generalizing first with
  | nil => cases same
  | cons tmp rest ih =>
      rw [List.length_cons] at room
      cases merges : first.mergesWith tmp with
      | true =>
          rw [runs_merge merges] at same
          refine kept_merge merges (ih same (fun some_ => by have bound := room some_; omega) ?_)
          intro item later runsLater shorter within
          exact kept item later runsLater (le_trans shorter (Nat.le_succ _))
            fun other member => List.mem_cons_of_mem _ (within other member)
      | false =>
          rw [runs_apart merges] at same
          obtain ⟨rfl, later⟩ := List.cons.inj same
          rw [List.cons_append]
          refine kept_send merges leaves (fun some_ => ?_) ?_
          · have bound := room some_
            rw [List.length_append]
            omega
          · rw [List.append_assoc]
            exact kept tmp rest later (Nat.le_succ _) fun item member => member

/-- Two or more runs keep the loop going, but for two of which the second merges with the first
when that comes back. -/
theorem kept_of_runs {one other : LocalPageList} {more : List LocalPageList}
    (wellFormed : first.WellFormed) (all : ∀ item ∈ rest, item.WellFormed)
    (same : runs first rest = one :: other :: more)
    (never : more = [] → ¬ (one.crossesBorder = false ∧ other.mergesWith one = true)) :
    Kept first rest := by
  induction more generalizing first rest one other with
  | nil =>
      have formed := runs_wellFormed wellFormed all
      rw [same] at formed
      obtain ⟨part, leaves, kept⟩ := kept_two (formed one (by simp)) (formed other (by simp))
        (runs_two_apart same) (never rfl)
      have few := length_le_runs wellFormed all
      rw [same, List.length_cons, List.length_singleton] at few
      rw [← List.append_nil rest]
      refine kept_next same leaves (fun _ => ?_) fun tmp later runsLater _ _ => ?_
      · unfold rdmaWrBufLen at few
        rw [List.length_nil, List.length_singleton]
        unfold AlfQueue.ringReach
        omega
      · exact kept_single runsLater kept
  | cons last more ih =>
      have formed := runs_wellFormed wellFormed all
      rw [same] at formed
      rw [← List.append_nil rest]
      by_cases ends : more = [] ∧ other.crossesBorder = false ∧ last.mergesWith other = true
      · obtain ⟨rfl, inside, merges⟩ := ends
        obtain ⟨left, leftLater, leaves, leavesLater, short, shortLater, kept⟩ :=
          kept_three (formed one (by simp)) (formed other (by simp)) (formed last (by simp))
            (runs_two_apart same) inside merges
        have few := length_le_runs wellFormed all
        rw [same, List.length_cons, List.length_cons, List.length_singleton] at few
        unfold rdmaWrBufLen at few
        refine kept_next same leaves (fun _ => ?_) fun tmp later runsLater shorter _ => ?_
        · rw [List.length_nil]
          unfold AlfQueue.ringReach
          omega
        · refine kept_next runsLater leavesLater (fun _ => ?_) fun item rest runsLast _ _ => ?_
          · rw [List.nil_append]
            unfold AlfQueue.ringReach
            omega
          · exact kept_single runsLast kept
      · refine kept_next same (leaves_nothing one) (fun some_ => absurd rfl some_)
          fun tmp later runsLater _ within => ?_
        have allLater : ∀ item ∈ tmp :: later, item.WellFormed :=
          fun item member => all item (within item member)
        rw [List.append_nil, List.append_nil]
        exact ih (allLater tmp List.mem_cons_self)
          (fun item member => allLater item (List.mem_cons_of_mem _ member)) runsLater
          fun nothing merges => ends ⟨nothing, merges⟩

/-! ## Returning -/

/-- A single run ends the loop whatever becomes of its write. -/
theorem returns_single {s : SenderLoop} {one : LocalPageList} (holds : s.Holds first rest)
    (same : runs first rest = [one]) (choices : Nat → Nat → WriteOutcome) :
    Returns turn choices s := by
  induction rest generalizing first s choices with
  | nil => exact returns_of_returned (holds.turn_nil _)
  | cons tmp rest ih =>
      cases merges : first.mergesWith tmp with
      | true =>
          rw [runs_merge merges] at same
          obtain ⟨next, goes, nextHolds⟩ := holds.turn_merge merges (choices 0)
          exact returns_of_again goes (ih nextHolds same _)
      | false =>
          rw [runs_apart merges] at same
          exact absurd (List.cons.inj same).2 (runs_ne_nil _ _)

/-- Of two runs the second meets the first again, if that comes back, and takes it up. -/
theorem returns_two {s : SenderLoop} {one other : LocalPageList} (holds : s.Holds first rest)
    (same : runs first rest = [one, other]) (few : rest.length < AlfQueue.ringReach)
    (inside : one.crossesBorder = false) (merges : other.mergesWith one = true)
    (choices : Nat → Nat → WriteOutcome) : Returns turn choices s := by
  induction rest generalizing first s choices with
  | nil => cases same
  | cons tmp rest ih =>
      rw [List.length_cons] at few
      cases taken : first.mergesWith tmp with
      | true =>
          rw [runs_merge taken] at same
          obtain ⟨next, goes, nextHolds⟩ := holds.turn_merge taken (choices 0)
          exact returns_of_again goes (ih nextHolds same (Nat.lt_of_succ_lt few) _)
      | false =>
          rw [runs_apart taken] at same
          obtain ⟨rfl, later⟩ := List.cons.inj same
          have whole : putBack (choices 0) first =
              backOf (choices 0 first.swapspaceIndex) first := by
            simp only [putBack, inside, Bool.false_eq_true, if_false]
          have short : (backOf (choices 0 first.swapspaceIndex) first).length ≤ 1 := by
            unfold backOf
            split <;> simp
          obtain ⟨next, goes, nextHolds⟩ := holds.turn_send taken (choices 0) fun _ => by
            rw [whole]
            omega
          refine returns_of_again goes ?_
          rw [whole] at nextHolds
          cases outcome : choices 0 first.swapspaceIndex with
          | posted =>
              rw [outcome, backOf, List.append_nil] at nextHolds
              exact returns_single nextHolds later _
          | failed | bounced =>
              rw [outcome, backOf] at nextHolds
              exact returns_single nextHolds (runs_append later merges) _

/-- `remote_sender_fn` returns whatever becomes of the writes exactly when the items on the list
merge into one, or into two of which the second merges with the first when that comes back. -/
theorem returns_iff {pool : ValetPagePool LocalPageList} (serving : pool.Serving)
    (wellFormed : ∀ item ∈ pool.contents, item.WellFormed) :
    (∀ choices, Returns turn choices (called pool)) ↔ MergesTogether pool.contents := by
  cases contents : pool.contents with
  | nil =>
      refine ⟨fun _ => trivial, fun _ choices => ?_⟩
      exact returns_of_returned (turn_called_nil serving contents _)
  | cons first rest =>
      rw [contents] at wellFormed
      have formed := wellFormed first List.mem_cons_self
      have all : ∀ item ∈ rest, item.WellFormed :=
        fun item member => wellFormed item (List.mem_cons_of_mem _ member)
      constructor
      · intro claim
        by_contra apart
        have kept : Kept first rest := by
          rw [MergesTogether] at apart
          split at apart
          · exact absurd trivial apart
          · rename_i one other same
            exact kept_of_runs formed all same fun _ => apart
          · rename_i notOne notTwo
            cases same : runs first rest with
            | nil => exact absurd same (runs_ne_nil _ _)
            | cons one more =>
                cases more with
                | nil => exact absurd same (notOne one)
                | cons other more =>
                    refine kept_of_runs formed all same ?_
                    rintro rfl
                    exact absurd same (notTwo one other)
        obtain ⟨next, goes, holds⟩ :=
          turn_called_cons serving contents fun _ => .posted
        have keptGoing : KeptGoing turn (called pool) := .of_again goes (kept next holds)
        exact keptGoing_iff.mp keptGoing claim
      · intro together choices
        obtain ⟨next, goes, holds⟩ := turn_called_cons serving contents (choices 0)
        refine returns_of_again goes ?_
        rw [MergesTogether] at together
        split at together
        · rename_i one same
          exact returns_single holds same _
        · rename_i one other same
          have few := length_le_runs formed all
          rw [same, List.length_cons, List.length_singleton] at few
          unfold rdmaWrBufLen at few
          refine returns_two holds same ?_ together.1 together.2 _
          unfold AlfQueue.ringReach
          omega
        · exact together.elim

/-- A new item of one page. -/
def pageItem (index : Nat) : LocalPageList := ⟨index, [index], 0⟩

/-- The list after two items of one page each were put on it. -/
def twoPages (index other : Nat) : ValetPagePool LocalPageList :=
  afterCalls ValetPagePool.respond ValetPagePool.mempoolInit
    [.put (pageItem index), .put (pageItem other)]

theorem serving_twoPages (index other : Nat) : (twoPages index other).Serving :=
  ValetPagePool.serving_after _

theorem contents_twoPages (index other : Nat) :
    (twoPages index other).contents = [pageItem index, pageItem other] := by
  have serving : (ValetPagePool.mempoolInit : ValetPagePool LocalPageList).Serving :=
    ValetPagePool.serving_init
  have room : (ValetPagePool.mempoolInit : ValetPagePool LocalPageList).contents.length <
      AlfQueue.ringReach := by
    rw [ValetPagePool.contents_init]
    decide
  have first := (serving.contents_put (pageItem index) room).2
  rw [ValetPagePool.contents_init, List.nil_append] at first
  have next := (serving.respond_put (pageItem index)).1
  have roomNext : (ValetPagePool.respond .mempoolInit (.put (pageItem index))).2.contents.length <
      AlfQueue.ringReach := by
    rw [first]
    exact show 1 < AlfQueue.ringReach by decide
  have second := (next.contents_put (pageItem other) roomNext).2
  rw [first] at second
  exact second

theorem pageItem_wellFormed {index : Nat} (inDevice : index < devicePages) :
    (pageItem index).WellFormed :=
  ⟨rfl, Nat.one_pos, show 1 ≤ rdmaWrBufLen by decide, inDevice⟩

theorem returns_iff_pages : (∀ choices, Returns turn choices (called (twoPages 0 1))) ↔
    MergesTogether (twoPages 0 1).contents := by
  refine returns_iff (serving_twoPages 0 1) ?_
  intro item member
  rw [contents_twoPages] at member
  rcases List.mem_cons.mp member with rfl | later
  · exact pageItem_wellFormed (by decide)
  · cases List.mem_singleton.mp later
    exact pageItem_wellFormed (by decide)

/-- Two pages that are not next to each other go round as long as writes fail. -/
theorem sender_never_returns : ¬ ∀ pool : ValetPagePool LocalPageList, pool.Serving →
    (∀ item ∈ pool.contents, item.WellFormed) →
      ∀ choices, Returns turn choices (called pool) := by
  intro claim
  have returns := claim (twoPages 0 5) (serving_twoPages 0 5) (by
    intro item member
    rw [contents_twoPages] at member
    rcases List.mem_cons.mp member with rfl | later
    · exact pageItem_wellFormed (by decide)
    · cases List.mem_singleton.mp later
      exact pageItem_wellFormed (by decide))
  obtain ⟨next, goes, holds⟩ := turn_called_cons (serving_twoPages 0 5) (contents_twoPages 0 5)
    fun _ => .posted
  have kept : Kept (pageItem 0) [pageItem 5] :=
    kept_pair (by decide) (by decide) (by decide) (by decide)
  exact keptGoing_iff.mp (.of_again goes (kept next holds)) returns

end SenderLoop

end Valet.Bd
