import Mathlib.Order.Lattice
import Mathlib.Data.List.Basic

/-!
# A search for the least key that starts from a mark

The search notes the best element so far and has a value that says that there is
none yet.  An element may have that value itself; then the one behind it is taken
whatever its key is.
-/

namespace Valet.Library

variable {α κ : Type*} [LinearOrder κ] (key : α → κ) (blank : α → Prop) [DecidablePred blank]

/-- The search from the best element so far on; a blank one counts as none. -/
def scan : α → List α → α
  | best, [] => best
  | best, next :: rest =>
      if blank best ∨ key next < key best then scan next rest else scan best rest

variable {key blank} {mark : κ} {best : α} {rest : List α}

theorem scan_mem (best : α) (rest : List α) : scan key blank best rest ∈ best :: rest := by
  induction rest generalizing best with
  | nil => exact List.mem_singleton_self _
  | cons next rest ih =>
      rw [scan]
      split
      · exact List.mem_cons_of_mem _ (ih next)
      · rcases List.mem_cons.mp (ih best) with same | behind
        · rw [same]
          exact List.mem_cons_self
        · exact List.mem_cons_of_mem _ (List.mem_cons_of_mem _ behind)

/-- From an element that stays noted the search is right. -/
theorem scan_least (marker : ∀ a, blank a → key a = mark) (noted : ¬ blank best)
    (stays : key best ≤ mark ∨ ∀ a ∈ rest, ¬ blank a) :
    ∀ a ∈ best :: rest, key (scan key blank best rest) ≤ key a := by
  induction rest generalizing best with
  | nil =>
      intro a member
      rw [List.mem_singleton.mp member, scan]
  | cons next rest ih =>
      intro a member
      rw [scan]
      split
      · rename_i taken
        have less : key next < key best := taken.resolve_left noted
        have nextNoted : ¬ blank next := by
          rcases stays with low | all
          · intro marked
            rw [marker next marked] at less
            exact absurd low (not_le.mpr less)
          · exact all next List.mem_cons_self
        have nextStays : key next ≤ mark ∨ ∀ a ∈ rest, ¬ blank a := by
          rcases stays with low | all
          · exact .inl (less.le.trans low)
          · exact .inr fun a behind => all a (List.mem_cons_of_mem _ behind)
        have least := ih nextNoted nextStays
        rcases List.mem_cons.mp member with rfl | behind
        · exact (least next List.mem_cons_self).trans less.le
        · exact least a behind
      · rename_i kept
        have enough : key best ≤ key next := not_lt.mp fun less => kept (.inr less)
        have least := ih noted (stays.imp_right fun all a behind =>
          all a (List.mem_cons_of_mem _ behind))
        rcases List.mem_cons.mp member with rfl | behind
        · exact least a List.mem_cons_self
        · rcases List.mem_cons.mp behind with rfl | last
          · exact (least best List.mem_cons_self).trans enough
          · exact least a (List.mem_cons_of_mem _ last)

/-- An element below the mark, or at it without being blank, ends all mistakes. -/
theorem scan_least_of_low (marker : ∀ a, blank a → key a = mark)
    (low : ∃ a ∈ best :: rest, ¬ blank a ∧ key a ≤ mark) :
    ∀ a ∈ best :: rest, key (scan key blank best rest) ≤ key a := by
  induction rest generalizing best with
  | nil =>
      intro a member
      rw [List.mem_singleton.mp member, scan]
  | cons next rest ih =>
      obtain ⟨low, member, noted, below⟩ := low
      rcases List.mem_cons.mp member with rfl | behind
      · exact scan_least marker noted (.inl below)
      · intro a member
        rw [scan]
        split
        · rename_i taken
          have least := ih ⟨low, behind, noted, below⟩
          rcases List.mem_cons.mp member with rfl | later
          · rcases taken with marked | less
            · rw [marker _ marked]
              exact (least low behind).trans below
            · exact (least next List.mem_cons_self).trans less.le
          · exact least a later
        · rename_i kept
          have bestNoted : ¬ blank best := fun marked => kept (.inl marked)
          have enough : key best ≤ key next := not_lt.mp fun less => kept (.inr less)
          have least : ∀ a ∈ best :: rest, key (scan key blank best rest) ≤ key a := by
            rcases List.mem_cons.mp behind with rfl | later
            · exact ih ⟨best, List.mem_cons_self, bestNoted, enough.trans below⟩
            · exact ih ⟨low, List.mem_cons_of_mem _ later, noted, below⟩
          rcases List.mem_cons.mp member with rfl | later
          · exact least a List.mem_cons_self
          · rcases List.mem_cons.mp later with rfl | last
            · exact (least best List.mem_cons_self).trans enough
            · exact least a (List.mem_cons_of_mem _ last)

/-- Without such an element, what is found is blank exactly if the last element is. -/
theorem blank_scan_iff (marker : ∀ a, blank a → key a = mark)
    (high : ∀ a ∈ best :: rest, blank a ∨ mark < key a) :
    blank (scan key blank best rest) ↔
      blank ((best :: rest).getLast (List.cons_ne_nil _ _)) := by
  induction rest generalizing best with
  | nil => exact Iff.rfl
  | cons next rest ih =>
      have behind : ∀ a ∈ next :: rest, blank a ∨ mark < key a := fun a member =>
        high a (List.mem_cons_of_mem _ member)
      rw [scan, List.getLast_cons (List.cons_ne_nil next rest)]
      split
      · exact ih behind
      · rename_i kept
        have bestNoted : ¬ blank best := fun marked => kept (.inl marked)
        have nextNoted : ¬ blank next := by
          intro marked
          refine kept (.inr ?_)
          rw [marker next marked]
          exact (high best List.mem_cons_self).resolve_left bestNoted
        have skipped : ∀ a ∈ best :: rest, blank a ∨ mark < key a := by
          intro a member
          rcases List.mem_cons.mp member with rfl | later
          · exact high a List.mem_cons_self
          · exact behind a (List.mem_cons_of_mem _ later)
        rw [ih skipped]
        cases rest with
        | nil => exact iff_of_false bestNoted nextNoted
        | cons last rest =>
            rw [List.getLast_cons (List.cons_ne_nil last rest),
              List.getLast_cons (List.cons_ne_nil last rest)]

/-- The search finds the least key exactly if no element is blank, or one that is not is no greater
than the mark, or the last element is blank. -/
theorem scan_least_iff (marker : ∀ a, blank a → key a = mark) :
    (∀ a ∈ best :: rest, key (scan key blank best rest) ≤ key a) ↔
      (∀ a ∈ best :: rest, ¬ blank a) ∨ (∃ a ∈ best :: rest, ¬ blank a ∧ key a ≤ mark) ∨
        blank ((best :: rest).getLast (List.cons_ne_nil _ _)) := by
  by_cases low : ∃ a ∈ best :: rest, ¬ blank a ∧ key a ≤ mark
  · exact iff_of_true (scan_least_of_low marker low) (.inr (.inl low))
  · have high : ∀ a ∈ best :: rest, blank a ∨ mark < key a := by
      intro a member
      by_cases marked : blank a
      · exact .inl marked
      · exact .inr (not_le.mp fun below => low ⟨a, member, marked, below⟩)
    constructor
    · intro least
      by_cases clear : ∀ a ∈ best :: rest, ¬ blank a
      · exact .inl clear
      · obtain ⟨a, some⟩ := not_forall.mp clear
        obtain ⟨member, marked⟩ := Classical.not_imp.mp some
        refine .inr (.inr ((blank_scan_iff marker high).mp ?_))
        have below := least a member
        rw [marker a (not_not.mp marked)] at below
        exact (high _ (scan_mem best rest)).resolve_right (not_lt.mpr below)
    · rintro (clear | found | last)
      · exact scan_least marker (clear best List.mem_cons_self)
          (.inr fun a behind => clear a (List.mem_cons_of_mem _ behind))
      · exact absurd found low
      · intro a member
        rw [marker _ ((blank_scan_iff marker high).mpr last)]
        rcases high a member with marked | above
        · rw [marker a marked]
        · exact above.le

end Valet.Library
