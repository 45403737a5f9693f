import Valet.Daemon.Accounting
import Valet.Library.MarkedSearch
import Mathlib.Data.List.Pairwise

/-!
# The region that is evicted

Each pass of the loop of `do_evict` looks for the mapped region with the oldest
time stamp.  It starts from an all-zero time stamp, which is also that of a region
to which nothing was written since it was mapped.
-/

namespace Valet.Daemon

open Valet.Wire Valet.Library

/-- The time stamp of a region to which nothing was written. -/
def Timeval.Blank (tv : Timeval) : Prop := tv.tvSec = 0 ∧ tv.tvUsec = 0

instance (tv : Timeval) : Decidable tv.Blank := inferInstanceAs (Decidable (_ ∧ _))

theorem Timeval.Blank.micros {tv : Timeval} (blank : tv.Blank) : tv.micros = 0 := by
  rw [Timeval.micros, blank.1, blank.2]
  rfl

namespace RdmaMrHandler

variable {mrh : RdmaMrHandler} {stamps : Region → Timeval}

/-- The mapped regions in the order of their numbers. -/
def mappedRegions (mrh : RdmaMrHandler) : List Region :=
  (List.finRange maxMrSizeGb).filter mrh.isMapped

theorem mem_mappedRegions {i : Region} : i ∈ mrh.mappedRegions ↔ mrh.isMapped i = true := by
  rw [mappedRegions, List.mem_filter]
  exact ⟨fun both => both.2, fun mapped => ⟨List.mem_finRange i, mapped⟩⟩

/-- The region that the search from a mapped region on ends with. -/
def oldestFrom (stamps : Region → Timeval) (i : Region) (rest : List Region) : Region :=
  scan (fun i => (stamps i).micros) (fun i => (stamps i).Blank) i rest

theorem pickOldest_noted (regions : List Region) (i : Region) :
    mrh.pickOldest stamps regions (stamps i) (some i) =
      some (oldestFrom stamps i (regions.filter mrh.isMapped)) := by
  induction regions generalizing i with
  | nil => rfl
  | cons next rest ih =>
      rw [pickOldest]
      cases mapped : mrh.cbIndexMap next with
      | none =>
          rw [Option.isNone_none, if_pos rfl, List.filter_cons_of_neg (by simp [isMapped, mapped])]
          exact ih i
      | some client =>
          rw [Option.isNone_some, if_neg Bool.false_ne_true,
            List.filter_cons_of_pos (by simp [isMapped, mapped]), oldestFrom, scan]
          by_cases blank : (stamps i).tvSec = 0 ∧ (stamps i).tvUsec = 0
          · rw [if_pos blank, if_pos (.inl blank)]
            exact ih next
          · rw [if_neg blank]
            by_cases less : (stamps i).micros > (stamps next).micros
            · rw [if_pos less, if_pos (.inr less)]
              exact ih next
            · have kept : ¬ ((stamps i).Blank ∨ (stamps next).micros < (stamps i).micros) :=
                not_or.mpr ⟨blank, less⟩
              rw [if_neg less, if_neg kept]
              exact ih i

/-- What the search finds; the number of the pass before stays if no region is mapped. -/
theorem pickOldest_eq (regions : List Region) (oldestRbIndex : Option Region) :
    mrh.pickOldest stamps regions ⟨0, 0⟩ oldestRbIndex =
      match regions.filter mrh.isMapped with
      | [] => oldestRbIndex
      | i :: rest => some (oldestFrom stamps i rest) := by
  induction regions with
  | nil => rfl
  | cons next rest ih =>
      rw [pickOldest]
      cases mapped : mrh.cbIndexMap next with
      | none =>
          rw [Option.isNone_none, if_pos rfl, List.filter_cons_of_neg (by simp [isMapped, mapped])]
          exact ih
      | some client =>
          rw [Option.isNone_some, if_neg Bool.false_ne_true, if_pos ⟨rfl, rfl⟩,
            List.filter_cons_of_pos (by simp [isMapped, mapped])]
          exact pickOldest_noted rest next

/-- A mapped region is found as soon as there is one. -/
theorem pickOldest_mapped {i : Region} (stamps : Region → Timeval) (mapped : mrh.isMapped i = true)
    (oldestRbIndex : Option Region) :
    ∃ found, mrh.pickOldest stamps (List.finRange maxMrSizeGb) ⟨0, 0⟩ oldestRbIndex = some found ∧
      mrh.isMapped found = true := by
  rw [pickOldest_eq]
  have member : i ∈ mrh.mappedRegions := mem_mappedRegions.mpr mapped
  rw [mappedRegions] at member
  cases regions : (List.finRange maxMrSizeGb).filter mrh.isMapped with
  | nil =>
      rw [regions] at member
      cases member
  | cons first rest =>
      refine ⟨oldestFrom stamps first rest, rfl, mem_mappedRegions.mp ?_⟩
      rw [mappedRegions, regions]
      exact scan_mem first rest

/-- Some region is mapped, and no mapped region is blank, or one that is not has no time stamp above
zero, or the mapped region with the greatest number is blank. -/
structure ShowsOldest (mrh : RdmaMrHandler) (stamps : Region → Timeval) : Prop where
  some_ : ∃ i, mrh.isMapped i = true
  shows : (∀ i, mrh.isMapped i = true → ¬ (stamps i).Blank) ∨
    (∃ i, mrh.isMapped i = true ∧ ¬ (stamps i).Blank ∧ (stamps i).micros ≤ 0) ∨
      ∃ i, mrh.isMapped i = true ∧ (∀ j, mrh.isMapped j = true → j ≤ i) ∧ (stamps i).Blank

/-- The region is mapped, and no mapped region has an older time stamp. -/
def IsOldest (mrh : RdmaMrHandler) (stamps : Region → Timeval) (i : Region) : Prop :=
  mrh.isMapped i = true ∧ ∀ j, mrh.isMapped j = true → (stamps i).micros ≤ (stamps j).micros

/-- The last mapped region has the greatest number. -/
theorem getLast_mappedRegions {i first : Region} {rest : List Region}
    (regions : mrh.mappedRegions = first :: rest) :
    (first :: rest).getLast (List.cons_ne_nil _ _) = i ↔
      mrh.isMapped i = true ∧ ∀ j, mrh.isMapped j = true → j ≤ i := by
  have sorted : (first :: rest).Pairwise (· ≤ ·) := by
    rw [← regions]
    exact (List.pairwise_le_finRange _).filter _
  have greatest : ∀ j, mrh.isMapped j = true →
      j ≤ (first :: rest).getLast (List.cons_ne_nil _ _) := by
    intro j mapped
    have member := mem_mappedRegions.mpr mapped
    rw [regions] at member
    exact sorted.rel_getLast member
  have last : mrh.isMapped ((first :: rest).getLast (List.cons_ne_nil _ _)) = true := by
    rw [← mem_mappedRegions, regions]
    exact List.getLast_mem _
  constructor
  · rintro rfl
    exact ⟨last, greatest⟩
  · rintro ⟨mapped, all⟩
    exact le_antisymm (all _ last) (greatest i mapped)

/-- The search finds an oldest region exactly if the time stamps show it. -/
theorem pickOldest_isOldest_iff (oldestRbIndex : Option Region) :
    (∃ i, mrh.pickOldest stamps (List.finRange maxMrSizeGb) ⟨0, 0⟩ oldestRbIndex = some i ∧
      mrh.IsOldest stamps i) ↔ mrh.ShowsOldest stamps := by
  rw [pickOldest_eq]
  cases regions : (List.finRange maxMrSizeGb).filter mrh.isMapped with
  | nil =>
      have nothing : ∀ i, ¬ mrh.isMapped i = true := by
        intro i mapped
        have member := mem_mappedRegions.mpr mapped
        rw [mappedRegions, regions] at member
        cases member
      constructor
      · rintro ⟨i, _, mapped, _⟩
        exact absurd mapped (nothing i)
      · rintro ⟨⟨i, mapped⟩, _⟩
        exact absurd mapped (nothing i)
  | cons first rest =>
      have member : ∀ i, i ∈ first :: rest ↔ mrh.isMapped i = true := by
        intro i
        rw [← regions]
        exact mem_mappedRegions
      have least : (∀ a ∈ first :: rest, (stamps (oldestFrom stamps first rest)).micros ≤
          (stamps a).micros) ↔ _ := scan_least_iff fun _ => Timeval.Blank.micros
      have found : (∃ i, some (oldestFrom stamps first rest) = some i ∧ mrh.IsOldest stamps i) ↔
          ∀ a ∈ first :: rest, (stamps (oldestFrom stamps first rest)).micros ≤
            (stamps a).micros := by
        constructor
        · rintro ⟨i, same, _, all⟩ a inside
          cases same
          exact all a ((member a).mp inside)
        · intro all
          exact ⟨_, rfl, (member _).mp (scan_mem first rest),
            fun j mapped => all j ((member j).mpr mapped)⟩
      refine found.trans (least.trans ?_)
      have mapped : mrh.isMapped first = true := (member first).mp List.mem_cons_self
      constructor
      · rintro (clear | ⟨i, inside, noted, low⟩ | last)
        · exact ⟨⟨first, mapped⟩, .inl fun i is => clear i ((member i).mpr is)⟩
        · exact ⟨⟨first, mapped⟩, .inr (.inl ⟨i, (member i).mp inside, noted, low⟩)⟩
        · obtain ⟨is, greatest⟩ := (getLast_mappedRegions regions).mp rfl
          exact ⟨⟨first, mapped⟩, .inr (.inr ⟨_, is, greatest, last⟩)⟩
      · rintro ⟨_, clear | ⟨i, is, noted, low⟩ | ⟨i, is, greatest, blank⟩⟩
        · exact .inl fun i inside => clear i ((member i).mp inside)
        · exact .inr (.inl ⟨i, (member i).mpr is, noted, low⟩)
        · rw [(getLast_mappedRegions regions).mpr ⟨is, greatest⟩]
          exact .inr (.inr blank)

end RdmaMrHandler

namespace Session

variable {s : Session} {stamps : Region → Timeval}

/-- The pass sends an `EVICT` for a mapped region with the oldest time stamp to the client that has
it. -/
def SendsOldest (s : Session) (stamps : Region → Timeval) (evictSize : Int)
    (oldestRbIndex : Option Region) (stopSizeG : Int) : Prop :=
  ∃ i client next, s.mrh.IsOldest stamps i ∧ s.mrh.cbIndexMap i = some client ∧
    s.evictTurn stamps evictSize oldestRbIndex stopSizeG = .ok next ∧
      next.sent = s.sent ++
        [(client, .message (s.evictMessage client i (s.mrh.clientRbIdx i) s.myIndex))]

/-- The message is about the region that was found. -/
theorem sent_of_evictTurn {evictSize stopSizeG : Int} {oldestRbIndex : Option Region}
    {next : Session}
    (ran : s.evictTurn stamps evictSize oldestRbIndex stopSizeG = .ok next) :
    ∃ i client, s.mrh.pickOldest stamps (List.finRange maxMrSizeGb) ⟨0, 0⟩ oldestRbIndex = some i ∧
      s.mrh.cbIndexMap i = some client ∧
        next.sent = s.sent ++
          [(client, .message (s.evictMessage client i (s.mrh.clientRbIdx i) s.myIndex))] := by
  unfold evictTurn at ran
  split at ran
  · cases ran
  · rename_i i found
    split at ran
    · cases ran
    · rename_i client mapped
      cases ran
      refine ⟨i, client, found, mapped, ?_⟩
      simp [sendEvict, postSend, setCb]

theorem sendsOldest_iff_isOldest {evictSize stopSizeG : Int} {oldestRbIndex : Option Region} :
    s.SendsOldest stamps evictSize oldestRbIndex stopSizeG ↔
      ∃ i, s.mrh.pickOldest stamps (List.finRange maxMrSizeGb) ⟨0, 0⟩ oldestRbIndex = some i ∧
        s.mrh.IsOldest stamps i := by
  constructor
  · rintro ⟨i, client, next, oldest, _, ran, sent⟩
    obtain ⟨found, owner, picks, _, also_⟩ := sent_of_evictTurn ran
    -- the two messages have the same number
    have same := List.append_cancel_left (also_.symm.trans sent)
    have number : found = i := by
      simp only [List.cons.injEq, and_true, Prod.mk.injEq, Post.message.injEq] at same
      exact Fin.ext (Int.ofNat.inj (congrArg Message.rbIndex same.2))
    exact ⟨i, number ▸ picks, oldest⟩
  · rintro ⟨i, picks, oldest⟩
    obtain ⟨client, mapped⟩ := Option.isSome_iff_exists.mp oldest.1
    have ran : ∃ next, s.evictTurn stamps evictSize oldestRbIndex stopSizeG = .ok next := by
      unfold evictTurn
      rw [picks]
      dsimp only
      rw [mapped]
      exact ⟨_, rfl⟩
    obtain ⟨next, ran⟩ := ran
    obtain ⟨found, owner, again, has, sent⟩ := sent_of_evictTurn ran
    rw [picks] at again
    cases again
    rw [mapped] at has
    cases has
    exact ⟨i, client, next, oldest, mapped, ran, sent⟩

/-- A pass evicts an oldest region exactly if the time stamps show it. -/
theorem evictTurn_sendsOldest_iff (s : Session) (stamps : Region → Timeval) (evictSize : Int)
    (oldestRbIndex : Option Region) (stopSizeG : Int) :
    s.SendsOldest stamps evictSize oldestRbIndex stopSizeG ↔ s.mrh.ShowsOldest stamps :=
  sendsOldest_iff_isOldest.trans (RdmaMrHandler.pickOldest_isOldest_iff oldestRbIndex)

theorem zero_lt_maxMrSizeGb : 0 < maxMrSizeGb := by decide

theorem one_lt_maxMrSizeGb : 1 < maxMrSizeGb := by decide

/-- The first two regions. -/
def firstRegion : Region := ⟨0, zero_lt_maxMrSizeGb⟩

def secondRegion : Region := ⟨1, one_lt_maxMrSizeGb⟩

/-- A daemon with seven regions, of which a client gets the first two. -/
def twoMapped : Session :=
  let request : Message := { Message.empty with type := .reqMrMap }
  let s := init 0 (fun _ => ⟨0, 0⟩) 22 22
  ((s.prepareSingleMr 0 request false ⟨1, 1⟩).2.prepareSingleMr 0 request false ⟨2, 2⟩).2

theorem accounted_twoMapped : twoMapped.Accounted :=
  ((accounted_init 0 (fun _ => ⟨0, 0⟩) 22 22).prepareSingleMr
    ⟨firstRegion, by decide +kernel⟩).prepareSingleMr ⟨secondRegion, by decide +kernel⟩

/-- Nothing was written to the first region, and the others were written at five seconds. -/
def halfWritten (i : Region) : Timeval := if i = firstRegion then ⟨0, 0⟩ else ⟨5, 0⟩

/-- Nothing was written to the first region, and the second is evicted. -/
theorem unwritten_stays : ¬ ∀ (s : Session) (stamps : Region → Timeval) (evictSize : Int)
    (oldestRbIndex : Option Region) (stopSizeG : Int), s.Accounted → 0 < evictSize →
    evictSize ≤ s.mrh.mappedSize → s.SendsOldest stamps evictSize oldestRbIndex stopSizeG := by
  intro claim
  have sends := claim twoMapped halfWritten 1 none 1 accounted_twoMapped (by decide)
    (by decide +kernel)
  obtain ⟨i, picks, _, oldest⟩ := sendsOldest_iff_isOldest.mp sends
  have second : twoMapped.mrh.pickOldest halfWritten (List.finRange maxMrSizeGb) ⟨0, 0⟩ none =
      some secondRegion := by decide +kernel
  rw [second] at picks
  cases picks
  have less := oldest firstRegion (by decide +kernel)
  revert less
  decide +kernel

end Session

end Valet.Daemon
