import Valet.Daemon.OldestRegion

/-!
# Eviction from its start to its end

`do_evict` first frees regions that nobody has.  For the rest it takes regions from
their clients, one a round: it sends an `EVICT` and waits until the client has given
the region back.  Here every `EVICT` is answered, and no region is mapped meanwhile.
-/

namespace Valet.Daemon

open Valet.Wire Valet.Library

namespace RdmaMrHandler

variable {mrh next : RdmaMrHandler}

/-- Freeing others makes no region free. -/
theorem Frees.isFree {freedG : Int} (frees : Frees mrh freedG next)
    (fewer : ∀ i, next.mallocMap i = true → mrh.mallocMap i = true) {i : Region}
    (taken : mrh.isFree i = false) : next.isFree i = false := by
  apply Bool.eq_false_iff.mpr
  intro free
  obtain ⟨unmapped, malloced⟩ := isMapped_of_isFree free
  rw [frees.same] at unmapped
  have before : mrh.isMapped i = false := unmapped
  simp [isFree_eq, before, fewer i malloced] at taken

/-- The first loop of `do_evict` stops with enough regions or behind the last free one. -/
theorem freeUnmapped_spec (evictSize : Int) (regions : List Region) (freedG : Int)
    (mrh : RdmaMrHandler) (less : freedG < evictSize) :
    (∀ i, (mrh.freeUnmapped evictSize regions freedG).2.mallocMap i = true →
      mrh.mallocMap i = true) ∧
      ((mrh.freeUnmapped evictSize regions freedG).1 = evictSize ∨
        (mrh.freeUnmapped evictSize regions freedG).1 < evictSize ∧
          ∀ i ∈ regions, (mrh.freeUnmapped evictSize regions freedG).2.isFree i = false) := by
  induction regions generalizing freedG mrh with
  | nil =>
      refine ⟨fun _ => id, .inr ⟨less, fun i member => ?_⟩⟩
      cases member
  | cons i rest ih =>
      -- whatever the loop does with the region, it leaves it not free
      have walk (freedG : Int) (mrh : RdmaMrHandler) (less : freedG < evictSize)
          (busy : mrh.isFree i = false) :
          (∀ j, (mrh.freeUnmapped evictSize rest freedG).2.mallocMap j = true →
            mrh.mallocMap j = true) ∧
            ((mrh.freeUnmapped evictSize rest freedG).1 = evictSize ∨
              (mrh.freeUnmapped evictSize rest freedG).1 < evictSize ∧
                ∀ j ∈ i :: rest,
                  (mrh.freeUnmapped evictSize rest freedG).2.isFree j = false) := by
        obtain ⟨fewer, ends⟩ := ih freedG mrh less
        refine ⟨fewer, ends.imp_right ?_⟩
        rintro ⟨below, taken⟩
        refine ⟨below, fun j member => ?_⟩
        rcases List.mem_cons.mp member with rfl | later
        · exact (frees_freeUnmapped evictSize rest freedG mrh).isFree fewer busy
        · exact taken j later
      unfold freeUnmapped
      by_cases free : mrh.isFree i = true
      · rw [if_pos free]
        have shrinks : ∀ j, Function.update mrh.mallocMap i false j = true →
            mrh.mallocMap j = true := by
          intro j malloced
          by_cases same : j = i
          · rw [same, Function.update_self] at malloced
            cases malloced
          · rwa [Function.update_of_ne same] at malloced
        dsimp only
        split
        · rename_i enough
          exact ⟨shrinks, .inl enough⟩
        · obtain ⟨fewer, ends⟩ := walk (freedG + 1)
            { mrh with mallocMap := Function.update mrh.mallocMap i false } (by omega)
            (by simp [RdmaMrHandler.isFree])
          exact ⟨fun j malloced => shrinks j (fewer j malloced), ends⟩
      · rw [if_neg free]
        exact walk freedG mrh less (Bool.eq_false_iff.mpr free)

/-- Without a free region every allocated one is mapped. -/
theorem Accounts.full (accounts : mrh.Accounts) (taken : ∀ i, mrh.isFree i = false) :
    mrh.sizeGb = mrh.mappedSize := by
  have parts : census mrh.isFree + census mrh.isMapped = census mrh.mallocMap := by
    rw [isFree_eq]
    exact census_diff accounts.backed
  rw [funext taken, census_none] at parts
  have size := accounts.size
  have mapped := accounts.mapped
  omega

/-- An eviction on its way: `left` of `evictSize` regions are still to be freed, and a client loses
a region, or is still to lose one, only if no other is free. -/
structure Freed (before : RdmaMrHandler) (evictSize left : Int) (now : RdmaMrHandler) : Prop where
  accounts : now.Accounts
  fewer : ∀ i, now.mallocMap i = true → before.mallocMap i = true
  kept : ∀ i, now.isMapped i = true → before.isMapped i = true
  balance : now.sizeGb + evictSize = before.sizeGb + left
  enough : left ≤ now.mappedSize
  exhausted : (0 < left ∨ ∃ i, before.isMapped i = true ∧ now.isMapped i = false) →
    ∀ i, now.isFree i = false

theorem Accounts.freed {evictSize : Int} (accounts : mrh.Accounts) (positive : 0 < evictSize)
    (bound : evictSize ≤ mrh.sizeGb) :
    Freed mrh evictSize (mrh.doEvict evictSize).1 (mrh.doEvict evictSize).2 ∧
      0 ≤ (mrh.doEvict evictSize).1 := by
  have after : (mrh.doEvict evictSize).2.Accounts := accounts.doEvict
  have same : (mrh.doEvict evictSize).2.isMapped = mrh.isMapped := by
    unfold isMapped
    rw [doEvict_map]
  have nonneg := after.consistent.nonneg
  have frees := frees_freeUnmapped evictSize (List.finRange maxMrSizeGb) 0 mrh
  obtain ⟨fewer, ends⟩ := freeUnmapped_spec evictSize (List.finRange maxMrSizeGb) 0 mrh positive
  have size : (mrh.freeUnmapped evictSize (List.finRange maxMrSizeGb) 0).2.sizeGb = mrh.sizeGb := by
    rw [frees.same]
  have kept : ∀ i, (mrh.doEvict evictSize).2.isMapped i = true → mrh.isMapped i = true := by
    intro i mapped
    rwa [same] at mapped
  have noneLost : ¬ ∃ i, mrh.isMapped i = true ∧ (mrh.doEvict evictSize).2.isMapped i = false := by
    rintro ⟨i, mapped, lost⟩
    rw [same, mapped] at lost
    cases lost
  revert after nonneg kept noneLost
  clear same
  unfold RdmaMrHandler.doEvict
  dsimp only
  generalize mrh.freeUnmapped evictSize (List.finRange maxMrSizeGb) 0 = freed at *
  split
  · intro after nonneg kept noneLost
    refine ⟨⟨after, fewer, kept, ?_, nonneg, ?_⟩, le_refl 0⟩
    · dsimp only
      omega
    · rintro (more | lost)
      · exact absurd more (lt_irrefl 0)
      · exact absurd lost noneLost
  · rename_i more
    intro after nonneg kept noneLost
    obtain ⟨below, taken⟩ := ends.resolve_left more
    have taken : ∀ i, freed.2.isFree i = false := fun i => taken i (List.mem_finRange i)
    have full := after.full taken
    dsimp only at full nonneg
    refine ⟨⟨after, fewer, kept, ?_, ?_, fun _ => taken⟩, ?_⟩
    · dsimp only
      split <;> omega
    · dsimp only
      split <;> omega
    · split <;> omega

/-- A client gives a region back. -/
theorem Freed.giveBack {evictSize left : Int} {before : RdmaMrHandler} {i : Region}
    (freed : Freed before evictSize left mrh) (positive : 0 < left)
    (after : Accounts { mrh with
      cbIndexMap := Function.update mrh.cbIndexMap i none
      mallocMap := Function.update mrh.mallocMap i false
      sizeGb := mrh.sizeGb - 1
      mappedSize := mrh.mappedSize - 1 }) :
    Freed before evictSize (left - 1) { mrh with
      cbIndexMap := Function.update mrh.cbIndexMap i none
      mallocMap := Function.update mrh.mallocMap i false
      sizeGb := mrh.sizeGb - 1
      mappedSize := mrh.mappedSize - 1 } := by
  have balance := freed.balance
  have enough := freed.enough
  refine ⟨after, ?_, ?_, ?_, ?_, ?_⟩
  · intro j malloced
    dsimp only at malloced
    by_cases same : j = i
    · rw [same, Function.update_self] at malloced
      cases malloced
    · rw [Function.update_of_ne same] at malloced
      exact freed.fewer j malloced
  · intro j mapped
    have mapped : (Function.update mrh.cbIndexMap i none j).isSome = true := mapped
    by_cases same : j = i
    · rw [same, Function.update_self] at mapped
      cases mapped
    · rw [Function.update_of_ne same] at mapped
      exact freed.kept j mapped
  · dsimp only
    omega
  · dsimp only
    omega
  · intro _ j
    have taken := freed.exhausted (.inl positive) j
    by_cases same : j = i
    · simp [RdmaMrHandler.isFree, same]
    · simpa [RdmaMrHandler.isFree, same] using taken

end RdmaMrHandler

namespace Session

variable {s now next : Session}

/-- `do_evict`, up to its loop. -/
def doEvict (s : Session) (evictSize : Int) : Session :=
  { s with mrh := (s.mrh.doEvict evictSize).2 }.continueEvict (s.mrh.doEvict evictSize).1 none
    evictSize

/-- What the monitor evicts, `stop_size_g`. -/
def stopSize (s : Session) : Int :=
  let stopSizeG := freeMemEvictThreshold - s.monitor.lastFreeMemG
  if s.mrh.sizeGb < stopSizeG then s.mrh.sizeGb else stopSizeG

theorem monitorEvict_eq (s : Session) :
    s.monitorEvict = if s.stopSize > 0 then s.doEvict s.stopSize else s.endEvict s.stopSize := by
  unfold monitorEvict doEvict stopSize
  rfl

/-- The monitor calls `do_evict` only for regions that there are. -/
theorem stopSize_le (s : Session) : s.stopSize ≤ s.mrh.sizeGb := by
  unfold stopSize
  dsimp only
  split
  · exact le_refl _
  · omega

/-- The client that the monitor waits for and the region, until the region is given back. -/
def awaited (s : Session) : Option (Nat × Region) :=
  match s.monitor.pc with
  | .waiting client _ (some i) _ => if s.mrh.cbIndexMap i = some client then some (client, i) else none
  | _ => none

/-- `EVICT`s are answered with `DELETE_RB`s for the regions that they are about, before the wait
ends; no other message changes the maps, and the monitor does nothing else. -/
def AnswersEvict (s : Session) : DaemonLabel → Prop
  | .recv client msg _ _ => msg.type ≠ .reqMrMap ∧ msg.type ≠ .reqMigMap ∧
      (msg.type = .deleteRb → ∃ i, msg.firstRkey = some i ∧ s.awaited = some (client, i))
  | .monitor _ => False
  | .evict _ => True
  | .evictDone => s.awaited = none

/-- How many regions are still to be freed. -/
def leftToEvict (s : Session) : Int :=
  match s.monitor.pc with
  | .sleeping => 0
  | .evicting evictSize _ _ => evictSize
  | .waiting _ evictSize _ _ => if s.awaited.isSome then evictSize else evictSize - 1

/-- `do_evict` of `evictSize` regions under way. -/
structure Evicting (s : Session) (evictSize : Int) (now : Session) : Prop where
  accounted : now.Accounted
  freed : s.mrh.Freed evictSize now.leftToEvict now.mrh
  evicts : ∀ {left index stopSizeG}, now.monitor.pc = .evicting left index stopSizeG → 0 < left
  waits : ∀ {client left index stopSizeG}, now.monitor.pc = .waiting client left index stopSizeG →
    0 < left ∧ ∃ i, index = some i ∧ s.mrh.isMapped i = true ∧
      (now.mrh.cbIndexMap i = some client ∨
        now.mrh.isMapped i = false ∧ 0 < (now.cbList client).evictSem)

/-- What every message but those about regions leaves as it is. -/
structure Calm (s next : Session) : Prop extends SameRegions s next where
  monitor : next.monitor = s.monitor
  sems : ∀ client, (next.cbList client).evictSem = (s.cbList client).evictSem

theorem calm_handleRecv {client : Nat} {msg : Message} {mr : IbvMr} {stamps : Region → Timeval}
    (notMap : msg.type ≠ .reqMrMap) (notMigMap : msg.type ≠ .reqMigMap)
    (notDelete : msg.type ≠ .deleteRb) (ran : s.handleRecv client msg mr stamps = .ok next) :
    Calm s next := by
  cases handles_of_ok ran with
  | migMap type => exact absurd type notMigMap
  | mrMap type => exact absurd type notMap
  | deleted type => exact absurd type notDelete
  | query | ignored => exact ⟨⟨rfl, fun _ => rfl⟩, rfl, fun _ => rfl⟩
  | migrates =>
      have kept := (sameRegions_modifyMigrbh (s := s) client fun migrbh =>
        { migrbh with localRbIndex := msg.sizeGb })
      refine ⟨⟨kept.mrh, kept.maps⟩, rfl, fun other => ?_⟩
      by_cases same : other = client
      · simp [postWrite, modifyMigrbh, setCb, same]
      · simp [postWrite, modifyMigrbh, setCb, same]

theorem Calm.awaited (calm : Calm s next) : next.awaited = s.awaited := by
  unfold Session.awaited
  rw [calm.monitor, calm.mrh]

theorem Calm.leftToEvict (calm : Calm s next) : next.leftToEvict = s.leftToEvict := by
  unfold Session.leftToEvict
  rw [calm.monitor, calm.awaited]

theorem Evicting.calm {evictSize : Int} (evicting : Evicting s evictSize now)
    (calm : Calm now next) : Evicting s evictSize next where
  accounted := evicting.accounted.same calm.toSameRegions
  freed := by
    rw [calm.leftToEvict, calm.mrh]
    exact evicting.freed
  evicts := by
    intro left index stopSizeG pc
    rw [calm.monitor] at pc
    exact evicting.evicts pc
  waits := by
    intro client left index stopSizeG pc
    rw [calm.monitor] at pc
    rw [calm.mrh, calm.sems]
    exact evicting.waits pc

/-- The steps of an eviction: its rounds, their answers and the ends of the waits. -/
def isEvictStep : DaemonLabel → Bool
  | .recv _ msg _ _ => decide (msg.type = .deleteRb)
  | .monitor _ => false
  | .evict _ | .evictDone => true

/-- How many of them are ahead. -/
def evictSteps (s : Session) : Nat :=
  match s.monitor.pc with
  | .sleeping => 0
  | .evicting evictSize _ _ => 3 * evictSize.toNat
  | .waiting _ evictSize _ _ =>
      if s.awaited.isSome then 3 * evictSize.toNat - 1 else 3 * evictSize.toNat - 2

/-- One step of the eviction is taken. -/
structure Advances (s : Session) (evictSize : Int) (now next : Session) : Prop where
  evicting : Evicting s evictSize next
  fewer : 1 + next.evictSteps ≤ now.evictSteps

theorem Calm.evictSteps (calm : Calm s next) : next.evictSteps = s.evictSteps := by
  unfold Session.evictSteps
  rw [calm.monitor, calm.awaited]

/-- The head of the loop of `do_evict`. -/
theorem evicting_continueEvict {evictSize left : Int} (index : Option Region) (stopSizeG : Int)
    (accounted : now.Accounted) (freed : s.mrh.Freed evictSize left now.mrh) (nonneg : 0 ≤ left) :
    Evicting s evictSize (now.continueEvict left index stopSizeG) ∧
      (now.continueEvict left index stopSizeG).evictSteps = 3 * left.toNat := by
  have kept := accounted.same (sameRegions_continueEvict left index stopSizeG)
  revert kept
  unfold continueEvict
  by_cases more : left > 0
  · rw [if_pos more]
    intro kept
    refine ⟨⟨kept, freed, ?_, ?_⟩, rfl⟩
    · intro left index stopSizeG pc
      cases pc
      exact more
    · intro client left index stopSizeG pc
      cases pc
  · have zero : left = 0 := le_antisymm (not_lt.mp more) nonneg
    subst zero
    rw [if_neg more]
    intro kept
    refine ⟨⟨kept, freed, ?_, ?_⟩, rfl⟩
    · intro left index stopSizeG pc
      cases pc
    · intro client left index stopSizeG pc
      cases pc

theorem Evicting.evictTurn {evictSize left stopSizeG : Int} {index : Option Region}
    (stamps : Region → Timeval) (evicting : Evicting s evictSize now)
    (pc : now.monitor.pc = .evicting left index stopSizeG) :
    ∃ next, now.evictTurn stamps left index stopSizeG = .ok next ∧
      Advances s evictSize now next := by
  have positive := evicting.evicts pc
  have freed := evicting.freed
  have remaining : now.leftToEvict = left := by
    rw [leftToEvict, pc]
  rw [remaining] at freed
  -- some region is mapped, so the search finds one
  obtain ⟨i, mapped⟩ : ∃ i, now.mrh.isMapped i = true := by
    by_contra unmapped
    have clear : now.mrh.isMapped = fun _ => false :=
      funext fun i => Bool.eq_false_iff.mpr fun mapped => unmapped ⟨i, mapped⟩
    have size := freed.accounts.mapped
    rw [clear, census_none] at size
    have enough := freed.enough
    omega
  obtain ⟨found, picks, isMapped⟩ := RdmaMrHandler.pickOldest_mapped stamps mapped index
  obtain ⟨client, owner⟩ := Option.isSome_iff_exists.mp isMapped
  have ran : now.evictTurn stamps left index stopSizeG = .ok
      { now.sendEvict client found (now.mrh.clientRbIdx found) now.myIndex with
        monitor := { now.monitor with pc := .waiting client left (some found) stopSizeG } } := by
    unfold Session.evictTurn
    rw [picks]
    dsimp only
    rw [owner]
    rfl
  have awaits : ({ now.sendEvict client found (now.mrh.clientRbIdx found) now.myIndex with
      monitor := { now.monitor with
        pc := .waiting client left (some found) stopSizeG } } : Session).awaited =
        some (client, found) := by
    show (if now.mrh.cbIndexMap found = some client then some (client, found) else none) = _
    rw [if_pos owner]
  refine ⟨_, ran, ⟨evicting.accounted.evictTurn ran, ?_, ?_, ?_⟩, ?_⟩
  · rw [leftToEvict, awaits]
    exact freed
  · intro left index stopSizeG evicts
    cases evicts
  · intro client left index stopSizeG waiting
    cases waiting
    exact ⟨positive, found, rfl, freed.kept found isMapped, .inl owner⟩
  · rw [Session.evictSteps, Session.evictSteps, pc, awaits]
    dsimp only [Option.isSome_some]
    rw [if_pos rfl]
    omega

theorem awaited_eq_some {client : Nat} {i : Region} (awaits : now.awaited = some (client, i)) :
    now.mrh.cbIndexMap i = some client ∧
      ∃ left stopSizeG, now.monitor.pc = .waiting client left (some i) stopSizeG := by
  unfold Session.awaited at awaits
  split at awaits
  · rename_i owner left region stopSizeG pc
    split at awaits
    · rename_i mapped
      cases awaits
      exact ⟨mapped, left, stopSizeG, pc⟩
    · cases awaits
  · cases awaits

theorem Evicting.answer {client : Nat} {msg : Message} {evictSize : Int} {i : Region}
    (evicting : Evicting s evictSize now) (awaits : now.awaited = some (client, i))
    (named : msg.firstRkey = some i) :
    ∃ next, now.recvDeleteRb client msg = .ok next ∧ Advances s evictSize now next ∧
      next.awaited = none ∧ next.monitor = now.monitor := by
  obtain ⟨mapped, left, stopSizeG, pc⟩ := awaited_eq_some awaits
  have owned := evicting.accounted.owners i client mapped
  obtain ⟨positive, region, same, before, _⟩ := evicting.waits pc
  cases same
  have freed := evicting.freed
  have remaining : now.leftToEvict = left := by
    rw [leftToEvict, pc, awaits]
    rfl
  rw [remaining] at freed
  have ran : ∃ next, now.recvDeleteRb client msg = .ok next ∧ next.monitor = now.monitor ∧
      next.mrh = { now.mrh with
        cbIndexMap := Function.update now.mrh.cbIndexMap i none
        mallocMap := Function.update now.mrh.mallocMap i false
        sizeGb := now.mrh.sizeGb - 1
        mappedSize := now.mrh.mappedSize - 1 } ∧
      0 < (next.cbList client).evictSem := by
    unfold Session.recvDeleteRb
    rw [named]
    dsimp only
    rw [owned]
    refine ⟨_, rfl, rfl, rfl, ?_⟩
    simp [setCb]
  obtain ⟨next, ran, monitor, mrh, posted⟩ := ran
  have accounted := evicting.accounted.recvDeleteRb named mapped ran
  have unmapped : next.mrh.cbIndexMap i = none := by
    rw [mrh]
    exact Function.update_self ..
  have answered : next.awaited = none := by
    unfold Session.awaited
    rw [monitor, pc]
    dsimp only
    rw [unmapped, if_neg (Option.some_ne_none client).symm]
  have given := accounted.accounts
  rw [mrh] at given
  refine ⟨next, ran, ⟨⟨accounted, ?_, ?_, ?_⟩, ?_⟩, answered, monitor⟩
  · rw [leftToEvict, monitor, pc, answered, mrh]
    exact freed.giveBack positive given
  · intro left index stopSizeG bad
    rw [monitor, pc] at bad
    cases bad
  · intro owner left index stopSizeG waiting
    rw [monitor, pc] at waiting
    cases waiting
    refine ⟨positive, i, rfl, before, .inr ⟨?_, posted⟩⟩
    unfold RdmaMrHandler.isMapped
    rw [unmapped]
    rfl
  · rw [Session.evictSteps, Session.evictSteps, monitor, pc, answered, awaits]
    dsimp only [Option.isSome_some, Option.isSome_none]
    rw [if_neg Bool.false_ne_true, if_pos rfl]
    omega

theorem Evicting.evictDone {client : Nat} {evictSize left stopSizeG : Int} {index : Option Region}
    (evicting : Evicting s evictSize now)
    (pc : now.monitor.pc = .waiting client left index stopSizeG) (answered : now.awaited = none) :
    ∃ next, now.evictDone client left index stopSizeG = some next ∧
      Advances s evictSize now next := by
  obtain ⟨positive, i, rfl, _, here⟩ := evicting.waits pc
  have posted : 0 < (now.cbList client).evictSem := by
    rcases here with mapped | ⟨_, posted⟩
    · unfold Session.awaited at answered
      rw [pc] at answered
      dsimp only at answered
      rw [if_pos mapped] at answered
      cases answered
    · exact posted
  have freed := evicting.freed
  have remaining : now.leftToEvict = left - 1 := by
    rw [leftToEvict, pc, answered]
    rfl
  rw [remaining] at freed
  have ran : now.evictDone client left (some i) stopSizeG = some
      ((now.setCb client { now.cbList client with
        evictSem := (now.cbList client).evictSem - 1 }).continueEvict (left - 1) (some i)
          stopSizeG) := by
    unfold Session.evictDone
    dsimp only
    rw [if_neg (Nat.pos_iff_ne_zero.mp posted)]
  have taken : Accounted (now.setCb client
      { now.cbList client with evictSem := (now.cbList client).evictSem - 1 }) :=
    evicting.accounted.same (sameRegions_setCb rfl)
  obtain ⟨goes, ahead⟩ := evicting_continueEvict (some i) stopSizeG taken freed
    (Int.sub_nonneg.mpr positive)
  refine ⟨_, ran, goes, ?_⟩
  rw [ahead, Session.evictSteps, pc, answered]
  dsimp only [Option.isSome_none]
  rw [if_neg Bool.false_ne_true]
  omega

theorem Evicting.step {weigh : Int → Int → Int} {evictSize : Int} {label : DaemonLabel}
    (evicting : Evicting s evictSize now) (guard : now.AnswersEvict label)
    (edge : now.step weigh label = some next) :
    Evicting s evictSize next ∧
      (if isEvictStep label then 1 else 0) + next.evictSteps ≤ now.evictSteps := by
  have advances (taken : Advances s evictSize now next) : Evicting s evictSize next ∧
      (if isEvictStep label then 1 else 0) + next.evictSteps ≤ now.evictSteps := by
    have fewer := taken.fewer
    refine ⟨taken.evicting, ?_⟩
    split <;> omega
  cases label with
  | recv client msg mr stamps =>
      obtain ⟨notMap, notMigMap, answers⟩ := guard
      have ran := toOption_eq_some edge
      by_cases delete : msg.type = .deleteRb
      · obtain ⟨i, named, awaits⟩ := answers delete
        obtain ⟨result, answered, taken, _⟩ := evicting.answer awaits named
        unfold Session.handleRecv at ran
        rw [delete] at ran
        dsimp only at ran
        rw [answered] at ran
        cases ran
        exact advances taken
      · have calm := calm_handleRecv notMap notMigMap delete ran
        refine ⟨evicting.calm calm, ?_⟩
        have other : isEvictStep (.recv client msg mr stamps) = false := decide_eq_false delete
        rw [calm.evictSteps, other, if_neg Bool.false_ne_true, Nat.zero_add]
  | monitor freeMemG => exact absurd guard id
  | evict stamps =>
      simp only [Session.step] at edge
      split at edge
      · rename_i left index stopSizeG pc
        obtain ⟨result, ran, taken⟩ := evicting.evictTurn stamps pc
        rw [toOption_eq_some edge] at ran
        cases ran
        exact advances taken
      · cases edge
  | evictDone =>
      simp only [Session.step] at edge
      split at edge
      · rename_i client left index stopSizeG pc
        obtain ⟨result, ran, taken⟩ := evicting.evictDone pc guard
        rw [edge] at ran
        cases ran
        exact advances taken
      · cases edge

theorem evicting_doEvict {evictSize : Int} (accounted : s.Accounted) (positive : 0 < evictSize)
    (bound : evictSize ≤ s.mrh.sizeGb) :
    Evicting s evictSize (s.doEvict evictSize) ∧
      (s.doEvict evictSize).evictSteps ≤ 3 * evictSize.toNat := by
  obtain ⟨freed, nonneg⟩ := accounted.accounts.freed positive bound
  have start : Accounted { s with mrh := (s.mrh.doEvict evictSize).2 } :=
    accounted.recount accounted.accounts.doEvict RdmaMrHandler.doEvict_map
  obtain ⟨evicting, ahead⟩ := evicting_continueEvict none evictSize start freed nonneg
  refine ⟨evicting, ahead.trans_le ?_⟩
  have balance := freed.balance
  have fewer := census_mono freed.fewer
  have size := accounted.accounts.size
  have after := freed.accounts.size
  omega

/-- The daemon goes on by itself, or as soon as the client answers. -/
def GoesOn (weigh : Int → Int → Int) (now : Session) : Prop :=
  match now.monitor.pc with
  | .sleeping => False
  | .evicting _ _ _ => ∀ stamps, (now.step weigh (.evict stamps)).isSome = true
  | .waiting _ _ _ _ =>
      match now.awaited with
      | none => (now.step weigh .evictDone).isSome = true
      | some (client, i) => ∀ msg mr stamps, msg.type = .deleteRb → msg.firstRkey = some i →
          (now.step weigh (.recv client msg mr stamps)).isSome = true

theorem Evicting.goesOn {evictSize : Int} (weigh : Int → Int → Int)
    (evicting : Evicting s evictSize now) (awake : now.monitor.pc ≠ .sleeping) :
    now.GoesOn weigh := by
  unfold GoesOn
  cases pc : now.monitor.pc with
  | sleeping => exact absurd pc awake
  | evicting left index stopSizeG =>
      intro stamps
      obtain ⟨next, ran, _⟩ := evicting.evictTurn stamps pc
      simp [Session.step, pc, ran, Except.toOption]
  | waiting owner left index stopSizeG =>
      dsimp only
      cases awaits : now.awaited with
      | none =>
          obtain ⟨next, ran, _⟩ := evicting.evictDone pc awaits
          simp [Session.step, pc, ran]
      | some pair =>
          obtain ⟨client, i⟩ := pair
          intro msg mr stamps delete named
          obtain ⟨next, ran, _⟩ := evicting.answer awaits named
          simp [Session.step, Session.handleRecv, delete, ran, Except.toOption]

/-- Exactly so many regions were freed, and the counters say so. -/
structure EvictedExactly (s : Session) (evictSize : Int) (last : Session) : Prop where
  fewer : ∀ i, last.mrh.mallocMap i = true → s.mrh.mallocMap i = true
  freed : (census fun i => s.mrh.mallocMap i && !last.mrh.mallocMap i) = evictSize
  size : last.mrh.sizeGb = s.mrh.sizeGb - evictSize
  kept : ∀ i, last.mrh.isMapped i = true → s.mrh.isMapped i = true
  mapped : last.mrh.mappedSize =
    s.mrh.mappedSize - census fun i => s.mrh.isMapped i && !last.mrh.isMapped i

theorem Evicting.exactly {evictSize : Int} (accounted : s.Accounted)
    (evicting : Evicting s evictSize now) (asleep : now.monitor.pc = .sleeping) :
    EvictedExactly s evictSize now := by
  have freed := evicting.freed
  have balance := freed.balance
  have none : now.leftToEvict = 0 := by
    rw [leftToEvict, asleep]
  have size := accounted.accounts.size
  have after := freed.accounts.size
  have gone := census_diff freed.fewer
  have mapped := accounted.accounts.mapped
  have mappedAfter := freed.accounts.mapped
  have lost := census_diff freed.kept
  exact ⟨freed.fewer, by omega, by omega, freed.kept, by omega⟩

/-- There is a step of the eviction, as long as it is not at its end. -/
theorem Evicting.taken {evictSize : Int} (weigh : Int → Int → Int)
    (evicting : Evicting s evictSize now) (awake : now.monitor.pc ≠ .sleeping) :
    ∃ label next, now.AnswersEvict label ∧ now.step weigh label = some next ∧
      isEvictStep label = true := by
  have goesOn := evicting.goesOn weigh awake
  unfold GoesOn at goesOn
  cases pc : now.monitor.pc with
  | sleeping => exact absurd pc awake
  | evicting left index stopSizeG =>
      rw [pc] at goesOn
      obtain ⟨next, edge⟩ := Option.isSome_iff_exists.mp (goesOn fun _ => ⟨0, 0⟩)
      exact ⟨.evict fun _ => ⟨0, 0⟩, next, trivial, edge, rfl⟩
  | waiting owner left index stopSizeG =>
      rw [pc] at goesOn
      dsimp only at goesOn
      cases awaits : now.awaited with
      | none =>
          rw [awaits] at goesOn
          obtain ⟨next, edge⟩ := Option.isSome_iff_exists.mp goesOn
          exact ⟨.evictDone, next, awaits, edge, rfl⟩
      | some pair =>
          obtain ⟨client, i⟩ := pair
          rw [awaits] at goesOn
          let answer : Message := { Message.empty with
            type := .deleteRb, rkey := fun j => if j = i then 1 else 0 }
          have named : answer.firstRkey = some i := Message.firstRkey_eq_some (by simp [answer])
          obtain ⟨next, edge⟩ := Option.isSome_iff_exists.mp
            (goesOn answer ⟨0, 0⟩ (fun _ => ⟨0, 0⟩) rfl named)
          refine ⟨.recv client answer ⟨0, 0⟩ fun _ => ⟨0, 0⟩, next,
            ⟨?_, ?_, fun _ => ⟨i, named, awaits⟩⟩, edge, rfl⟩
          · intro type
            cases type
          · intro type
            cases type

/-- With an answer to each `EVICT` the eviction gets to its end. -/
theorem Evicting.finishes {weigh : Int → Int → Int} {evictSize : Int}
    (evicting : Evicting s evictSize now) :
    ∃ more final, Run (Session.step weigh) AnswersEvict now more final ∧
      final.monitor.pc = .sleeping := by
  induction steps : now.evictSteps using Nat.strong_induction_on generalizing now with
  | _ count ih =>
      by_cases asleep : now.monitor.pc = .sleeping
      · exact ⟨[], now, .refl now, asleep⟩
      · obtain ⟨label, next, guard, edge, counted⟩ := evicting.taken weigh asleep
        obtain ⟨goes, fewer⟩ := evicting.step guard edge
        rw [if_pos counted] at fewer
        obtain ⟨more, final, run, ends⟩ := ih next.evictSteps (by omega) goes rfl
        exact ⟨label :: more, final, .head guard edge run, ends⟩

/-- A whole `do_evict`, or a part of it: its steps are bounded, it goes on until its end, which it
can reach, and a client loses a region, or is to lose one, only if no other region is free. -/
structure Evicts (weigh : Int → Int → Int) (s : Session) (evictSize : Int)
    (labels : List DaemonLabel) (last : Session) : Prop where
  bounded : labels.countP isEvictStep ≤ 3 * evictSize.toNat
  goesOn : last.monitor.pc ≠ .sleeping → last.GoesOn weigh
  finishes : ∃ more final, Run (step weigh) AnswersEvict last more final ∧
    final.monitor.pc = .sleeping
  exactly : last.monitor.pc = .sleeping → EvictedExactly s evictSize last
  unmappedFirst : (last.monitor.pc ≠ .sleeping ∨
    ∃ i, s.mrh.isMapped i = true ∧ last.mrh.isMapped i = false) → ∀ i, last.mrh.isFree i = false

theorem Evicting.unmappedFirst {evictSize : Int} (evicting : Evicting s evictSize now)
    (taking : now.monitor.pc ≠ .sleeping ∨
      ∃ i, s.mrh.isMapped i = true ∧ now.mrh.isMapped i = false) :
    ∀ i, now.mrh.isFree i = false := by
  refine evicting.freed.exhausted ?_
  rcases taking with awake | lost
  · cases pc : now.monitor.pc with
    | sleeping => exact absurd pc awake
    | evicting left index stopSizeG =>
        refine .inl ?_
        rw [leftToEvict, pc]
        exact evicting.evicts pc
    | waiting client left index stopSizeG =>
        obtain ⟨positive, i, rfl, before, mapped | ⟨unmapped, _⟩⟩ := evicting.waits pc
        · refine .inl ?_
          have awaits : now.awaited = some (client, i) := by
            rw [Session.awaited, pc]
            exact if_pos mapped
          rw [leftToEvict, pc, awaits]
          exact positive
        · exact .inr ⟨i, before, unmapped⟩
  · exact .inr lost

/-- `do_evict` frees just what it is asked to, regions that nobody has first. -/
theorem doEvict_evicts {weigh : Int → Int → Int} {evictSize : Int} {labels : List DaemonLabel}
    {last : Session} (accounted : s.Accounted) (positive : 0 < evictSize)
    (bound : evictSize ≤ s.mrh.sizeGb)
    (run : Run (step weigh) AnswersEvict (s.doEvict evictSize) labels last) :
    Evicts weigh s evictSize labels last := by
  obtain ⟨start, ahead⟩ := evicting_doEvict accounted positive bound
  have evicting : Evicting s evictSize last :=
    run.preserves (fun evicting guard edge => (evicting.step guard edge).1) start
  have spent := run.spends (fun evicting guard edge => (evicting.step guard edge).1)
    (fun evicting guard edge => (evicting.step guard edge).2) start
  exact {
    bounded := by omega
    goesOn := evicting.goesOn weigh
    finishes := evicting.finishes
    exactly := evicting.exactly accounted
    unmappedFirst := evicting.unmappedFirst }

instance (s : Session) (label : DaemonLabel) : Decidable (AnswersEvict s label) :=
  match label with
  | .recv client msg _ _ => inferInstanceAs (Decidable (msg.type ≠ .reqMrMap ∧
      msg.type ≠ .reqMigMap ∧ (msg.type = .deleteRb →
        ∃ i, msg.firstRkey = some i ∧ s.awaited = some (client, i))))
  | .monitor _ => isFalse id
  | .evict _ => isTrue trivial
  | .evictDone => inferInstanceAs (Decidable (s.awaited = none))

/-- Of the seven regions of the server five are free, and the client gives back the second. -/
def sixRegions : List DaemonLabel :=
  [.evict halfWritten,
    .recv 0 { Message.empty with
      type := .deleteRb, rkey := fun i => if i = secondRegion then 1 else 0 } ⟨0, 0⟩ halfWritten,
    .evictDone]

theorem doEvict_evicts_six : ∃ last, exec (step weighInt) (twoMapped.doEvict 6) sixRegions = some last ∧
    Evicts weighInt twoMapped 6 sixRegions last := by
  have ran : (exec (guardedStep (step weighInt) AnswersEvict) (twoMapped.doEvict 6)
      sixRegions).isSome = true := by
    decide +kernel
  obtain ⟨last, guarded⟩ := Option.isSome_iff_exists.mp ran
  have run := run_of_guarded guarded
  exact ⟨last, run.exec_eq, doEvict_evicts accounted_twoMapped (by decide) (by decide +kernel) run⟩

/-- Each `EVICT` is answered once, with a `DELETE_RB` for its region. -/
def AnswersOnce (s : Session) : DaemonLabel → Prop
  | .evictDone => True
  | label => s.AnswersEvict label

/-- The only answer that the monitor has not taken yet is the one that it waits for. -/
def Posted (s : Session) : Prop :=
  ∀ client, 0 < (s.cbList client).evictSem → s.awaited = none ∧ (s.cbList client).evictSem = 1 ∧
    ∃ left index stopSizeG, s.monitor.pc = .waiting client left index stopSizeG

theorem evictSem_setCb (client other : Nat) (cb : RpingCb) :
    ((s.setCb client cb).cbList other).evictSem =
      if other = client then cb.evictSem else (s.cbList other).evictSem := by
  by_cases same : other = client
  · simp [setCb, same]
  · simp [setCb, same]

theorem evictSem_recvDeleteRb {client : Nat} {msg : Message}
    (ran : s.recvDeleteRb client msg = .ok next) (other : Nat) :
    (next.cbList other).evictSem =
      if other = client then (s.cbList client).evictSem + 1 else (s.cbList other).evictSem := by
  unfold Session.recvDeleteRb at ran
  dsimp only at ran
  split at ran
  · cases ran
    exact evictSem_setCb client other _
  · split at ran
    · cases ran
    · cases ran
      exact evictSem_setCb client other _

theorem evictSem_evictTurn {stamps : Region → Timeval} {evictSize stopSizeG : Int}
    {index : Option Region} (ran : s.evictTurn stamps evictSize index stopSizeG = .ok next)
    (other : Nat) : (next.cbList other).evictSem = (s.cbList other).evictSem := by
  unfold Session.evictTurn at ran
  split at ran
  · cases ran
  · split at ran
    · cases ran
    · rename_i client mapped
      cases ran
      refine (evictSem_setCb client other _).trans ?_
      split
      · rename_i same
        rw [same]
      · rfl

theorem Posted.step {weigh : Int → Int → Int} {evictSize : Int} {label : DaemonLabel}
    (posted : now.Posted) (evicting : Evicting s evictSize now) (once : now.AnswersOnce label)
    (edge : now.step weigh label = some next) : now.AnswersEvict label ∧ next.Posted := by
  cases label with
  | recv client msg mr stamps =>
      refine ⟨once, ?_⟩
      obtain ⟨notMap, notMigMap, answers⟩ := once
      have ran := toOption_eq_some edge
      by_cases delete : msg.type = .deleteRb
      · obtain ⟨i, named, awaits⟩ := answers delete
        obtain ⟨mapped, left, stopSizeG, pc⟩ := awaited_eq_some awaits
        obtain ⟨result, answered, _, done, monitor⟩ := evicting.answer awaits named
        unfold Session.handleRecv at ran
        rw [delete] at ran
        have same : result = next := Except.ok.inj (answered.symm.trans ran)
        subst same
        have sems := evictSem_recvDeleteRb answered
        have idle : ∀ other, (now.cbList other).evictSem = 0 := by
          intro other
          by_contra some_
          have waits := (posted other (Nat.pos_of_ne_zero some_)).1
          rw [awaits] at waits
          cases waits
        intro other more
        rw [sems, idle, idle] at more ⊢
        split at more
        · rename_i waiting
          rw [if_pos waiting, monitor, waiting]
          exact ⟨done, rfl, left, some i, stopSizeG, pc⟩
        · exact absurd more (lt_irrefl 0)
      · have calm := calm_handleRecv notMap notMigMap delete ran
        intro other more
        rw [calm.sems] at more ⊢
        rw [calm.awaited, calm.monitor]
        exact posted other more
  | monitor freeMemG => exact absurd once id
  | evict stamps =>
      refine ⟨trivial, ?_⟩
      simp only [Session.step] at edge
      split at edge
      · rename_i left index stopSizeG pc
        intro other more
        rw [evictSem_evictTurn (toOption_eq_some edge)] at more
        obtain ⟨_, _, _, _, _, waits⟩ := posted other more
        rw [pc] at waits
        cases waits
      · cases edge
  | evictDone =>
      simp only [Session.step] at edge
      split at edge
      · rename_i client left index stopSizeG pc
        unfold Session.evictDone at edge
        dsimp only at edge
        split at edge
        · cases edge
        · rename_i some_
          obtain ⟨answered, one, _⟩ := posted client (Nat.pos_of_ne_zero some_)
          refine ⟨answered, ?_⟩
          cases edge
          intro other more
          rw [cbList_continueEvict, evictSem_setCb, one] at more
          split at more
          · exact absurd more (lt_irrefl 0)
          · rename_i another
            obtain ⟨_, _, _, _, _, waits⟩ := posted other more
            rw [pc] at waits
            cases waits
            exact absurd rfl another
      · cases edge

theorem answersEvict_of_once {weigh : Int → Int → Int} {evictSize : Int}
    {labels : List DaemonLabel} {last : Session} (evicting : Evicting s evictSize now)
    (posted : now.Posted) (run : Run (Session.step weigh) AnswersOnce now labels last) :
    Run (Session.step weigh) AnswersEvict now labels last := by
  induction run with
  | refl => exact .refl _
  | head once edge _ ih =>
      obtain ⟨guard, later⟩ := posted.step evicting once edge
      exact .head guard edge (ih (evicting.step guard edge).1 later)

/-- If no client has an answer left when the eviction starts, every wait ends with its answer. -/
theorem doEvict_answers {weigh : Int → Int → Int} {evictSize : Int} {labels : List DaemonLabel}
    {last : Session} (accounted : s.Accounted) (positive : 0 < evictSize)
    (bound : evictSize ≤ s.mrh.sizeGb) (idle : ∀ client, (s.cbList client).evictSem = 0)
    (run : Run (Session.step weigh) AnswersOnce (s.doEvict evictSize) labels last) :
    Run (Session.step weigh) AnswersEvict (s.doEvict evictSize) labels last := by
  refine answersEvict_of_once (evicting_doEvict accounted positive bound).1 ?_ run
  intro client more
  rw [doEvict, cbList_continueEvict] at more
  exact absurd (idle client) (Nat.pos_iff_ne_zero.mp more)

end Session

end Valet.Daemon
