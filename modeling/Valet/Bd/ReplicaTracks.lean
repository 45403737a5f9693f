import Valet.Bd.ReplicaWrite
import Valet.Library.Census
import Valet.Library.Runs
import Mathlib.Data.List.Nodup
import Mathlib.Data.Finset.Card

/-!
# What the completions of replicas keep

A context is out of the pool for one replica of one item: the primary context
until the item is finished, the others until their own completion.  What has
happened to an item is told by which of its completions were handled.
-/

namespace Valet.Bd

open Valet.Library

variable {replicas : Nat} {diskbackup : Bool} {Data : Type}

namespace Flight

/-- All completions of the item were handled. -/
def finished (diskbackup : Bool) (flight : Flight replicas) : Bool :=
  decide (∀ j, flight.handled j = true) && (!diskbackup || flight.diskHandled)

/-- How many completions of the item were handled. -/
def count (flight : Flight replicas) : Nat :=
  census flight.handled + if flight.diskHandled then 1 else 0

theorem finished_iff {flight : Flight replicas} : flight.finished diskbackup = true ↔
    (∀ j, flight.handled j = true) ∧ (diskbackup = true → flight.diskHandled = true) := by
  cases diskbackup <;> simp [finished]

theorem not_finished_of_clear {flight : Flight replicas} {j : Fin (replicas + 1)}
    (clear : flight.handled j = false) : flight.finished diskbackup = false := by
  rw [← Bool.not_eq_true, finished_iff]
  intro all
  rw [all.1 j] at clear
  cases clear

/-- The context of a replica is in use by the item. -/
def Out (diskbackup : Bool) (flight : Flight replicas) (call : WriteCall replicas)
    (j : Fin (replicas + 1)) : Prop :=
  j.val < call.loaded ∧
    (if j = 0 then flight.finished diskbackup else flight.handled j) = false

/-- What has happened to an item, given which completions were handled. -/
structure Tracked (diskbackup : Bool) (flight : Flight replicas) (call : WriteCall replicas) :
    Prop where
  loadedLe : call.loaded ≤ replicas + 1
  postedLe : call.posted ≤ replicas + 1
  loadedFirst : 0 < call.posted ∨ call.diskQueued = true → call.loaded = replicas + 1
  diskOff : call.diskQueued = true → diskbackup = true
  diskFirst : 0 < call.posted → call.diskQueued = diskbackup
  handledPosted : ∀ j, flight.handled j = true → j.val < call.posted
  diskHandledPosted : flight.diskHandled = true → 0 < call.posted ∧ call.diskQueued = true
  freed : flight.freed = if flight.finished diskbackup then 1 else 0
  marked : flight.marked = if flight.finished diskbackup then 1 else 0
  primary : flight.putBack 0 = if flight.finished diskbackup then 1 else 0
  others : ∀ j, j ≠ 0 → flight.putBack j = if flight.handled j then 1 else 0
  dropped : flight.dropped = 0

variable {flight : Flight replicas} {call : WriteCall replicas}

theorem Tracked.diskOff_handled (tracked : flight.Tracked diskbackup call)
    (off : diskbackup = false) : flight.diskHandled = false := by
  rw [← Bool.not_eq_true]
  intro handled
  have on := tracked.diskOff (tracked.diskHandledPosted handled).2
  rw [off] at on
  cases on

/-- All completions were handled when as many were handled as are waited for. -/
theorem count_iff (off : diskbackup = false → flight.diskHandled = false) :
    flight.count = completionsNeeded replicas diskbackup ↔ flight.finished diskbackup = true := by
  rw [finished_iff]
  have bound := census_le flight.handled
  have all : census flight.handled = replicas + 1 ↔ ∀ j, flight.handled j = true := by
    constructor
    · intro full j
      by_contra clear
      have less := census_lt (Bool.not_eq_true _ ▸ clear)
      omega
    · exact census_full
  unfold count completionsNeeded
  cases on : diskbackup with
  | false =>
      rw [off on, ← all]
      simp
  | true =>
      rw [← all]
      cases flight.diskHandled with
      | false =>
          simp
          omega
      | true => simp

theorem count_le (off : diskbackup = false → flight.diskHandled = false) :
    flight.count ≤ completionsNeeded replicas diskbackup := by
  have bound := census_le flight.handled
  unfold count completionsNeeded
  cases on : diskbackup with
  | false =>
      rw [off on]
      simpa using bound
  | true => cases flight.diskHandled <;> simp <;> omega

end Flight

namespace ReplicaWriter

/-- A context in use by a replica of an item. -/
structure CtxTracked (s : ReplicaWriter replicas diskbackup Data) (item : Nat)
    (j : Fin (replicas + 1)) : Prop where
  range : (s.calls item).ctx j < s.capNr
  out : (s.calls item).ctx j ∉ s.freepool
  takenBy : s.takenBy ((s.calls item).ctx j) = (item, j)
  replicaIndex : (s.ctxs ((s.calls item).ctx j)).replicaIndex = j.val
  sendingItem : (s.ctxs ((s.calls item).ctx j)).sendingItem = some item
  buffer : (s.ctxs ((s.calls item).ctx j)).buffer = (s.calls item).ctx 0
  primeCtx : j ≠ 0 → (s.ctxs ((s.calls item).ctx j)).primeCtx = some ((s.calls item).ctx 0)
  rb : (s.ctxs ((s.calls item).ctx j)).rb.isSome = decide (j.val < (s.calls item).posted)

/-- An item that is not finished is allocated and counts its completions. -/
def Held (s : ReplicaWriter replicas diskbackup Data) (item : Nat) : Prop :=
  ∃ tmp, s.items item = some tmp ∧ tmp.refCount = (s.flights item).count ∧
    ∀ index ∈ tmp.batchList, (s.store.gptPages index).isSome

structure Tracks (s : ReplicaWriter replicas diskbackup Data) : Prop where
  tracked : ∀ item, (s.flights item).Tracked diskbackup (s.calls item)
  unused : ∀ item, s.nextItem ≤ item → (s.calls item).loaded = 0
  held : ∀ item, item < s.nextItem → (s.flights item).finished diskbackup = false → s.Held item
  ctx : ∀ item j, (s.flights item).Out diskbackup (s.calls item) j → s.CtxTracked item j
  nodup : s.freepool.Nodup
  free : ∀ ctx ∈ s.freepool, ctx < s.capNr ∧ (s.ctxs ctx).rb = none
  writes : ∀ write, write ∈ s.posted ↔ write.ctx = (s.calls write.item).ctx write.replica ∧
    write.replica.val < (s.calls write.item).posted ∧
      (s.flights write.item).handled write.replica = false
  writesNodup : s.posted.Nodup
  bios : ∀ bio, bio ∈ s.bios ↔ bio.ctx = (s.calls bio.item).ctx 0 ∧
    (s.calls bio.item).diskQueued = true ∧ (s.flights bio.item).diskHandled = false
  biosNodup : s.bios.Nodup

variable {s next : ReplicaWriter replicas diskbackup Data}

theorem tracks_init (store : PageStore Data) (capNr : Nat) :
    (init store capNr : ReplicaWriter replicas diskbackup Data).Tracks where
  tracked := by
    intro item
    have clear : (Flight.mk (fun _ => false) false 0 0 (fun _ => 0) 0 :
        Flight replicas).finished diskbackup = false := Flight.not_finished_of_clear (j := 0) rfl
    refine ⟨Nat.zero_le _, Nat.zero_le _, ?_, nofun, nofun, nofun, nofun, ?_, ?_, ?_, ?_, rfl⟩
    · rintro (posted | queued)
      · exact absurd posted (Nat.lt_irrefl 0)
      · cases queued
    · exact (if_neg (by rw [init, clear]; exact Bool.false_ne_true)).symm
    · exact (if_neg (by rw [init, clear]; exact Bool.false_ne_true)).symm
    · exact (if_neg (by rw [init, clear]; exact Bool.false_ne_true)).symm
    · intro j _
      rfl
  unused := fun _ _ => rfl
  held := fun item used => absurd used (Nat.not_lt_zero item)
  ctx := fun item j out => absurd out.1 (Nat.not_lt_zero j.val)
  nodup := List.nodup_range
  free := fun ctx member => ⟨List.mem_range.mp member, rfl⟩
  writes := fun write => ⟨nofun, fun bad => absurd bad.2.1 (Nat.not_lt_zero _)⟩
  writesNodup := List.nodup_nil
  bios := fun bio => ⟨nofun, fun bad => nomatch bad.2.1⟩
  biosNodup := List.nodup_nil

/-- An item of which something is loaded has been started. -/
theorem Tracks.used (tracks : s.Tracks) {item : Nat} (loaded : 0 < (s.calls item).loaded) :
    item < s.nextItem := by
  by_contra unused
  have none_ := tracks.unused item (Nat.le_of_not_lt unused)
  omega

/-- Different replicas and different items use different contexts. -/
theorem Tracks.ctx_ne (tracks : s.Tracks) {item other : Nat} {j k : Fin (replicas + 1)}
    (out : (s.flights item).Out diskbackup (s.calls item) j)
    (outOther : (s.flights other).Out diskbackup (s.calls other) k)
    (different : (item, j) ≠ (other, k)) : (s.calls item).ctx j ≠ (s.calls other).ctx k := by
  intro same
  have first := (tracks.ctx item j out).takenBy
  have second := (tracks.ctx other k outOther).takenBy
  rw [same, second] at first
  exact different first.symm

/-- Nothing has happened to an item that is not started. -/
theorem Tracks.idle (tracks : s.Tracks) {item : Nat} (unused : s.nextItem ≤ item) :
    (s.calls item).posted = 0 ∧ (s.calls item).diskQueued = false ∧
      (∀ j, (s.flights item).handled j = false) ∧ (s.flights item).diskHandled = false := by
  have tracked := tracks.tracked item
  have loaded := tracks.unused item unused
  have never : ¬ (0 < (s.calls item).posted ∨ (s.calls item).diskQueued = true) := by
    intro some_
    have full := tracked.loadedFirst some_
    omega
  obtain ⟨posted, queued⟩ := not_or.mp never
  refine ⟨Nat.eq_zero_of_not_pos posted, Bool.not_eq_true _ ▸ queued, ?_, ?_⟩
  · intro j
    rw [← Bool.not_eq_true]
    intro handled
    exact posted (Nat.zero_lt_of_lt (tracked.handledPosted j handled))
  · rw [← Bool.not_eq_true]
    intro handled
    exact posted (tracked.diskHandledPosted handled).1

/-- A context in use is not touched by what happens to others. -/
theorem CtxTracked.keep {item : Nat} {j : Fin (replicas + 1)} (tracked : s.CtxTracked item j)
    (ctx : (next.calls item).ctx = (s.calls item).ctx)
    (posted : j.val < (next.calls item).posted ↔ j.val < (s.calls item).posted)
    (capNr : next.capNr = s.capNr) (out : (s.calls item).ctx j ∉ next.freepool)
    (takenBy : next.takenBy ((s.calls item).ctx j) = s.takenBy ((s.calls item).ctx j))
    (ctxs : next.ctxs ((s.calls item).ctx j) = s.ctxs ((s.calls item).ctx j)) :
    next.CtxTracked item j := by
  refine ⟨?_, ?_, ?_, ?_, ?_, ?_, ?_, ?_⟩
  · rw [ctx, capNr]
    exact tracked.range
  · rw [ctx]
    exact out
  · rw [ctx, takenBy]
    exact tracked.takenBy
  · rw [ctx, ctxs]
    exact tracked.replicaIndex
  · rw [ctx, ctxs]
    exact tracked.sendingItem
  · rw [ctx, ctxs]
    exact tracked.buffer
  · rw [ctx, ctxs]
    exact tracked.primeCtx
  · rw [ctx, ctxs, tracked.rb]
    exact decide_eq_decide.mpr posted.symm

theorem Held.keep {item : Nat} (held : s.Held item) (items : next.items item = s.items item)
    (flights : next.flights item = s.flights item) (store : next.store = s.store) :
    next.Held item := by
  rw [Held, items, flights, store]
  exact held

/-! ## The calls of `rdma_write` -/

theorem Tracks.start (tracks : s.Tracks) {tmp : LocalPageList}
    {blocks : Fin (replicas + 1) → Nat × Nat} {offset : Nat}
    (inTree : ∀ index ∈ tmp.batchList, (s.store.gptPages index).isSome) :
    (s.start tmp blocks offset).Tracks := by
  obtain ⟨posted, queued, clear, diskClear⟩ := tracks.idle (le_refl s.nextItem)
  have call {item : Nat} (other : item ≠ s.nextItem) :
      (s.start tmp blocks offset).calls item = s.calls item := Function.update_of_ne other _ _
  have new : (s.start tmp blocks offset).calls s.nextItem =
      ⟨blocks, offset, fun _ => 0, 0, false, 0⟩ := Function.update_self ..
  refine ⟨?_, ?_, ?_, ?_, tracks.nodup, tracks.free, ?_, tracks.writesNodup, ?_,
    tracks.biosNodup⟩
  · intro item
    rcases eq_or_ne item s.nextItem with rfl | other
    · have tracked := tracks.tracked s.nextItem
      rw [new]
      refine ⟨Nat.zero_le _, Nat.zero_le _, ?_, nofun, nofun, ?_, ?_, tracked.freed,
        tracked.marked, tracked.primary, tracked.others, tracked.dropped⟩
      · rintro (some_ | some_)
        · exact absurd some_ (Nat.lt_irrefl 0)
        · cases some_
      · intro j handled
        exact absurd (handled.symm.trans (clear j)) (by decide)
      · intro handled
        exact absurd (handled.symm.trans diskClear) (by decide)
    · rw [call other]
      exact tracks.tracked item
  · intro item unused
    have later : s.nextItem + 1 ≤ item := unused
    rw [call (by omega)]
    exact tracks.unused item (by omega)
  · intro item used notFinished
    rcases eq_or_ne item s.nextItem with rfl | other
    · refine ⟨{ tmp with refCount := 0 }, Function.update_self .., ?_, inTree⟩
      have none_ : census (s.flights s.nextItem).handled = 0 := by
        rw [show (s.flights s.nextItem).handled = fun _ => false from funext clear]
        exact census_none
      show 0 = (s.flights s.nextItem).count
      rw [Flight.count, none_, diskClear]
      rfl
    · have before : item < s.nextItem + 1 := used
      refine (tracks.held item (by omega) notFinished).keep ?_ rfl rfl
      exact Function.update_of_ne other _ _
  · intro item j out
    rcases eq_or_ne item s.nextItem with rfl | other
    · rw [new] at out
      exact absurd out.1 (Nat.not_lt_zero _)
    · rw [call other] at out
      have tracked := tracks.ctx item j out
      exact tracked.keep (by rw [call other]) (by rw [call other]) rfl tracked.out rfl rfl
  · intro write
    rcases eq_or_ne write.item s.nextItem with same | other
    · have before := tracks.writes write
      rw [same, posted] at before
      rw [same, new]
      refine before.trans ⟨?_, ?_⟩
      · exact fun bad => absurd bad.2.1 (Nat.not_lt_zero _)
      · exact fun bad => absurd bad.2.1 (Nat.not_lt_zero _)
    · rw [call other]
      exact tracks.writes write
  · intro bio
    rcases eq_or_ne bio.item s.nextItem with same | other
    · have before := tracks.bios bio
      rw [same, queued] at before
      rw [same, new]
      refine before.trans ⟨?_, ?_⟩
      · exact fun bad => nomatch bad.2.1
      · exact fun bad => nomatch bad.2.1
    · rw [call other]
      exact tracks.bios bio

/-- What taking a context for a replica does. -/
theorem load_spec {item : Nat} {j : Fin (replicas + 1)} (loads : s.load item j = some next) :
    ∃ ctx rest tmp, s.freepool = ctx :: rest ∧ s.items item = some tmp ∧
      next.freepool = rest ∧ next.capNr = s.capNr ∧ next.items = s.items ∧
      next.calls = Function.update s.calls item { s.calls item with
        ctx := Function.update (s.calls item).ctx j ctx
        loaded := (s.calls item).loaded + 1 } ∧
      next.nextItem = s.nextItem ∧ next.posted = s.posted ∧ next.bios = s.bios ∧
      next.store = s.store ∧ next.flights = s.flights ∧
      next.takenBy = Function.update s.takenBy ctx (item, j) ∧
      next.ctxs = Function.update s.ctxs ctx { s.ctxs ctx with
        inFlight := true
        replicaIndex := j.val
        buffer := Function.update (s.calls item).ctx j ctx 0
        primeCtx := if j.val = 0 then (s.ctxs ctx).primeCtx else
          some (Function.update (s.calls item).ctx j ctx 0)
        len := tmp.len * valetPageSize
        sendingItem := some item } := by
  unfold load at loads
  cases free : s.freepool with
  | nil =>
      rw [free] at loads
      cases loads
  | cons ctx rest =>
      cases held : s.items item with
      | none =>
          rw [free, held] at loads
          cases loads
      | some tmp =>
          rw [free, held] at loads
          cases loads
          refine ⟨ctx, rest, tmp, rfl, rfl, rfl, rfl, rfl, rfl, rfl, rfl, rfl, rfl, rfl, rfl, ?_⟩
          simp only [modifyCtx, modifyCall, Function.update_self]

theorem Tracks.load (tracks : s.Tracks) {item : Nat} {j : Fin (replicas + 1)}
    (used : item < s.nextItem) (position : (s.calls item).loaded = j.val)
    (loads : s.load item j = some next) : next.Tracks := by
  obtain ⟨ctx, rest, tmp, free, holds, freepool, capNr, items, calls, nextItem, posted, bios,
    store, flights, takenBy, ctxs⟩ := load_spec loads
  have nodup := tracks.nodup
  rw [free, List.nodup_cons] at nodup
  obtain ⟨range, noRb⟩ := tracks.free ctx (by rw [free]; exact List.mem_cons_self)
  have trackedItem := tracks.tracked item
  have notPosted : (s.calls item).posted = 0 ∧ (s.calls item).diskQueued = false := by
    have never : ¬ (0 < (s.calls item).posted ∨ (s.calls item).diskQueued = true) := by
      intro some_
      have full := trackedItem.loadedFirst some_
      have less := j.isLt
      omega
    obtain ⟨posted, queued⟩ := not_or.mp never
    exact ⟨Nat.eq_zero_of_not_pos posted, Bool.not_eq_true _ ▸ queued⟩
  have call {other : Nat} (different : other ≠ item) : next.calls other = s.calls other := by
    rw [calls]
    exact Function.update_of_ne different _ _
  have callItem : next.calls item = { s.calls item with
      ctx := Function.update (s.calls item).ctx j ctx
      loaded := (s.calls item).loaded + 1 } := by
    rw [calls]
    exact Function.update_self ..
  -- contexts in use are not the one that is taken
  have others {other : Nat} {k : Fin (replicas + 1)}
      (out : (s.flights other).Out diskbackup (s.calls other) k) :
      (s.calls other).ctx k ≠ ctx := by
    rintro rfl
    exact (tracks.ctx other k out).out (by rw [free]; exact List.mem_cons_self)
  have keep {other : Nat} {k : Fin (replicas + 1)}
      (out : (s.flights other).Out diskbackup (s.calls other) k) :
      (s.calls other).ctx k ∉ next.freepool ∧
        next.takenBy ((s.calls other).ctx k) = s.takenBy ((s.calls other).ctx k) ∧
          next.ctxs ((s.calls other).ctx k) = s.ctxs ((s.calls other).ctx k) := by
    have inUse := (tracks.ctx other k out).out
    rw [free] at inUse
    refine ⟨?_, ?_, ?_⟩
    · rw [freepool]
      exact fun member => inUse (List.mem_cons_of_mem _ member)
    · rw [takenBy]
      exact Function.update_of_ne (others out) _ _
    · rw [ctxs]
      exact Function.update_of_ne (others out) _ _
  refine ⟨?_, ?_, ?_, ?_, ?_, ?_, ?_, ?_, ?_, ?_⟩
  · intro other
    rw [flights]
    rcases eq_or_ne other item with rfl | different
    · rw [callItem]
      have less := j.isLt
      refine ⟨?_, trackedItem.postedLe, ?_, trackedItem.diskOff, trackedItem.diskFirst,
        trackedItem.handledPosted, trackedItem.diskHandledPosted, trackedItem.freed,
        trackedItem.marked, trackedItem.primary, trackedItem.others, trackedItem.dropped⟩
      · dsimp only
        omega
      · dsimp only
        rw [notPosted.1, notPosted.2]
        rintro (some_ | some_)
        · exact absurd some_ (Nat.lt_irrefl 0)
        · cases some_
    · rw [call different]
      exact tracks.tracked other
  · intro other unused
    rw [nextItem] at unused
    rw [call (by omega)]
    exact tracks.unused other unused
  · intro other usedOther notFinished
    rw [nextItem] at usedOther
    rw [flights] at notFinished
    exact (tracks.held other usedOther notFinished).keep (congrFun items other)
      (congrFun flights other) store
  · intro other k out
    rw [flights] at out
    rcases eq_or_ne other item with rfl | different
    · rw [callItem] at out
      rcases eq_or_ne k j with rfl | earlier
      · have here : (next.calls other).ctx k = ctx := by
          rw [callItem]
          exact Function.update_self ..
        have loadedCtx : next.ctxs ctx = { s.ctxs ctx with
            inFlight := true
            replicaIndex := k.val
            buffer := (next.calls other).ctx 0
            primeCtx := if k.val = 0 then (s.ctxs ctx).primeCtx else
              some ((next.calls other).ctx 0)
            len := tmp.len * valetPageSize
            sendingItem := some other } := by
          rw [ctxs, callItem]
          exact Function.update_self ..
        refine ⟨?_, ?_, ?_, ?_, ?_, ?_, ?_, ?_⟩
        · rw [here, capNr]
          exact range
        · rw [here, freepool]
          exact nodup.1
        · rw [here, takenBy]
          exact Function.update_self ..
        · rw [here, loadedCtx]
        · rw [here, loadedCtx]
        · rw [here, loadedCtx]
        · intro notPrimary
          rw [here, loadedCtx]
          exact if_neg fun zero => notPrimary (Fin.ext zero)
        · rw [here, loadedCtx, callItem]
          simp only [noRb, notPosted.1]
          rfl
      · -- the contexts taken before for this item
        have before : k.val < (s.calls other).loaded := by
          have below : k.val < (s.calls other).loaded + 1 := out.1
          have apart : k.val ≠ j.val := fun same => earlier (Fin.ext same)
          omega
        have outBefore : (s.flights other).Out diskbackup (s.calls other) k := ⟨before, out.2⟩
        obtain ⟨notFree, taken, same⟩ := keep outBefore
        have tracked := tracks.ctx other k outBefore
        have here : (next.calls other).ctx k = (s.calls other).ctx k := by
          rw [callItem]
          exact Function.update_of_ne earlier _ _
        have zero : (next.calls other).ctx 0 = (s.calls other).ctx 0 := by
          rw [callItem]
          refine Function.update_of_ne ?_ _ _
          rintro rfl
          rw [position] at before
          exact absurd before (Nat.not_lt_zero _)
        refine ⟨?_, ?_, ?_, ?_, ?_, ?_, ?_, ?_⟩
        · rw [here, capNr]
          exact tracked.range
        · rw [here]
          exact notFree
        · rw [here, taken]
          exact tracked.takenBy
        · rw [here, same]
          exact tracked.replicaIndex
        · rw [here, same]
          exact tracked.sendingItem
        · rw [here, same, zero]
          exact tracked.buffer
        · intro notPrimary
          rw [here, same, zero]
          exact tracked.primeCtx notPrimary
        · rw [here, same, callItem]
          exact tracked.rb
    · rw [call different] at out
      obtain ⟨notFree, taken, same⟩ := keep out
      exact (tracks.ctx other k out).keep (by rw [call different]) (by rw [call different]) capNr
        notFree taken same
  · rw [freepool]
    exact nodup.2
  · intro other member
    rw [freepool] at member
    have different : other ≠ ctx := by
      rintro rfl
      exact nodup.1 member
    rw [capNr, ctxs, Function.update_of_ne different]
    exact tracks.free other (by rw [free]; exact List.mem_cons_of_mem _ member)
  · intro write
    rw [posted, flights]
    rcases eq_or_ne write.item item with same | different
    · have before := tracks.writes write
      rw [same, notPosted.1] at before
      rw [same, callItem]
      dsimp only
      rw [notPosted.1]
      refine before.trans ⟨?_, ?_⟩
      · exact fun bad => absurd bad.2.1 (Nat.not_lt_zero _)
      · exact fun bad => absurd bad.2.1 (Nat.not_lt_zero _)
    · rw [call different]
      exact tracks.writes write
  · rw [posted]
    exact tracks.writesNodup
  · intro bio
    rw [bios, flights]
    rcases eq_or_ne bio.item item with same | different
    · have before := tracks.bios bio
      rw [same, notPosted.2] at before
      rw [same, callItem]
      dsimp only
      rw [notPosted.2]
      refine before.trans ⟨?_, ?_⟩
      · exact fun bad => nomatch bad.2.1
      · exact fun bad => nomatch bad.2.1
    · rw [call different]
      exact tracks.bios bio
  · rw [bios]
    exact tracks.biosNodup

theorem Tracks.diskWrite (tracks : s.Tracks) {item : Nat} (backup : diskbackup = true)
    (loaded : (s.calls item).loaded = replicas + 1)
    (notQueued : (s.calls item).diskQueued = false) : (s.diskWrite item).Tracks := by
  have trackedItem := tracks.tracked item
  have notPosted : (s.calls item).posted = 0 := by
    by_contra some_
    have first := trackedItem.diskFirst (Nat.pos_of_ne_zero some_)
    rw [notQueued, backup] at first
    cases first
  have call {other : Nat} (different : other ≠ item) :
      (s.diskWrite item).calls other = s.calls other := Function.update_of_ne different _ _
  have callItem : (s.diskWrite item).calls item = { s.calls item with diskQueued := true } :=
    Function.update_self ..
  have ctxSame (other : Nat) : ((s.diskWrite item).calls other).ctx = (s.calls other).ctx ∧
      ((s.diskWrite item).calls other).posted = (s.calls other).posted ∧
        ((s.diskWrite item).calls other).loaded = (s.calls other).loaded := by
    rcases eq_or_ne other item with rfl | different
    · rw [callItem]
      exact ⟨rfl, rfl, rfl⟩
    · rw [call different]
      exact ⟨rfl, rfl, rfl⟩
  refine ⟨?_, ?_, tracks.held, ?_, tracks.nodup, tracks.free, ?_, tracks.writesNodup, ?_, ?_⟩
  · intro other
    rcases eq_or_ne other item with rfl | different
    · rw [callItem]
      refine ⟨trackedItem.loadedLe, trackedItem.postedLe, fun _ => loaded, fun _ => backup, ?_,
        trackedItem.handledPosted, fun handled => ⟨(trackedItem.diskHandledPosted handled).1, rfl⟩,
        trackedItem.freed, trackedItem.marked, trackedItem.primary, trackedItem.others,
        trackedItem.dropped⟩
      exact fun _ => backup.symm
    · rw [call different]
      exact tracks.tracked other
  · intro other unused
    rw [(ctxSame other).2.2]
    exact tracks.unused other unused
  · intro other j out
    obtain ⟨ctx, posted, loadedSame⟩ := ctxSame other
    have before : (s.flights other).Out diskbackup (s.calls other) j := ⟨loadedSame ▸ out.1, out.2⟩
    have tracked := tracks.ctx other j before
    exact tracked.keep ctx (by rw [posted]) rfl tracked.out rfl rfl
  · intro write
    obtain ⟨ctx, posted, _⟩ := ctxSame write.item
    rw [ctx, posted]
    exact tracks.writes write
  · intro bio
    obtain ⟨ctx, _, _⟩ := ctxSame bio.item
    have old := tracks.bios bio
    show bio ∈ s.bios ++ [⟨(s.calls item).ctx 0, item⟩] ↔ _
    rw [List.mem_append, List.mem_singleton, old, ctx]
    rcases eq_or_ne bio.item item with same | different
    · have clear : (s.flights item).diskHandled = false := by
        rw [← Bool.not_eq_true]
        intro handled
        have first := (trackedItem.diskHandledPosted handled).1
        omega
      rw [same, callItem, notQueued]
      constructor
      · rintro (⟨_, bad, _⟩ | rfl)
        · cases bad
        · exact ⟨rfl, rfl, clear⟩
      · rintro ⟨here, _, _⟩
        exact Or.inr (QueuedBio.ext here same)
    · rw [call different]
      constructor
      · rintro (before | rfl)
        · exact before
        · exact absurd rfl different
      · exact Or.inl
  · refine List.nodup_append.mpr ⟨tracks.biosNodup, List.nodup_singleton _, ?_⟩
    rintro bio member _ single rfl
    cases List.mem_singleton.mp single
    have queued := ((tracks.bios _).mp member).2.1
    rw [notQueued] at queued
    cases queued

theorem Tracks.post (tracks : s.Tracks) {item : Nat} {j : Fin (replicas + 1)}
    (loaded : (s.calls item).loaded = replicas + 1)
    (queued : (s.calls item).diskQueued = diskbackup) (position : (s.calls item).posted = j.val) :
    (s.postReplica item j).Tracks := by
  have trackedItem := tracks.tracked item
  have clear : (s.flights item).handled j = false := by
    rw [← Bool.not_eq_true]
    intro handled
    have less := trackedItem.handledPosted j handled
    omega
  have outJ : (s.flights item).Out diskbackup (s.calls item) j := by
    refine ⟨by rw [loaded]; exact j.isLt, ?_⟩
    rw [clear, Flight.not_finished_of_clear clear, ite_self]
  have call {other : Nat} (different : other ≠ item) :
      (s.postReplica item j).calls other = s.calls other := Function.update_of_ne different _ _
  have callItem : (s.postReplica item j).calls item =
      { s.calls item with posted := (s.calls item).posted + 1 } := Function.update_self ..
  have ctxSame (other : Nat) : ((s.postReplica item j).calls other).ctx = (s.calls other).ctx ∧
      ((s.postReplica item j).calls other).diskQueued = (s.calls other).diskQueued ∧
        ((s.postReplica item j).calls other).loaded = (s.calls other).loaded := by
    rcases eq_or_ne other item with rfl | different
    · rw [callItem]
      exact ⟨rfl, rfl, rfl⟩
    · rw [call different]
      exact ⟨rfl, rfl, rfl⟩
  have ctxs : (s.postReplica item j).ctxs = Function.update s.ctxs ((s.calls item).ctx j)
      { s.ctxs ((s.calls item).ctx j) with
        offset := (s.calls item).offset
        rb := some ((s.calls item).blocks j) } := rfl
  refine ⟨?_, ?_, tracks.held, ?_, tracks.nodup, ?_, ?_, ?_, ?_, tracks.biosNodup⟩
  · intro other
    rcases eq_or_ne other item with rfl | different
    · rw [callItem]
      have less := j.isLt
      refine ⟨trackedItem.loadedLe, ?_, fun _ => loaded, trackedItem.diskOff, fun _ => queued, ?_,
        ?_, trackedItem.freed, trackedItem.marked, trackedItem.primary, trackedItem.others,
        trackedItem.dropped⟩
      · dsimp only
        omega
      · intro k handled
        exact Nat.lt_succ_of_lt (trackedItem.handledPosted k handled)
      · intro handled
        exact ⟨Nat.succ_pos _, (trackedItem.diskHandledPosted handled).2⟩
    · rw [call different]
      exact tracks.tracked other
  · intro other unused
    rw [(ctxSame other).2.2]
    exact tracks.unused other unused
  · intro other k out
    obtain ⟨ctx, _, loadedSame⟩ := ctxSame other
    have before : (s.flights other).Out diskbackup (s.calls other) k :=
      ⟨loadedSame ▸ out.1, out.2⟩
    have tracked := tracks.ctx other k before
    by_cases same : (other, k) = (item, j)
    · obtain ⟨hereItem, hereReplica⟩ := Prod.mk.inj same
      subst hereItem hereReplica
      have posts : (s.postReplica other k).ctxs ((s.calls other).ctx k) =
          { s.ctxs ((s.calls other).ctx k) with
            offset := (s.calls other).offset
            rb := some ((s.calls other).blocks k) } := by
        rw [ctxs]
        exact Function.update_self ..
      refine ⟨?_, ?_, ?_, ?_, ?_, ?_, ?_, ?_⟩
      · rw [ctx]
        exact tracked.range
      · rw [ctx]
        exact tracked.out
      · rw [ctx]
        exact tracked.takenBy
      · rw [ctx, posts]
        exact tracked.replicaIndex
      · rw [ctx, posts]
        exact tracked.sendingItem
      · rw [ctx, posts]
        exact tracked.buffer
      · intro notPrimary
        rw [ctx, posts]
        exact tracked.primeCtx notPrimary
      · rw [ctx, posts, callItem, position]
        simp
    · have apart := tracks.ctx_ne before outJ same
      refine tracked.keep ctx ?_ rfl tracked.out rfl ?_
      · rcases eq_or_ne other item with rfl | different
        · have notJ : k.val ≠ j.val := fun equal => same (by rw [Fin.ext equal])
          rw [callItem, position]
          dsimp only
          omega
        · rw [call different]
      · rw [ctxs]
        exact Function.update_of_ne apart _ _
  · intro ctx member
    obtain ⟨range, noRb⟩ := tracks.free ctx member
    have apart : ctx ≠ (s.calls item).ctx j := by
      rintro rfl
      exact (tracks.ctx item j outJ).out member
    rw [ctxs, Function.update_of_ne apart]
    exact ⟨range, noRb⟩
  · intro write
    have old := tracks.writes write
    obtain ⟨ctx, _, _⟩ := ctxSame write.item
    show write ∈ s.posted ++ [⟨(s.calls item).ctx j, item, j⟩] ↔ _
    rw [List.mem_append, List.mem_singleton, old, ctx]
    rcases eq_or_ne write.item item with same | different
    · rw [same, callItem, position]
      constructor
      · rintro (⟨here, less, notHandled⟩ | rfl)
        · exact ⟨here, Nat.lt_succ_of_lt less, notHandled⟩
        · exact ⟨rfl, Nat.lt_succ_self _, clear⟩
      · rintro ⟨here, less, notHandled⟩
        rcases Nat.lt_or_eq_of_le (Nat.le_of_lt_succ less) with before | now
        · exact Or.inl ⟨here, before, notHandled⟩
        · have replica := Fin.ext now
          rw [replica] at here
          exact Or.inr (PostedWrite.ext here same replica)
    · rw [call different]
      constructor
      · rintro (before | rfl)
        · exact before
        · exact absurd rfl different
      · exact Or.inl
  · refine List.nodup_append.mpr ⟨tracks.writesNodup, List.nodup_singleton _, ?_⟩
    rintro write member _ single rfl
    cases List.mem_singleton.mp single
    have less := ((tracks.writes _).mp member).2.1
    dsimp only at less
    omega
  · intro bio
    obtain ⟨ctx, diskSame, _⟩ := ctxSame bio.item
    rw [ctx, diskSame]
    exact tracks.bios bio

end ReplicaWriter

end Valet.Bd
