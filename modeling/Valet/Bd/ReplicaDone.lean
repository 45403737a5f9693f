import Valet.Bd.ReplicaTracks

/-!
# The completions of a write to several replicas

What one completion does is put together from counting it, freeing the item and
putting contexts back.  Without a disk backup every order of completions frees
an item once, at the last of them, and puts every context back once.
-/

namespace Valet.Bd

open Valet.Library

variable {replicas : Nat} {diskbackup : Bool} {Data : Type}

namespace Flight

/-- The completion of a write comes in. -/
def handle (flight : Flight replicas) (j : Fin (replicas + 1)) : Flight replicas :=
  { flight with handled := Function.update flight.handled j true }

/-- The completion of the bio comes in. -/
def handleDisk (flight : Flight replicas) : Flight replicas :=
  { flight with diskHandled := true }

/-- The item is marked and freed. -/
def finish (flight : Flight replicas) : Flight replicas :=
  { flight with marked := flight.marked + 1, freed := flight.freed + 1 }

/-- The context of a replica is put back. -/
def giveBack (flight : Flight replicas) (j : Fin (replicas + 1)) : Flight replicas :=
  { flight with putBack := Function.update flight.putBack j (flight.putBack j + 1) }

variable {flight after : Flight replicas} {call : WriteCall replicas} {j : Fin (replicas + 1)}

/-- Nothing was freed while completions are missing. -/
theorem Tracked.pending (tracked : flight.Tracked diskbackup call)
    (notFinished : flight.finished diskbackup = false) :
    flight.freed = 0 ∧ flight.marked = 0 ∧ flight.putBack 0 = 0 := by
  have freed := tracked.freed
  have marked := tracked.marked
  have primary := tracked.primary
  rw [notFinished] at freed marked primary
  exact ⟨freed, marked, primary⟩

/-- The completion of a write, given what was freed with it. -/
theorem Tracked.wrote (tracked : flight.Tracked diskbackup call) (posted : j.val < call.posted)
    (clear : flight.handled j = false) (handled : after.handled = (flight.handle j).handled)
    (disk : after.diskHandled = flight.diskHandled)
    (freed : after.freed = if after.finished diskbackup then 1 else 0)
    (marked : after.marked = if after.finished diskbackup then 1 else 0)
    (primary : after.putBack 0 = if after.finished diskbackup then 1 else 0)
    (mine : j ≠ 0 → after.putBack j = flight.putBack j + 1)
    (others : ∀ k, k ≠ 0 → k ≠ j → after.putBack k = flight.putBack k)
    (dropped : after.dropped = flight.dropped) : after.Tracked diskbackup call := by
  have same {k : Fin (replicas + 1)} (different : k ≠ j) : after.handled k = flight.handled k := by
    rw [handled]
    exact Function.update_of_ne different _ _
  refine ⟨tracked.loadedLe, tracked.postedLe, tracked.loadedFirst, tracked.diskOff,
    tracked.diskFirst, ?_, ?_, freed, marked, primary, ?_, dropped.trans tracked.dropped⟩
  · intro k done
    rcases eq_or_ne k j with rfl | different
    · exact posted
    · rw [same different] at done
      exact tracked.handledPosted k done
  · rw [disk]
    exact tracked.diskHandledPosted
  · intro k notPrimary
    rcases eq_or_ne k j with rfl | different
    · have now : after.handled k = true := by
        rw [handled]
        exact Function.update_self ..
      rw [mine notPrimary, tracked.others k notPrimary, clear, now]
      rfl
    · rw [others k notPrimary different, same different]
      exact tracked.others k notPrimary

/-- The completion of the bio, given what was freed with it. -/
theorem Tracked.wroteDisk (tracked : flight.Tracked diskbackup call)
    (posted : 0 < call.posted ∧ call.diskQueued = true)
    (handled : after.handled = flight.handled)
    (freed : after.freed = if after.finished diskbackup then 1 else 0)
    (marked : after.marked = if after.finished diskbackup then 1 else 0)
    (primary : after.putBack 0 = if after.finished diskbackup then 1 else 0)
    (others : ∀ k, k ≠ 0 → after.putBack k = flight.putBack k)
    (dropped : after.dropped = flight.dropped) : after.Tracked diskbackup call := by
  refine ⟨tracked.loadedLe, tracked.postedLe, tracked.loadedFirst, tracked.diskOff,
    tracked.diskFirst, ?_, fun _ => posted, freed, marked, primary, ?_,
    dropped.trans tracked.dropped⟩
  · rw [handled]
    exact tracked.handledPosted
  · intro k notPrimary
    rw [handled, others k notPrimary]
    exact tracked.others k notPrimary

theorem giveBack_self : (flight.giveBack j).putBack j = flight.putBack j + 1 :=
  Function.update_self ..

theorem giveBack_of_ne {k : Fin (replicas + 1)} (different : k ≠ j) :
    (flight.giveBack j).putBack k = flight.putBack k := Function.update_of_ne different _ _

section Handle

variable (tracked : flight.Tracked diskbackup call) (posted : j.val < call.posted)
  (clear : flight.handled j = false)

include tracked posted clear

/-- The primary completes first. -/
theorem Tracked.handle_primary (primary : j = 0)
    (left : (flight.handle j).finished diskbackup = false) :
    (flight.handle j).Tracked diskbackup call := by
  obtain ⟨freed, marked, notBack⟩ := tracked.pending (not_finished_of_clear clear)
  refine tracked.wrote posted clear rfl rfl ?_ ?_ ?_ ?_ (fun _ _ _ => rfl) rfl
  · rw [left]
    exact freed
  · rw [left]
    exact marked
  · rw [left]
    exact notBack
  · exact fun other => absurd primary other

/-- Another replica completes and puts its own context back. -/
theorem Tracked.handle_other (other : j ≠ 0)
    (left : (flight.handle j).finished diskbackup = false) :
    ((flight.handle j).giveBack j).Tracked diskbackup call := by
  obtain ⟨freed, marked, notBack⟩ := tracked.pending (not_finished_of_clear clear)
  have still : ((flight.handle j).giveBack j).finished diskbackup = false := left
  refine tracked.wrote posted clear rfl rfl ?_ ?_ ?_ ?_ ?_ rfl
  · rw [still]
    exact freed
  · rw [still]
    exact marked
  · rw [still, giveBack_of_ne other.symm]
    exact notBack
  · exact fun _ => giveBack_self
  · exact fun k _ different => giveBack_of_ne different

/-- The primary completes last. -/
theorem Tracked.handle_last_primary (primary : j = 0)
    (all : (flight.handle j).finished diskbackup = true) :
    ((flight.handle j).finish.giveBack j).Tracked diskbackup call := by
  obtain ⟨freed, marked, notBack⟩ := tracked.pending (not_finished_of_clear clear)
  have now : ((flight.handle j).finish.giveBack j).finished diskbackup = true := all
  refine tracked.wrote posted clear rfl rfl ?_ ?_ ?_ ?_ ?_ rfl
  · rw [now]
    exact congrArg Nat.succ freed
  · rw [now]
    exact congrArg Nat.succ marked
  · rw [now, ← primary, giveBack_self]
    rw [← primary] at notBack
    exact congrArg Nat.succ notBack
  · exact fun other => absurd primary other
  · exact fun k _ different => giveBack_of_ne different

/-- Another replica completes last and puts the primary context back with its own. -/
theorem Tracked.handle_last_other (other : j ≠ 0)
    (all : (flight.handle j).finished diskbackup = true) :
    (((flight.handle j).finish.giveBack 0).giveBack j).Tracked diskbackup call := by
  obtain ⟨freed, marked, notBack⟩ := tracked.pending (not_finished_of_clear clear)
  have now : (((flight.handle j).finish.giveBack 0).giveBack j).finished diskbackup = true := all
  refine tracked.wrote posted clear rfl rfl ?_ ?_ ?_ ?_ ?_ rfl
  · rw [now]
    exact congrArg Nat.succ freed
  · rw [now]
    exact congrArg Nat.succ marked
  · rw [now, giveBack_of_ne other.symm, giveBack_self]
    exact congrArg Nat.succ notBack
  · intro _
    rw [giveBack_self, giveBack_of_ne other]
    rfl
  · intro k notPrimary different
    rw [giveBack_of_ne different, giveBack_of_ne notPrimary]
    rfl

end Handle

/-- The disk completes and others are missing. -/
theorem Tracked.handleDisk (tracked : flight.Tracked diskbackup call)
    (posted : 0 < call.posted ∧ call.diskQueued = true)
    (notFinished : flight.finished diskbackup = false)
    (left : flight.handleDisk.finished diskbackup = false) :
    flight.handleDisk.Tracked diskbackup call := by
  obtain ⟨freed, marked, notBack⟩ := tracked.pending notFinished
  refine tracked.wroteDisk posted rfl ?_ ?_ ?_ (fun _ _ => rfl) rfl
  · rw [left]
    exact freed
  · rw [left]
    exact marked
  · rw [left]
    exact notBack

/-- The disk completes last and puts the primary context back. -/
theorem Tracked.handleDisk_last (tracked : flight.Tracked diskbackup call)
    (posted : 0 < call.posted ∧ call.diskQueued = true)
    (notFinished : flight.finished diskbackup = false)
    (all : flight.handleDisk.finished diskbackup = true) :
    (flight.handleDisk.finish.giveBack 0).Tracked diskbackup call := by
  obtain ⟨freed, marked, notBack⟩ := tracked.pending notFinished
  have now : (flight.handleDisk.finish.giveBack 0).finished diskbackup = true := all
  refine tracked.wroteDisk posted rfl ?_ ?_ ?_ (fun k other => giveBack_of_ne other) rfl
  · rw [now]
    exact congrArg Nat.succ freed
  · rw [now]
    exact congrArg Nat.succ marked
  · rw [now, giveBack_self]
    exact congrArg Nat.succ notBack

/-- A finished item uses no context. -/
theorem not_out_of_finished (finished : flight.finished diskbackup = true) :
    ¬ flight.Out diskbackup call j := by
  rintro ⟨_, clear⟩
  rcases eq_or_ne j 0 with rfl | notPrimary
  · rw [if_pos rfl, finished] at clear
    cases clear
  · rw [if_neg notPrimary, (finished_iff.mp finished).1 j] at clear
    cases clear

theorem not_out_of_handled (notPrimary : j ≠ 0) (done : flight.handled j = true) :
    ¬ flight.Out diskbackup call j := by
  rintro ⟨_, clear⟩
  rw [if_neg notPrimary, done] at clear
  cases clear

end Flight

namespace ReplicaWriter

/-- What handling a completion of an item has done so far: `flight` has then happened to the item,
and the contexts of `back` are put back. -/
structure Handles (s next : ReplicaWriter replicas diskbackup Data) (item : Nat)
    (flight : Flight replicas) (back : List (Fin (replicas + 1))) : Prop where
  calls : next.calls = s.calls
  nextItem : next.nextItem = s.nextItem
  capNr : next.capNr = s.capNr
  takenBy : next.takenBy = s.takenBy
  flights : next.flights = Function.update s.flights item flight
  items : ∀ other, other ≠ item → next.items other = s.items other
  freepool : next.freepool = back.map (s.calls item).ctx ++ s.freepool
  ctxs : ∀ ctx, ctx ∉ back.map (s.calls item).ctx → next.ctxs ctx = s.ctxs ctx
  cleared : ∀ ctx ∈ back.map (s.calls item).ctx, (next.ctxs ctx).rb = none
  tree : ∀ index, (s.store.gptPages index).isSome → (next.store.gptPages index).isSome

variable {s mid next : ReplicaWriter replicas diskbackup Data} {item : Nat}
  {flight : Flight replicas} {back : List (Fin (replicas + 1))} {j : Fin (replicas + 1)}

/-- The contexts of different replicas are put back beside the pool. -/
theorem Tracks.back_nodup (tracks : s.Tracks) (nodup : back.Nodup)
    (out : ∀ j ∈ back, (s.flights item).Out diskbackup (s.calls item) j) :
    (back.map (s.calls item).ctx ++ s.freepool).Nodup := by
  refine List.nodup_append.mpr ⟨?_, tracks.nodup, ?_⟩
  · refine List.Nodup.map_on ?_ nodup
    intro j member k memberOther same
    by_contra different
    refine tracks.ctx_ne (out j member) (out k memberOther) ?_ same
    exact fun equal => different (Prod.mk.inj equal).2
  · rintro ctx member _ free rfl
    obtain ⟨j, replica, rfl⟩ := List.mem_map.mp member
    exact (tracks.ctx item j (out j replica)).out free

/-- There is room in the pool for a context that is put back. -/
theorem Tracks.back_room (tracks : s.Tracks) (handles : s.Handles mid item flight back)
    (nodup : (j :: back).Nodup)
    (out : ∀ k ∈ j :: back, (s.flights item).Out diskbackup (s.calls item) k) :
    mid.freepool.length < mid.capNr := by
  have all : ((j :: back).map (s.calls item).ctx ++ s.freepool) ⊆ List.range s.capNr := by
    intro ctx member
    rw [List.mem_range]
    rcases List.mem_append.mp member with mine | free
    · obtain ⟨k, replica, rfl⟩ := List.mem_map.mp mine
      exact (tracks.ctx item k (out k replica)).range
    · exact (tracks.free ctx free).1
  have bound := ((tracks.back_nodup nodup out).subperm all).length_le
  rw [handles.freepool, handles.capNr]
  simp only [List.map_cons, List.cons_append, List.length_cons, List.length_range] at bound
  omega

theorem modifyFlight_flights (change : Flight replicas → Flight replicas) :
    (s.modifyFlight item change).flights =
      Function.update s.flights item (change (s.flights item)) := rfl

theorem putFreeItem_flights : (s.putFreeItem item).flights = Function.update s.flights item
    { s.flights item with freed := (s.flights item).freed + 1 } := rfl

theorem putRdmaFreepool_eq {ctx : Nat} (room : s.freepool.length < s.capNr)
    (taken : s.takenBy ctx = (item, j)) :
    s.putRdmaFreepool ctx = .ok ({ s with freepool := ctx :: s.freepool }.modifyFlight item
      fun flight => flight.giveBack j) := by
  unfold putRdmaFreepool
  rw [if_neg (Nat.not_le_of_lt room), taken]
  rfl

/-- A context in use is put back. -/
theorem releaseCtx_ok (tracks : s.Tracks) (handles : s.Handles mid item flight back)
    (nodup : (j :: back).Nodup)
    (out : ∀ k ∈ j :: back, (s.flights item).Out diskbackup (s.calls item) k) :
    ∃ next, mid.releaseCtx ((s.calls item).ctx j) = .ok next ∧
      s.Handles next item (flight.giveBack j) (j :: back) ∧ next.items = mid.items ∧
        next.store = mid.store ∧ next.posted = mid.posted ∧ next.bios = mid.bios := by
  have room := tracks.back_room handles nodup out
  have taken : mid.takenBy ((s.calls item).ctx j) = (item, j) := by
    rw [handles.takenBy]
    exact (tracks.ctx item j (out j List.mem_cons_self)).takenBy
  refine ⟨_, putRdmaFreepool_eq room taken, ⟨handles.calls, handles.nextItem, handles.capNr,
    handles.takenBy, ?_, handles.items, ?_, ?_, ?_, handles.tree⟩, rfl, rfl, rfl, rfl⟩
  · rw [modifyFlight_flights]
    dsimp only [modifyCtx]
    rw [handles.flights, Function.update_idem, Function.update_self]
  · show (s.calls item).ctx j :: mid.freepool = _
    rw [handles.freepool]
    rfl
  · intro ctx notBack
    have apart := List.ne_and_not_mem_of_not_mem_cons notBack
    refine Eq.trans ?_ (handles.ctxs ctx apart.2)
    exact Function.update_of_ne apart.1 _ _
  · intro ctx member
    rcases eq_or_ne ctx ((s.calls item).ctx j) with rfl | different
    · show WriteCtx.rb (Function.update mid.ctxs _ _ _) = none
      rw [Function.update_self]
    · refine Eq.trans (congrArg WriteCtx.rb (Function.update_of_ne different _ _)) ?_
      exact handles.cleared ctx (List.mem_of_ne_of_mem different member)

/-- The item is marked and freed. -/
theorem finishItem_ok {tmp : LocalPageList} (handles : s.Handles mid item flight back)
    (there : ∀ index ∈ tmp.batchList, (mid.store.gptPages index).isSome) :
    ∃ next, mid.finishItem item tmp = .ok next ∧ s.Handles next item flight.finish back ∧
      next.posted = mid.posted ∧ next.bios = mid.bios := by
  obtain ⟨store, marks⟩ := PageStore.writeDoneEntries_ok there
  have all := PageStore.finishesAll_of_ok marks
  refine ⟨_, bind_eq_ok.mpr ⟨store, marks, rfl⟩, ⟨handles.calls, handles.nextItem, handles.capNr,
    handles.takenBy, ?_, ?_, handles.freepool, handles.ctxs, handles.cleared, ?_⟩, rfl, rfl⟩
  · rw [putFreeItem_flights, modifyFlight_flights]
    dsimp only
    rw [handles.flights, Function.update_idem, Function.update_idem, Function.update_self,
      Function.update_self]
    rfl
  · intro other different
    exact (Function.update_of_ne different _ _).trans (handles.items other different)
  · exact fun index before => all.present (handles.tree index before)

/-- Handling a completion leaves the other items and the contexts in use alone. -/
theorem Tracks.handles (tracks : s.Tracks) (handles : s.Handles next item flight back)
    (tracked : flight.Tracked diskbackup (s.calls item))
    (more : ∀ j, flight.Out diskbackup (s.calls item) j →
      (s.flights item).Out diskbackup (s.calls item) j)
    (nodup : back.Nodup)
    (out : ∀ j ∈ back, (s.flights item).Out diskbackup (s.calls item) j)
    (notOut : ∀ j ∈ back, ¬ flight.Out diskbackup (s.calls item) j)
    (notFinished : (s.flights item).finished diskbackup = false)
    (held : flight.finished diskbackup = false → next.Held item)
    (writesNodup : next.posted.Nodup) (biosNodup : next.bios.Nodup)
    (writes : ∀ write, write ∈ next.posted ↔ write ∈ s.posted ∧
      (write.item = item → flight.handled write.replica = false))
    (bios : ∀ bio, bio ∈ next.bios ↔ bio ∈ s.bios ∧
      (bio.item = item → flight.diskHandled = false))
    (grown : ∀ j, (s.flights item).handled j = true → flight.handled j = true)
    (grownDisk : (s.flights item).diskHandled = true → flight.diskHandled = true) :
    next.Tracks := by
  have flightItem : next.flights item = flight := by
    rw [handles.flights]
    exact Function.update_self ..
  have flightOther {other : Nat} (different : other ≠ item) :
      next.flights other = s.flights other := by
    rw [handles.flights]
    exact Function.update_of_ne different _ _
  have outBefore {other : Nat} {k : Fin (replicas + 1)}
      (outAfter : (next.flights other).Out diskbackup (s.calls other) k) :
      (s.flights other).Out diskbackup (s.calls other) k ∧
        (s.calls other).ctx k ∉ back.map (s.calls item).ctx := by
    rcases eq_or_ne other item with rfl | different
    · rw [flightItem] at outAfter
      refine ⟨more k outAfter, ?_⟩
      intro member
      obtain ⟨j, replica, same⟩ := List.mem_map.mp member
      rcases eq_or_ne j k with rfl | apart
      · exact notOut j replica outAfter
      · exact tracks.ctx_ne (out j replica) (more k outAfter)
          (fun equal => apart (Prod.mk.inj equal).2) same
    · rw [flightOther different] at outAfter
      refine ⟨outAfter, ?_⟩
      intro member
      obtain ⟨j, replica, same⟩ := List.mem_map.mp member
      exact tracks.ctx_ne (out j replica) outAfter
        (fun equal => different (Prod.mk.inj equal).1.symm) same
  refine ⟨?_, ?_, ?_, ?_, ?_, ?_, ?_, writesNodup, ?_, biosNodup⟩
  · intro other
    rw [handles.calls]
    rcases eq_or_ne other item with rfl | different
    · rw [flightItem]
      exact tracked
    · rw [flightOther different]
      exact tracks.tracked other
  · intro other unused
    rw [handles.nextItem] at unused
    rw [handles.calls]
    exact tracks.unused other unused
  · intro other used clear
    rcases eq_or_ne other item with rfl | different
    · rw [flightItem] at clear
      exact held clear
    · rw [flightOther different] at clear
      rw [handles.nextItem] at used
      obtain ⟨tmp, found, counted, there⟩ := tracks.held other used clear
      refine ⟨tmp, ?_, ?_, fun index member => handles.tree index (there index member)⟩
      · rw [handles.items other different]
        exact found
      · rw [flightOther different]
        exact counted
  · intro other k outAfter
    rw [handles.calls] at outAfter
    obtain ⟨before, notBack⟩ := outBefore outAfter
    have inUse := tracks.ctx other k before
    refine inUse.keep (by rw [handles.calls]) (by rw [handles.calls]) handles.capNr ?_
      (by rw [handles.takenBy]) (handles.ctxs _ notBack)
    rw [handles.freepool]
    intro member
    rcases List.mem_append.mp member with mine | free
    · exact notBack mine
    · exact inUse.out free
  · rw [handles.freepool]
    exact tracks.back_nodup nodup out
  · intro ctx member
    rw [handles.capNr]
    by_cases mine : ctx ∈ back.map (s.calls item).ctx
    · obtain ⟨j, replica, rfl⟩ := List.mem_map.mp mine
      exact ⟨(tracks.ctx item j (out j replica)).range, handles.cleared _ mine⟩
    · rw [handles.freepool] at member
      rw [handles.ctxs ctx mine]
      exact tracks.free ctx ((List.mem_append.mp member).resolve_left mine)
  · intro write
    rw [writes write, tracks.writes write, handles.calls]
    rcases eq_or_ne write.item item with same | different
    · rw [same, flightItem]
      constructor
      · rintro ⟨⟨here, posted, _⟩, clear⟩
        exact ⟨here, posted, clear rfl⟩
      · rintro ⟨here, posted, clear⟩
        refine ⟨⟨here, posted, ?_⟩, fun _ => clear⟩
        rw [← Bool.not_eq_true]
        intro done
        rw [grown write.replica done] at clear
        cases clear
    · rw [flightOther different]
      exact ⟨fun both => both.1, fun before => ⟨before, fun same => absurd same different⟩⟩
  · intro bio
    rw [bios bio, tracks.bios bio, handles.calls]
    rcases eq_or_ne bio.item item with same | different
    · rw [same, flightItem]
      constructor
      · rintro ⟨⟨here, queued, _⟩, clear⟩
        exact ⟨here, queued, clear rfl⟩
      · rintro ⟨here, queued, clear⟩
        refine ⟨⟨here, queued, ?_⟩, fun _ => clear⟩
        rw [← Bool.not_eq_true]
        intro done
        rw [grownDisk done] at clear
        cases clear
    · rw [flightOther different]
      exact ⟨fun both => both.1, fun before => ⟨before, fun same => absurd same different⟩⟩

/-! ## The completion of a write -/

theorem noteWrite_handles {write : PostedWrite replicas} {tmp : LocalPageList} {ctx : WriteCtx}
    {rb : Nat × Nat} :
    s.Handles (((s.noteWrite write).countUp write.item tmp).setBitmap ctx rb) write.item
      ((s.flights write.item).handle write.replica) [] :=
  ⟨rfl, rfl, rfl, rfl, rfl, fun _ different => Function.update_of_ne different _ _, rfl,
    fun _ _ => rfl, nofun, fun _ => id⟩

/-- The writes and the contexts after the completion of a write. -/
theorem Tracks.wrote (tracks : s.Tracks) {write : PostedWrite replicas} (member : write ∈ s.posted)
    (handles : s.Handles next write.item flight back)
    (handled : flight.handled =
      Function.update (s.flights write.item).handled write.replica true)
    (disk : flight.diskHandled = (s.flights write.item).diskHandled)
    (tracked : flight.Tracked diskbackup (s.calls write.item)) (nodup : back.Nodup)
    (out : ∀ j ∈ back, (s.flights write.item).Out diskbackup (s.calls write.item) j)
    (notOut : ∀ j ∈ back, ¬ flight.Out diskbackup (s.calls write.item) j)
    (held : flight.finished diskbackup = false → next.Held write.item)
    (posted : next.posted = s.posted.erase write) (bios : next.bios = s.bios) : next.Tracks := by
  obtain ⟨here, _, clear⟩ := (tracks.writes write).mp member
  have notFinished : (s.flights write.item).finished diskbackup = false :=
    Flight.not_finished_of_clear clear
  have done : flight.handled write.replica = true := by
    rw [handled]
    exact Function.update_self ..
  have before {k : Fin (replicas + 1)} (different : k ≠ write.replica) :
      flight.handled k = (s.flights write.item).handled k := by
    rw [handled]
    exact Function.update_of_ne different _ _
  refine tracks.handles handles tracked ?_ nodup out notOut notFinished held ?_ ?_ ?_ ?_ ?_ ?_
  · rintro k ⟨loaded, left⟩
    refine ⟨loaded, ?_⟩
    rcases eq_or_ne k 0 with rfl | notPrimary
    · rw [if_pos rfl]
      exact notFinished
    · rw [if_neg notPrimary] at left ⊢
      rcases eq_or_ne k write.replica with rfl | different
      · exact clear
      · rw [← before different]
        exact left
  · rw [posted]
    exact tracks.writesNodup.erase write
  · rw [bios]
    exact tracks.biosNodup
  · intro other
    rw [posted, tracks.writesNodup.mem_erase_iff]
    constructor
    · rintro ⟨different, under⟩
      refine ⟨under, fun same => ?_⟩
      obtain ⟨place, _, left⟩ := (tracks.writes other).mp under
      have apart : other.replica ≠ write.replica := by
        intro equal
        refine different (PostedWrite.ext ?_ same equal)
        rw [place, here, same, equal]
      rw [before apart, ← same]
      exact left
    · rintro ⟨under, left⟩
      refine ⟨?_, under⟩
      rintro rfl
      rw [left rfl] at done
      cases done
  · intro bio
    rw [bios, disk]
    refine ⟨fun under => ⟨under, fun same => ?_⟩, fun both => both.1⟩
    rw [← same]
    exact ((tracks.bios bio).mp under).2.2
  · intro k already
    rcases eq_or_ne k write.replica with rfl | different
    · exact done
    · rw [before different]
      exact already
  · rw [disk]
    exact id

/-- A completion of an item that is not finished is counted; `after` has then happened to it. -/
structure Counts (s mid : ReplicaWriter replicas diskbackup Data) (item : Nat)
    (tmp : LocalPageList) (after : Flight replicas) : Prop where
  handles : s.Handles mid item after []
  item : mid.items item = some { tmp with refCount := tmp.refCount + 1 }
  count : tmp.refCount + 1 = after.count
  there : ∀ index ∈ tmp.batchList, (s.store.gptPages index).isSome
  off : diskbackup = false → after.diskHandled = false
  notFreed : after.freed = 0
  notMarked : after.marked = 0
  notBack : after.putBack 0 = 0

variable {tmp : LocalPageList} {after : Flight replicas}

theorem Counts.last (counts : s.Counts mid item tmp after) :
    tmp.refCount + 1 ≥ completionsNeeded replicas diskbackup ↔
      after.finished diskbackup = true := by
  have atMost := Flight.count_le counts.off
  rw [← Flight.count_iff counts.off, counts.count]
  constructor
  · exact le_antisymm atMost
  · exact Eq.ge

/-- The item stays allocated while completions are missing. -/
theorem Counts.held (counts : s.Counts mid item tmp after)
    (handles : s.Handles next item flight back) (items : next.items = mid.items)
    (same : flight.count = after.count) : next.Held item := by
  refine ⟨{ tmp with refCount := tmp.refCount + 1 }, ?_, ?_,
    fun index member => handles.tree index (counts.there index member)⟩
  · rw [items]
    exact counts.item
  · rw [handles.flights, Function.update_self, same]
    exact counts.count

theorem Counts.finish (counts : s.Counts mid item tmp after) :
    ∃ next, mid.finishItem item tmp = .ok next ∧ s.Handles next item after.finish [] ∧
      next.posted = mid.posted ∧ next.bios = mid.bios :=
  finishItem_ok counts.handles fun index member =>
    counts.handles.tree index (counts.there index member)

/-- An item with all contexts and a completion missing is allocated and uses its primary
context. -/
theorem Tracks.missing (tracks : s.Tracks) (loaded : (s.calls item).loaded = replicas + 1)
    (notFinished : (s.flights item).finished diskbackup = false) :
    s.Held item ∧ (s.flights item).Out diskbackup (s.calls item) 0 := by
  have some_ : 0 < (s.calls item).loaded := by
    rw [loaded]
    exact Nat.succ_pos replicas
  exact ⟨tracks.held item (tracks.used some_) notFinished, some_, notFinished⟩

theorem Tracks.countsWrite (tracks : s.Tracks) {write : PostedWrite replicas}
    (ctx : WriteCtx) (rb : Nat × Nat)
    (clear : (s.flights write.item).handled write.replica = false)
    (counted : tmp.refCount = (s.flights write.item).count)
    (there : ∀ index ∈ tmp.batchList, (s.store.gptPages index).isSome) :
    s.Counts (((s.noteWrite write).countUp write.item tmp).setBitmap ctx rb) write.item tmp
      ((s.flights write.item).handle write.replica) := by
  have tracked := tracks.tracked write.item
  obtain ⟨freed, marked, primary⟩ := tracked.pending (Flight.not_finished_of_clear clear)
  refine ⟨noteWrite_handles, Function.update_self .., ?_, there, tracked.diskOff_handled, freed,
    marked, primary⟩
  rw [counted, Flight.count, Flight.count, Flight.handle, census_mark clear]
  exact Nat.add_right_comm _ _ _

/-- The handler of a write goes through, whichever completion of its item it is. -/
theorem Tracks.writeDone (tracks : s.Tracks) {write : PostedWrite replicas}
    (member : write ∈ s.posted) :
    ∃ next, (s.noteWrite write).writeDonePostwork write = .ok next ∧ next.Tracks := by
  obtain ⟨here, posted, clear⟩ := (tracks.writes write).mp member
  have notFinished : (s.flights write.item).finished diskbackup = false :=
    Flight.not_finished_of_clear clear
  have tracked := tracks.tracked write.item
  have loaded := tracked.loadedFirst (Or.inl (Nat.zero_lt_of_lt posted))
  obtain ⟨⟨tmp, found, counted, there⟩, outPrime⟩ := tracks.missing loaded notFinished
  have out : (s.flights write.item).Out diskbackup (s.calls write.item) write.replica := by
    rw [Flight.Out, clear, notFinished, ite_self, loaded]
    exact ⟨write.replica.isLt, rfl⟩
  have inUse := tracks.ctx write.item write.replica out
  obtain ⟨rb, block⟩ : ∃ rb, (s.ctxs write.ctx).rb = some rb := by
    rw [here]
    exact Option.isSome_iff_exists.mp (inUse.rb.trans (decide_eq_true posted))
  have sending : (s.ctxs write.ctx).sendingItem = some write.item := here ▸ inUse.sendingItem
  have index : (s.ctxs write.ctx).replicaIndex = write.replica.val := here ▸ inUse.replicaIndex
  have counts := tracks.countsWrite (s.ctxs write.ctx) rb clear counted there
  have runs : (s.noteWrite write).ctxs = s.ctxs ∧ (s.noteWrite write).items = s.items :=
    ⟨rfl, rfl⟩
  simp only [writeDonePostwork, runs, block, sending, found, index]
  generalize isMid : ((s.noteWrite write).countUp write.item tmp).setBitmap (s.ctxs write.ctx) rb =
    mid at counts
  have posted' : mid.posted = s.posted.erase write := by rw [← isMid]; rfl
  have bios' : mid.bios = s.bios := by rw [← isMid]; rfl
  have last := counts.last
  have handled : ((s.flights write.item).handle write.replica).handled write.replica = true :=
    Function.update_self ..
  cases finished : ((s.flights write.item).handle write.replica).finished diskbackup with
  | false =>
      have few : ¬ tmp.refCount + 1 ≥ completionsNeeded replicas diskbackup := by
        rw [last, finished]
        exact Bool.false_ne_true
      rw [if_neg few]
      rcases eq_or_ne write.replica 0 with primary | other
      · rw [if_pos ⟨congrArg Fin.val primary, Nat.lt_of_not_le few⟩]
        exact ⟨mid, rfl, tracks.wrote member counts.handles rfl rfl
          (tracked.handle_primary posted clear primary finished) List.nodup_nil nofun nofun
          (fun _ => counts.held counts.handles rfl rfl) posted' bios'⟩
      · rw [if_neg fun both => other (Fin.ext both.1), here]
        have single : ∀ k ∈ [write.replica], k = write.replica := fun k => List.mem_singleton.mp
        obtain ⟨next, released, handles, items, store, posted'', bios''⟩ :=
          releaseCtx_ok tracks counts.handles (List.nodup_singleton write.replica)
            (fun k member => single k member ▸ out)
        refine ⟨next, released, tracks.wrote member handles rfl rfl
          (tracked.handle_other posted clear other finished) (List.nodup_singleton _)
          (fun k member => single k member ▸ out) ?_ (fun _ => counts.held handles items rfl)
          (posted''.trans posted') (bios''.trans bios')⟩
        intro k member
        rw [single k member]
        exact Flight.not_out_of_handled other handled
  | true =>
      have enough : tmp.refCount + 1 ≥ completionsNeeded replicas diskbackup := last.mpr finished
      rw [if_neg fun both => absurd both.2 (Nat.not_lt_of_le enough), if_pos enough]
      obtain ⟨fin, finishes, handlesFin, postedFin, biosFin⟩ := counts.finish
      rcases eq_or_ne write.replica 0 with primary | other
      · obtain ⟨next, released, handles, items, store, posted'', bios''⟩ :=
          releaseCtx_ok tracks handlesFin (List.nodup_singleton write.replica)
            (fun k member => List.mem_singleton.mp member ▸ out)
        refine ⟨next, bind_eq_ok.mpr ⟨fin, finishes, ?_⟩, tracks.wrote member handles rfl rfl
          (tracked.handle_last_primary posted clear primary finished) (List.nodup_singleton _)
          (fun k member => List.mem_singleton.mp member ▸ out)
          (fun k _ => Flight.not_out_of_finished finished) ?_
          (posted''.trans (postedFin.trans posted')) (bios''.trans (biosFin.trans bios'))⟩
        · rw [if_neg (by rw [primary]; exact fun bad => bad rfl), here]
          exact released
        · intro notYet
          exact absurd (finished.symm.trans notYet) (by decide)
      · have prime : (s.ctxs write.ctx).primeCtx = some ((s.calls write.item).ctx 0) :=
          here ▸ inUse.primeCtx other
        have pair : [write.replica, 0].Nodup :=
          List.nodup_cons.mpr ⟨by simpa using other, List.nodup_singleton 0⟩
        have both : ∀ k ∈ [write.replica, 0],
            (s.flights write.item).Out diskbackup (s.calls write.item) k :=
          List.forall_mem_cons.mpr ⟨out, fun k member => List.mem_singleton.mp member ▸ outPrime⟩
        obtain ⟨mid', releasedPrime, handlesPrime, _, _, postedPrime, biosPrime⟩ :=
          releaseCtx_ok tracks handlesFin (List.nodup_singleton 0)
            (fun k member => List.mem_singleton.mp member ▸ outPrime)
        obtain ⟨next, released, handles, _, _, posted'', bios''⟩ :=
          releaseCtx_ok tracks handlesPrime pair both
        refine ⟨next, bind_eq_ok.mpr ⟨fin, finishes, ?_⟩, tracks.wrote member handles rfl rfl
          (tracked.handle_last_other posted clear other finished) pair both
          (fun k _ => Flight.not_out_of_finished finished) ?_
          (posted''.trans (postedPrime.trans (postedFin.trans posted')))
          (bios''.trans (biosPrime.trans (biosFin.trans bios')))⟩
        · have notZero : write.replica.val ≠ 0 := fun zero => other (Fin.ext zero)
          rw [if_pos notZero, prime]
          rw [← here] at released
          exact bind_eq_ok.mpr ⟨mid', releasedPrime, released⟩
        · intro notYet
          exact absurd (finished.symm.trans notYet) (by decide)

/-! ## The completion of a bio -/

theorem Tracks.countsBio (tracks : s.Tracks) {bio : QueuedBio} (member : bio ∈ s.bios)
    (notFinished : (s.flights bio.item).finished diskbackup = false)
    (counted : tmp.refCount = (s.flights bio.item).count)
    (there : ∀ index ∈ tmp.batchList, (s.store.gptPages index).isSome) :
    s.Counts ((s.noteBio bio).countUp bio.item tmp) bio.item tmp
      (s.flights bio.item).handleDisk := by
  obtain ⟨_, queued, clear⟩ := (tracks.bios bio).mp member
  have tracked := tracks.tracked bio.item
  obtain ⟨freed, marked, primary⟩ := tracked.pending notFinished
  refine ⟨⟨rfl, rfl, rfl, rfl, rfl, fun _ different => Function.update_of_ne different _ _, rfl,
    fun _ _ => rfl, nofun, fun _ => id⟩, Function.update_self .., ?_, there, ?_, freed, marked,
    primary⟩
  · rw [counted, Flight.count, Flight.count, Flight.handleDisk, clear]
    rfl
  · intro off
    have on := tracked.diskOff queued
    rw [off] at on
    cases on

/-- The writes and the contexts after the completion of a bio. -/
theorem Tracks.wroteDisk (tracks : s.Tracks) {bio : QueuedBio} (member : bio ∈ s.bios)
    (notFinished : (s.flights bio.item).finished diskbackup = false)
    (handles : s.Handles next bio.item flight back)
    (handled : flight.handled = (s.flights bio.item).handled) (disk : flight.diskHandled = true)
    (tracked : flight.Tracked diskbackup (s.calls bio.item)) (nodup : back.Nodup)
    (out : ∀ j ∈ back, (s.flights bio.item).Out diskbackup (s.calls bio.item) j)
    (notOut : ∀ j ∈ back, ¬ flight.Out diskbackup (s.calls bio.item) j)
    (held : flight.finished diskbackup = false → next.Held bio.item)
    (posted : next.posted = s.posted) (bios : next.bios = s.bios.erase bio) : next.Tracks := by
  obtain ⟨here, _, _⟩ := (tracks.bios bio).mp member
  refine tracks.handles handles tracked ?_ nodup out notOut notFinished held ?_ ?_ ?_ ?_ ?_ ?_
  · rintro k ⟨loaded, left⟩
    refine ⟨loaded, ?_⟩
    rw [handled] at left
    rcases eq_or_ne k 0 with rfl | notPrimary
    · rw [if_pos rfl]
      exact notFinished
    · rw [if_neg notPrimary] at left ⊢
      exact left
  · rw [posted]
    exact tracks.writesNodup
  · rw [bios]
    exact tracks.biosNodup.erase bio
  · intro write
    rw [posted, handled]
    refine ⟨fun under => ⟨under, fun same => ?_⟩, fun both => both.1⟩
    rw [← same]
    exact ((tracks.writes write).mp under).2.2
  · intro other
    rw [bios, tracks.biosNodup.mem_erase_iff]
    constructor
    · rintro ⟨different, under⟩
      refine ⟨under, fun same => absurd (QueuedBio.ext ?_ same) different⟩
      rw [((tracks.bios other).mp under).1, here, same]
    · rintro ⟨under, left⟩
      refine ⟨?_, under⟩
      rintro rfl
      rw [left rfl] at disk
      cases disk
  · rw [handled]
    exact fun _ => id
  · exact fun _ => disk

/-- The item of a bio that is not back is not finished. -/
theorem Tracks.pendingBio (tracks : s.Tracks) {bio : QueuedBio} (member : bio ∈ s.bios) :
    (s.flights bio.item).finished diskbackup = false := by
  obtain ⟨-, queued, clear⟩ := (tracks.bios bio).mp member
  rw [← Bool.not_eq_true, Flight.finished_iff]
  intro all
  rw [all.2 ((tracks.tracked bio.item).diskOff queued)] at clear
  cases clear

/-- The handler of a bio goes through once the write to the primary was posted. -/
theorem Tracks.diskDone (tracks : s.Tracks) {bio : QueuedBio} (member : bio ∈ s.bios)
    (onTime : 0 < (s.calls bio.item).posted) :
    ∃ next, (s.noteBio bio).stackbdEndIoPostwork bio = .ok next ∧ next.Tracks := by
  obtain ⟨here, queued, -⟩ := (tracks.bios bio).mp member
  have tracked := tracks.tracked bio.item
  have notFinished := tracks.pendingBio member
  obtain ⟨⟨tmp, found, counted, there⟩, out⟩ :=
    tracks.missing (tracked.loadedFirst (Or.inl onTime)) notFinished
  have inUse := tracks.ctx bio.item 0 out
  obtain ⟨rb, block⟩ : ∃ rb, (s.ctxs bio.ctx).rb = some rb := by
    rw [here]
    exact Option.isSome_iff_exists.mp (inUse.rb.trans (decide_eq_true onTime))
  have sending : (s.ctxs bio.ctx).sendingItem = some bio.item := here ▸ inUse.sendingItem
  have counts := tracks.countsBio member notFinished counted there
  have runs : (s.noteBio bio).ctxs = s.ctxs ∧ (s.noteBio bio).items = s.items := ⟨rfl, rfl⟩
  simp only [stackbdEndIoPostwork, runs, block, sending, found]
  generalize isMid : (s.noteBio bio).countUp bio.item tmp = mid at counts
  have posted' : mid.posted = s.posted := by rw [← isMid]; rfl
  have bios' : mid.bios = s.bios.erase bio := by rw [← isMid]; rfl
  have last := counts.last
  cases finished : (s.flights bio.item).handleDisk.finished diskbackup with
  | false =>
      have few : ¬ tmp.refCount + 1 ≥ completionsNeeded replicas diskbackup := by
        rw [last, finished]
        exact Bool.false_ne_true
      rw [if_pos (Nat.lt_of_not_le few)]
      exact ⟨mid, rfl, tracks.wroteDisk member notFinished counts.handles rfl rfl
        (tracked.handleDisk ⟨onTime, queued⟩ notFinished finished) List.nodup_nil nofun nofun
        (fun _ => counts.held counts.handles rfl rfl) posted' bios'⟩
  | true =>
      have enough : tmp.refCount + 1 ≥ completionsNeeded replicas diskbackup := last.mpr finished
      rw [if_neg (Nat.not_lt_of_le enough)]
      obtain ⟨fin, finishes, handlesFin, postedFin, biosFin⟩ := counts.finish
      have single : ∀ k ∈ [0], (s.flights bio.item).Out diskbackup (s.calls bio.item) k :=
        fun k member => List.mem_singleton.mp member ▸ out
      obtain ⟨next, released, handles, _, _, posted'', bios''⟩ :=
        releaseCtx_ok tracks handlesFin (List.nodup_singleton 0) single
      rw [← here] at released
      refine ⟨next, bind_eq_ok.mpr ⟨fin, finishes, released⟩,
        tracks.wroteDisk member notFinished handles rfl rfl
          (tracked.handleDisk_last ⟨onTime, queued⟩ notFinished finished) (List.nodup_singleton 0)
          single (fun k _ => Flight.not_out_of_finished finished) ?_
          (posted''.trans (postedFin.trans posted')) (bios''.trans (biosFin.trans bios'))⟩
      intro notYet
      exact absurd (finished.symm.trans notYet) (by decide)

end ReplicaWriter

end Valet.Bd
