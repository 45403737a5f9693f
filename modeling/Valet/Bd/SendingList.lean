import Valet.Bd.AlfQueue
import Valet.Library.Fifo
import Mathlib.Data.List.Induction

/-!
# The sending list

`put_sending_index` and `get_sending_index` on the list that `mempool_init`
allocates, against the bounded FIFO of `max_pool_pages` values.  The mask of the
list is `max_pool_pages - 1`, which is not one less than a power of two, so that
outstanding positions can share a cell.
-/

namespace Valet.Bd

open Valet.Library AlfQueue

variable {α : Type}

namespace AlfQueue

/-- No other outstanding element is in the cell of the next position. -/
def TakesFreeCell (q : AlfQueue α) (ptr : α) : Prop :=
  ∀ offset, offset < q.alfQueueCount →
    q.slot (q.consumer.head + offset) = q.slot (q.consumer.head + q.alfQueueCount) →
      q.ring (q.slot (q.consumer.head + q.alfQueueCount)) = some ptr

/-- An enqueue appends exactly when it takes a free cell. -/
theorem Sound.contents_enqueue_iff {q next : AlfQueue α} {ptr : α} (sound : q.Sound)
    (put : q.alfMpEnqueue ptr = some next) :
    next.contents = q.contents ++ [ptr] ↔ q.TakesFreeCell ptr := by
  obtain ⟨consumer, size, mask, tail, range, count, countLe, ring⟩ := sound.enqueue_spec put
  have slots : next.slot = q.slot := by
    funext position
    rw [slot, slot, mask]
  have held : next.held = window next.ring q.slot q.consumer.head q.alfQueueCount ++
      [some ptr] := by
    rw [AlfQueue.held, count, consumer, slots, window_succ_last, ring, Function.update_self]
  have same : next.contents = q.contents ++ [ptr] ↔
      window next.ring q.slot q.consumer.head q.alfQueueCount =
        window q.ring q.slot q.consumer.head q.alfQueueCount := by
    rw [← (List.map_injective_iff.mpr (Option.some_injective α)).eq_iff, List.map_append,
      ← (sound.enqueue put).held_eq, ← sound.held_eq, held]
    exact List.append_left_inj _
  rw [same, ring, window_update_eq_iff]
  rfl

/-- Within the reach of the ring the next cell is free. -/
theorem Ready.takesFreeCell {q : AlfQueue α} (ready : q.Ready)
    (few : q.alfQueueCount < ringReach) (ptr : α) : q.TakesFreeCell ptr := by
  have reach : ringReach = 2 ^ 18 := by decide
  have lowBits := ready.lowBits
  rw [reach] at few lowBits
  intro offset bound same
  exact absurd same (q.slot_ne_of_close (by decide) lowBits bound few)

/-- The ring of `max_pool_pages` cells has no more than this many. -/
theorem enqueue_full {q : AlfQueue α} (sound : q.Sound) (full : ¬ q.alfQueueCount < q.size)
    (ptr : α) : q.alfMpEnqueue ptr = none := by
  cases put : q.alfMpEnqueue ptr with
  | none => rfl
  | some next =>
      obtain ⟨_, _, _, _, _, count, countLe, _⟩ := sound.enqueue_spec put
      omega

end AlfQueue

/-- The part of `valet_page_pool` that the two calls use. -/
structure ValetPagePool (α : Type) where
  initDone : Bool
  sendingList : AlfQueue α

namespace ValetPagePool

/-- `mempool_init`. -/
def mempoolInit : ValetPagePool α where
  initDone := true
  sendingList := alfQueueAlloc maxPoolPages

/-- The flag is the error return. -/
def putSendingIndex (pool : ValetPagePool α) (tmp : α) : Bool × ValetPagePool α :=
  match pool.sendingList.alfMpEnqueue tmp with
  | none => (true, pool)
  | some queue => (false, { pool with sendingList := queue })

/-- `none` stands for the error return. -/
def getSendingIndex (pool : ValetPagePool α) : Option (Option α) × ValetPagePool α :=
  if pool.initDone = false then
    (none, pool)
  else if pool.sendingList.alfQueueEmpty then
    (none, pool)
  else
    match pool.sendingList.alfMcDequeue with
    | none => (none, pool)
    | some (ptr, queue) => (some ptr, { pool with sendingList := queue })

/-- The two calls, with their answers. -/
def respond (pool : ValetPagePool α) : QueueCall α → QueueAnswer α × ValetPagePool α
  | .put tmp =>
      match pool.putSendingIndex tmp with
      | (true, next) => (.full, next)
      | (false, next) => (.stored, next)
  | .get =>
      match pool.getSendingIndex with
      | (none, next) => (.empty, next)
      | (some ptr, next) => (.got ptr, next)

/-- The pool once `mempool_init` is through. -/
structure Serving (pool : ValetPagePool α) : Prop where
  initDone : pool.initDone = true
  ready : pool.sendingList.Ready
  size : pool.sendingList.size = maxPoolPages

/-- What the list hands out from here on, oldest first. -/
def contents (pool : ValetPagePool α) : List α := pool.sendingList.contents

variable {pool : ValetPagePool α}

theorem serving_init : (mempoolInit : ValetPagePool α).Serving := ⟨rfl, ready_alloc, rfl⟩

theorem contents_init : (mempoolInit : ValetPagePool α).contents = [] :=
  contents_alloc maxPoolPages

theorem Serving.contents_length (serving : pool.Serving) :
    pool.contents.length = pool.sendingList.alfQueueCount :=
  serving.ready.sound.contents_length

/-- A `get` answers as the FIFO does, whatever cells the puts took. -/
theorem Serving.respond_get (serving : pool.Serving) :
    (pool.respond .get).2.Serving ∧
      Fifo.respond maxPoolPages pool.contents .get =
        ((pool.respond .get).1, (pool.respond .get).2.contents) := by
  have ready := serving.ready
  cases got : pool.sendingList.alfMcDequeue with
  | none =>
      have nothing : pool.contents = [] := ready.sound.dequeue_none.mp got
      have empty : pool.sendingList.alfQueueEmpty = true :=
        ready.sound.alfQueueEmpty_iff.mpr nothing
      have answer : pool.respond .get = (.empty, pool) := by
        simp only [respond, getSendingIndex, empty, if_true, ite_self]
      rw [answer, nothing]
      exact ⟨serving, rfl⟩
  | some found =>
      obtain ⟨ptr, queue⟩ := found
      obtain ⟨nextReady, value, rfl, split⟩ := ready.dequeue got
      have size := (ready.sound.dequeue got).2.2.1
      have filled : ¬ pool.sendingList.alfQueueEmpty = true := by
        rw [ready.sound.alfQueueEmpty_iff, split]
        exact List.cons_ne_nil _ _
      have answer : pool.respond .get =
          (.got (some value), { pool with sendingList := queue }) := by
        simp only [respond, getSendingIndex, serving.initDone, filled, got]
        rfl
      rw [answer]
      constructor
      · exact ⟨serving.initDone, nextReady, size.trans serving.size⟩
      · rw [contents, split]
        rfl

/-- What `get_sending_index` does, in terms of the contents. -/
theorem Serving.getSendingIndex_nil (serving : pool.Serving) (nothing : pool.contents = []) :
    ∃ next, pool.getSendingIndex = (none, next) ∧ next.Serving ∧ next.contents = [] := by
  obtain ⟨nextServing, same⟩ := serving.respond_get
  rw [nothing] at same
  rcases got : pool.getSendingIndex with ⟨ptr, next⟩
  cases ptr with
  | none =>
      have answer : pool.respond .get = (.empty, next) := by
        simp only [ValetPagePool.respond, got]
      rw [answer] at nextServing same
      exact ⟨next, rfl, nextServing, (congrArg Prod.snd same).symm⟩
  | some cell =>
      have answer : pool.respond .get = (.got cell, next) := by
        simp only [ValetPagePool.respond, got]
      rw [answer] at same
      cases same

theorem Serving.getSendingIndex_cons (serving : pool.Serving) {tmp : α} {rest : List α}
    (contents : pool.contents = tmp :: rest) :
    ∃ next, pool.getSendingIndex = (some (some tmp), next) ∧ next.Serving ∧
      next.contents = rest := by
  obtain ⟨nextServing, same⟩ := serving.respond_get
  rw [contents] at same
  rcases got : pool.getSendingIndex with ⟨ptr, next⟩
  cases ptr with
  | none =>
      have answer : pool.respond .get = (.empty, next) := by
        simp only [ValetPagePool.respond, got]
      rw [answer] at same
      cases same
  | some cell =>
      have answer : pool.respond .get = (.got cell, next) := by
        simp only [ValetPagePool.respond, got]
      rw [answer] at nextServing same
      obtain ⟨head, tail⟩ := Prod.mk.inj same
      cases head
      exact ⟨next, rfl, nextServing, tail.symm⟩

/-- A `put` fails exactly when the FIFO is full; otherwise it appends exactly when it takes a
free cell. -/
theorem Serving.respond_put (serving : pool.Serving) (tmp : α) :
    (pool.respond (.put tmp)).2.Serving ∧
      (pool.respond (.put tmp)).1 = (Fifo.respond maxPoolPages pool.contents (.put tmp)).1 ∧
        ((pool.respond (.put tmp)).2.contents =
            (Fifo.respond maxPoolPages pool.contents (.put tmp)).2 ↔
          (pool.contents.length < maxPoolPages → pool.sendingList.TakesFreeCell tmp)) := by
  have ready := serving.ready
  have length := serving.contents_length
  by_cases room : pool.contents.length < maxPoolPages
  · have below : pool.sendingList.alfQueueCount < pool.sendingList.size := by
      rw [← length, serving.size]
      exact room
    obtain ⟨queue, put⟩ := ready.sound.enqueue_isSome tmp below
    have size := (ready.sound.enqueue_spec put).2.1
    have answer : pool.respond (.put tmp) = (.stored, { pool with sendingList := queue }) := by
      simp only [respond, putSendingIndex, put]
    rw [answer, Fifo.respond_put_room room]
    refine ⟨⟨serving.initDone, ready.enqueue put, size.trans serving.size⟩, rfl, ?_⟩
    have appends := ready.sound.contents_enqueue_iff put
    exact appends.trans ⟨fun free _ => free, fun free => free room⟩
  · have full : ¬ pool.sendingList.alfQueueCount < pool.sendingList.size := by
      rw [← length, serving.size]
      exact room
    have put := enqueue_full ready.sound full tmp
    have answer : pool.respond (.put tmp) = (.full, pool) := by
      simp only [respond, putSendingIndex, put]
    rw [answer, Fifo.respond_put_full room]
    exact ⟨serving, rfl, ⟨fun _ few => absurd few room, fun _ => rfl⟩⟩

/-- Within the reach of the ring a `put` appends. -/
theorem Serving.contents_put (serving : pool.Serving) (tmp : α)
    (room : pool.contents.length < ringReach) :
    (pool.respond (.put tmp)).1 = .stored ∧
      (pool.respond (.put tmp)).2.contents = pool.contents ++ [tmp] := by
  have below : pool.contents.length < maxPoolPages := lt_trans room (by decide)
  have free := serving.ready.takesFreeCell (by rwa [← serving.contents_length]) tmp
  obtain ⟨_, stored, appends⟩ := serving.respond_put tmp
  rw [Fifo.respond_put_room below] at stored appends
  exact ⟨stored, appends.mpr fun _ => free⟩

/-- Every `put` of the calls that finds room takes a free cell. -/
def TakesFreeCells (calls : List (QueueCall α)) : Prop :=
  ∀ done tmp, done ++ [.put tmp] <+: calls →
    let pool := afterCalls respond mempoolInit done
    pool.contents.length < maxPoolPages → pool.sendingList.TakesFreeCell tmp

/-- The list answers the calls as the FIFO of `max_pool_pages` values does. -/
def Agrees (calls : List (QueueCall α)) : Prop :=
  answers respond mempoolInit calls = answers (Fifo.respond maxPoolPages) [] calls

/-- The list agrees with the FIFO at every point of the calls, however far it is emptied
there. -/
def Lossless (calls : List (QueueCall α)) : Prop :=
  ∀ done, done <+: calls → ∀ count, Agrees (done ++ List.replicate count .get)

/-- What is left of the list agrees with what is left of the FIFO. -/
def Tracks (calls : List (QueueCall α)) : Prop :=
  (afterCalls respond (mempoolInit : ValetPagePool α) calls).contents =
    afterCalls (Fifo.respond maxPoolPages) [] calls

theorem serving_after (calls : List (QueueCall α)) :
    (afterCalls respond (mempoolInit : ValetPagePool α) calls).Serving := by
  induction calls using List.reverseRecOn with
  | nil => exact serving_init
  | append_singleton calls call ih =>
      rw [afterCalls_append]
      cases call with
      | put tmp => exact (ih.respond_put tmp).1
      | get => exact ih.respond_get.1

/-- Emptying a list answers what emptying the FIFO of its contents does. -/
theorem Serving.answers_drain (serving : pool.Serving) (count : Nat) :
    answers respond pool (List.replicate count .get) =
      answers (Fifo.respond maxPoolPages) pool.contents (List.replicate count .get) := by
  apply answers_eq_of_related respond (Fifo.respond maxPoolPages)
    (fun pool values => pool.Serving ∧ pool.contents = values) (fun call => call = .get)
  · rintro pool values call ⟨serving, rfl⟩ rfl
    obtain ⟨next, same⟩ := serving.respond_get
    rw [same]
    exact ⟨rfl, next, rfl⟩
  · exact ⟨serving, rfl⟩
  · intro call member
    exact List.eq_of_mem_replicate member

/-- Agreement however far the list is emptied tells what it holds. -/
theorem tracks_of_agrees {calls : List (QueueCall α)}
    (agrees : ∀ count, Agrees (calls ++ List.replicate count .get)) : Tracks calls := by
  apply Fifo.eq_of_drains maxPoolPages
  intro count
  rw [← (serving_after calls).answers_drain]
  exact answers_append_eq (agrees count)

theorem Tracks.put_iff {calls : List (QueueCall α)} (tracks : Tracks calls) (tmp : α) :
    Tracks (calls ++ [.put tmp]) ↔
      let pool := afterCalls respond mempoolInit calls
      pool.contents.length < maxPoolPages → pool.sendingList.TakesFreeCell tmp := by
  obtain ⟨_, _, appends⟩ := (serving_after calls).respond_put tmp
  rw [Tracks, afterCalls_append, afterCalls_append, ← tracks]
  exact appends

theorem Tracks.get {calls : List (QueueCall α)} (tracks : Tracks calls) :
    Tracks (calls ++ [.get]) := by
  have same := (serving_after calls).respond_get.2
  rw [Tracks, afterCalls_append, afterCalls_append, ← tracks]
  simp only [afterCalls, same]

/-- Where every `put` takes a free cell the contents are those of the FIFO. -/
theorem tracks_of_takesFreeCells {calls : List (QueueCall α)} (free : TakesFreeCells calls) :
    Tracks calls := by
  induction calls using List.reverseRecOn with
  | nil => exact contents_init
  | append_singleton calls call ih =>
      have tracks : Tracks calls :=
        ih fun done tmp before => free done tmp (before.trans (List.prefix_append _ _))
      cases call with
      | put tmp => exact (tracks.put_iff tmp).mpr (free calls tmp List.prefix_rfl)
      | get => exact tracks.get

theorem agrees_of_takesFreeCells {calls : List (QueueCall α)} (free : TakesFreeCells calls) :
    Agrees calls := by
  induction calls using List.reverseRecOn with
  | nil => rfl
  | append_singleton calls call ih =>
      have freeBefore : TakesFreeCells calls :=
        fun done tmp before => free done tmp (before.trans (List.prefix_append _ _))
      have tracks := tracks_of_takesFreeCells freeBefore
      have serving := serving_after calls
      have answer : (respond (afterCalls respond mempoolInit calls) call).1 =
          (Fifo.respond maxPoolPages (afterCalls (Fifo.respond maxPoolPages) [] calls) call).1 := by
        rw [← tracks]
        cases call with
        | put tmp => exact (serving.respond_put tmp).2.1
        | get => rw [serving.respond_get.2]
      rw [Agrees, answers_append, answers_append, ih freeBefore]
      simp only [answers, answer]

/-- Taking things out needs no cell. -/
theorem TakesFreeCells.drain {calls : List (QueueCall α)} (free : TakesFreeCells calls)
    (count : Nat) : TakesFreeCells (calls ++ List.replicate count .get) := by
  induction count with
  | zero => simpa using free
  | succ count ih =>
      intro done tmp before
      rw [List.replicate_succ', ← List.append_assoc, List.prefix_concat_iff] at before
      rcases before with same | before
      · have last := List.append_inj_right' same rfl
        cases last
      · exact ih done tmp before

/-- The sending list is the FIFO of `max_pool_pages` values exactly as long as every `put` that
finds room takes a free cell. -/
theorem lossless_iff (calls : List (QueueCall α)) : Lossless calls ↔ TakesFreeCells calls := by
  constructor
  · intro lossless done tmp before
    have tracks : Tracks done :=
      tracks_of_agrees (lossless done ((List.prefix_append _ _).trans before))
    have next : Tracks (done ++ [.put tmp]) := tracks_of_agrees (lossless _ before)
    exact (tracks.put_iff tmp).mp next
  · intro free done before count
    have freeBefore : TakesFreeCells done :=
      fun earlier tmp prior => free earlier tmp (prior.trans before)
    exact agrees_of_takesFreeCells (freeBefore.drain count)

/-- While at most 262144 items are outstanding nothing is lost. -/
theorem takesFreeCells_of_few {calls : List (QueueCall α)}
    (few : ∀ done tmp, done ++ [.put tmp] <+: calls →
      (afterCalls respond (mempoolInit : ValetPagePool α) done).contents.length < ringReach) :
    TakesFreeCells calls := by
  intro done tmp before pool _
  have serving := serving_after (α := α) done
  apply serving.ready.takesFreeCell
  rw [← serving.contents_length]
  exact few done tmp before

theorem respond_put_consumer (pool : ValetPagePool α) (tmp : α) :
    (pool.respond (.put tmp)).2.sendingList.consumer = pool.sendingList.consumer ∧
      (pool.respond (.put tmp)).2.sendingList.mask = pool.sendingList.mask := by
  cases put : pool.sendingList.alfMpEnqueue tmp with
  | none =>
      simp only [respond, putSendingIndex, put]
      exact ⟨trivial, trivial⟩
  | some queue =>
      simp only [respond, putSendingIndex, put]
      unfold alfMpEnqueue at put
      dsimp only at put
      split at put
      · cases put
      · cases put
        exact ⟨rfl, rfl⟩

/-- As many puts, one after the other, of different items. -/
def puts (count : Nat) : List (QueueCall Nat) := (List.range count).map .put

theorem puts_succ (count : Nat) : puts (count + 1) = puts count ++ [.put count] := by
  rw [puts, List.range_succ, List.map_append, puts]
  rfl

theorem fifo_puts {count : Nat} (room : count ≤ maxPoolPages) :
    afterCalls (Fifo.respond maxPoolPages) [] (puts count) = List.range count := by
  induction count with
  | zero => rfl
  | succ count ih =>
      have below : (List.range count).length < maxPoolPages := by
        rw [List.length_range]
        exact room
      rw [puts_succ, afterCalls_append, ih (Nat.le_of_succ_le room), List.range_succ]
      exact congrArg Prod.snd (Fifo.respond_put_room below count)

theorem consumer_puts (count : Nat) :
    (afterCalls respond mempoolInit (puts count)).sendingList.consumer = ⟨0, 0⟩ ∧
      (afterCalls respond mempoolInit (puts count)).sendingList.mask = sub32 maxPoolPages 1 := by
  induction count with
  | zero => exact ⟨rfl, rfl⟩
  | succ count ih =>
      obtain ⟨consumer, mask⟩ :=
        respond_put_consumer (afterCalls respond mempoolInit (puts count)) count
      rw [puts_succ, afterCalls_append]
      exact ⟨consumer.trans ih.1, mask.trans ih.2⟩

/-- A position with the cell of position 0 overwrites the oldest item. -/
theorem puts_overwrite {reach : Nat} (positive : 0 < reach) (room : reach < maxPoolPages)
    (cell : reach % u32Range &&& sub32 maxPoolPages 1 = 0) (tracks : Tracks (puts reach)) :
    ¬ Tracks (puts reach ++ [.put reach]) := by
  intro next
  have free := (tracks.put_iff reach).mp next
  obtain ⟨consumer, mask⟩ := consumer_puts reach
  have serving := serving_after (puts reach)
  rw [Tracks, fifo_puts (Nat.le_of_lt room)] at tracks
  generalize afterCalls respond mempoolInit (puts reach) = pool at *
  have count : pool.sendingList.alfQueueCount = reach := by
    rw [← serving.contents_length, tracks, List.length_range]
  have below : pool.contents.length < maxPoolPages := by
    rw [tracks, List.length_range]
    exact room
  have first : pool.sendingList.slot 0 = 0 := Nat.zero_and _
  have again : pool.sendingList.slot reach = 0 := by
    rw [slot, mask]
    exact cell
  have overwritten : pool.sendingList.ring 0 = some reach := by
    have taken := free below 0 (by rw [count]; exact positive)
    rw [consumer, count, Nat.zero_add, Nat.zero_add, first, again] at taken
    exact taken rfl
  have oldest : pool.sendingList.ring 0 = some 0 := by
    have held := serving.ready.sound.held_eq
    obtain ⟨later, rfl⟩ := Nat.exists_eq_succ_of_ne_zero (Nat.ne_of_gt positive)
    rw [AlfQueue.held, count, consumer, window, first, ← contents, tracks, List.range_succ_eq_map] at held
    exact (List.cons.inj held).1
  rw [oldest] at overwritten
  have same := Option.some.inj overwritten
  omega

/-- The item behind 262144 others takes the cell of the first of them. -/
theorem sendingList_loses : ¬ ∀ calls : List (QueueCall Nat), Agrees calls := by
  intro claim
  exact puts_overwrite (show 0 < ringReach by decide) (by decide) (by decide)
    (tracks_of_agrees fun _ => claim _) (tracks_of_agrees fun _ => claim _)

end ValetPagePool

end Valet.Bd
