import Valet.Bd.ConcurrentSteps

/-!
# The queue is a FIFO for concurrent callers

Whatever the interleaving, the elements come out in the order in which the
enqueues returned, none is lost and none comes out twice, and a queue that no
call is using is in a state of the sequential model.
-/

namespace Valet.Bd

open Valet.Library

/-- A window whose cells hold a slice of a list. -/
theorem window_eq_slice {α : Type} {ring : Nat → Option α} {slot : Nat → Nat} {values : List α}
    {position start count : Nat} (inside : start + count ≤ values.length)
    (holds : ∀ k, k < count → ring (slot (position + k)) = values[start + k]?) :
    window ring slot position count = (slice values start count).map some := by
  induction count with
  | zero => rw [window_zero, slice_zero, List.map_nil]
  | succ count ih =>
      have front := ih (by omega) fun k bound => holds k (Nat.lt_succ_of_lt bound)
      rw [window_succ_last, front, slice_succ (by omega), List.map_append,
        holds count (Nat.lt_succ_self _), List.getElem?_eq_getElem (by omega)]
      rfl

namespace AlfWatched

variable {Cpu α : Type} {x : AlfWatched Cpu α} {bits bulk : Nat} {cpu : Cpu}

/-- What a caller may rely on. -/
structure InOrder (x : AlfWatched Cpu α) : Prop where
  /-- what the dequeues returned is what the enqueues put in, oldest first -/
  prefix_ : x.2.dequeued <+: x.2.enqueued.map some
  bounded : x.2.enqueued.length ≤ x.2.dequeued.length + x.1.q.size
  /-- between the calls the rest is in the queue -/
  quiet : (∀ cpu, x.1.call cpu = .idle) →
    x.1.q.Sound ∧ x.2.enqueued.map some = x.2.dequeued ++ x.1.q.contents.map some

theorem Sound.no_producers (sound : x.Sound bits bulk)
    (none_ : ∀ cpu, (x.1.call cpu).storing = false) : x.2.producers = [] := by
  rw [List.eq_nil_iff_forall_not_mem]
  intro ticket member
  have stores := sound.producers ticket member
  rw [none_ ticket.owner] at stores
  exact Bool.false_ne_true stores

theorem Sound.no_consumers (sound : x.Sound bits bulk)
    (none_ : ∀ cpu, (x.1.call cpu).loading = false) : x.2.consumers = [] := by
  rw [List.eq_nil_iff_forall_not_mem]
  intro ticket member
  have loads := sound.consumers ticket member
  rw [none_ ticket.owner] at loads
  exact Bool.false_ne_true loads

theorem Sound.inOrder (sound : x.Sound bits bulk) : x.InOrder := by
  have tracks := sound.tracks
  have released := tracks.releasedLe
  have claimed := tracks.claimedLe
  have published := tracks.publishedLe
  have capacity := tracks.capacity
  have small := tracks.ring.sizeRange
  have delivered : x.2.enqueued.map some =
      x.2.dequeued ++ (slice x.2.reserved x.2.dequeued.length
        (x.2.enqueued.length - x.2.dequeued.length)).map some := by
    have parts : x.2.reserved.take x.2.dequeued.length ++ slice x.2.reserved x.2.dequeued.length
        (x.2.enqueued.length - x.2.dequeued.length) =
          x.2.reserved.take (x.2.dequeued.length +
            (x.2.enqueued.length - x.2.dequeued.length)) := take_append_slice
    rw [Nat.add_sub_cancel' (by omega), ← tracks.enqueued] at parts
    have mapped := congrArg (List.map some) parts
    rw [List.map_append, ← tracks.dequeued] at mapped
    exact mapped.symm
  refine ⟨⟨_, delivered.symm⟩, by omega, ?_⟩
  intro idle
  have noProducers := sound.no_producers fun cpu => by rw [idle cpu]; rfl
  have noConsumers := sound.no_consumers fun cpu => by rw [idle cpu]; rfl
  have allPublished : x.2.enqueued.length = x.2.reserved.length := by
    have tiles := tracks.producing
    rw [noProducers] at tiles
    exact tiles
  have allReleased : x.2.dequeued.length = x.2.claimed := by
    have tiles := tracks.consuming
    rw [noConsumers] at tiles
    exact tiles
  have count : x.1.q.alfQueueCount = x.2.enqueued.length - x.2.dequeued.length := by
    rw [AlfQueue.alfQueueCount, tracks.producerTail, tracks.consumerHead,
      sub32_elems claimed (by omega), allReleased]
  have held : x.1.q.held = (slice x.2.reserved x.2.dequeued.length
      (x.2.enqueued.length - x.2.dequeued.length)).map some := by
    rw [AlfQueue.held, count]
    apply window_eq_slice (by omega)
    intro k bound
    rw [tracks.consumerHead, x.1.q.slot_mod_add, ← allReleased]
    exact tracks.filled _ (Nat.le_add_right _ _) (by omega)
  have sequential : x.1.q.Sound := by
    refine ⟨?_, ?_, ?_, ?_, small, ?_, ?_⟩
    · rw [tracks.producerTail, tracks.producerHead, allPublished]
    · rw [tracks.consumerTail, tracks.consumerHead, allReleased]
    · rw [tracks.producerHead]
      exact Nat.mod_lt _ (by decide)
    · rw [tracks.consumerHead]
      exact Nat.mod_lt _ (by decide)
    · rw [count]
      omega
    · intro cell member
      rw [held] at member
      obtain ⟨value, _, rfl⟩ := List.mem_map.mp member
      rfl
  refine ⟨sequential, ?_⟩
  rw [delivered, ← held, sequential.held_eq]

theorem sound_start {size : Nat} (ring : (alfQueueAlloc size : AlfQueue α).Regular bits bulk) :
    (start size : AlfWatched Cpu α).Sound bits bulk where
  tracks := {
    ring := ring
    producerHead := rfl
    producerTail := rfl
    consumerHead := rfl
    consumerTail := rfl
    producing := rfl
    consuming := rfl
    producerOwners := List.nodup_nil
    consumerOwners := List.nodup_nil
    claimedLe := Nat.le_refl _
    capacity := Nat.zero_le _
    reach := Nat.zero_le _
    enqueued := rfl
    dequeued := rfl
    filled := fun _ _ high => absurd high (Nat.not_lt_zero _) }
  facts := fun _ => trivial
  producers := fun _ member => absurd member List.not_mem_nil
  consumers := fun _ member => absurd member List.not_mem_nil
  producerAlone := fun _ _ onSide => absurd onSide Bool.false_ne_true
  consumerAlone := fun _ _ onSide => absurd onSide Bool.false_ne_true

/-- Why a call does not get its positions in this step: an enqueue that returns 0 found fewer free
cells than its bulk has elements, a dequeue that returns 0 found every published element claimed,
and a `cmpxchg` that fails was overtaken.  The differences that the calls compute are `u32`, so
that an answer counts only while the head it was computed from is less than `2 ^ 32` behind. -/
def Explained (x : AlfWatched Cpu α) (cpu : Cpu) : Prop :=
  match x.1.call cpu with
  | .enqTail _ ptr _ =>
      x.2.reserved.length + x.1.q.size < x.2.seen cpu + u32Range →
        ((x.1.call cpu).advance x.1.q).2 = .idle →
          x.2.dequeued.length + x.1.q.size < x.2.reserved.length + ptr.length
  | .enqSwap single ptr _ _ =>
      ((x.1.call cpu).advance x.1.q).2 = .enqHead single ptr →
        x.2.seen cpu < x.2.reserved.length
  | .deqTail .. =>
      x.2.enqueued.length < x.2.seen cpu + u32Range →
        ((x.1.call cpu).advance x.1.q).2 = .idle → x.2.claimed = x.2.enqueued.length
  | .deqSwap single n _ _ _ =>
      ((x.1.call cpu).advance x.1.q).2 = .deqHead single n → x.2.seen cpu < x.2.claimed
  | _ => True

theorem Sound.explained (sound : x.Sound bits bulk) (cpu : Cpu) : x.Explained cpu := by
  have tracks := sound.tracks
  have released := tracks.releasedLe
  have claimed := tracks.claimedLe
  have published := tracks.publishedLe
  have capacity := tracks.capacity
  have small := tracks.ring.sizeRange
  unfold Explained
  split
  · rename_i single ptr pHead at_
    obtain ⟨some_, fits, read⟩ := sound.facts_at at_
    intro near gaveUp
    have seenLe := read.le
    rw [at_] at gaveUp
    unfold AlfCall.advance at gaveUp
    dsimp only at gaveUp
    split at gaveUp
    · rename_i full
      have space : sub32 (x.1.q.size + x.2.dequeued.length % u32Range)
          (x.2.seen cpu % u32Range) = x.1.q.size + x.2.dequeued.length - x.2.seen cpu := by
        unfold sub32 u32Range at *
        omega
      rw [read.value, tracks.consumerTail, space] at full
      omega
    · cases gaveUp
  · rename_i single ptr pHead pNext at_
    obtain ⟨some_, fits, read, isNext, room⟩ := sound.facts_at at_
    intro again
    rw [at_] at again
    unfold AlfCall.advance at again
    dsimp only at again
    split at again
    · cases again
    · rename_i fails
      refine Nat.lt_of_le_of_ne read.le ?_
      intro current
      refine fails (swaps_iff.mpr (Or.inr ?_))
      rw [tracks.producerHead, read.value, current]
  · rename_i single n cHead at_
    obtain ⟨some_, fits, read⟩ := sound.facts_at at_
    intro near gaveUp
    have seenLe := read.le
    rw [at_] at gaveUp
    unfold AlfCall.advance at gaveUp
    dsimp only at gaveUp
    split at gaveUp
    · rename_i none_
      rw [read.value, tracks.producerTail, sub32_elems (by omega) near] at none_
      omega
    · cases gaveUp
  · rename_i single n cHead cNext elems at_
    obtain ⟨someN, some_, few, read, isNext, room⟩ := sound.facts_at at_
    intro again
    rw [at_] at again
    unfold AlfCall.advance at again
    dsimp only at again
    split at again
    · cases again
    · rename_i fails
      refine Nat.lt_of_le_of_ne read.le ?_
      intro current
      refine fails (swaps_iff.mpr (Or.inr ?_))
      rw [tracks.consumerHead, read.value, current]
  · trivial

variable [DecidableEq Cpu]

/-- A reservation takes no more positions than the ring has distinct cells. -/
def Roomy (x : AlfWatched Cpu α) (reach : Nat) : AlfCall α → Prop
  | .enqSwap _ ptr _ _ => x.2.reserved.length + ptr.length ≤ x.2.dequeued.length + reach
  | _ => True

/-- What the ring asks of a step: bulks that go to it cell by cell, and no more positions out
than it has distinct cells. -/
def Fits (x : AlfWatched Cpu α) (bits bulk : Nat) : AlfEvent Cpu α → Prop
  | .enqueue _ _ ptr => ptr.length ≤ bulk ∨ x.1.q.size ≤ bulk
  | .dequeue _ _ n => n ≤ bulk ∨ x.1.q.size ≤ bulk
  | .run cpu => x.Roomy (2 ^ bits) (x.1.call cpu) ∨ x.1.q.size ≤ 2 ^ bits

theorem isIdle_iff {call : AlfCall α} : call.isIdle = true ↔ call = .idle := by
  cases call <;> simp [AlfCall.isIdle]

theorem Sound.begin (sound : x.Sound bits bulk) {nextCall : AlfCall α}
    (at_ : x.1.call cpu = .idle) (own : x.2.Facts x.1.q bulk cpu nextCall)
    (apartProducers : ApartOn AlfCall.enqueues x.1.call cpu nextCall)
    (apartConsumers : ApartOn AlfCall.dequeues x.1.call cpu nextCall) :
    Sound (x.1.goTo cpu x.1.q nextCall, x.2) bits bulk := by
  refine sound.goTo sound.tracks own (fun _ _ => .look rfl) (fun moved => absurd rfl moved)
    (fun moved => absurd rfl moved) apartProducers apartConsumers ?_ ?_
  · intro ticket member
    have stores := sound.producers ticket member
    split
    · rename_i owner
      rw [owner, at_] at stores
      exact absurd stores Bool.false_ne_true
    · exact member
  · intro ticket member
    have loads := sound.consumers ticket member
    split
    · rename_i owner
      rw [owner, at_] at loads
      exact absurd loads Bool.false_ne_true
    · exact member

theorem step_run {next : AlfWatched Cpu α} :
    x.step (.run cpu) = some next ↔ x.1.call cpu ≠ .idle ∧ x.after cpu = next := by
  unfold step watch AlfRace.step
  dsimp only
  by_cases idle : x.1.call cpu = .idle
  · rw [if_pos (isIdle_iff.mpr idle)]
    simp [idle]
  · rw [if_neg (fun is => idle (isIdle_iff.mp is))]
    simp only [ne_eq, idle, not_false_eq_true, true_and]
    exact Option.some_inj

/-- One step keeps the invariant. -/
theorem Sound.step (sound : x.Sound bits bulk) {event : AlfEvent Cpu α}
    {next : AlfWatched Cpu α} (promised : x.Promised event) (fits : x.Fits bits bulk event)
    (edge : x.step event = some next) : next.Sound bits bulk := by
  cases event with
  | enqueue cpu single ptr =>
      obtain ⟨some_, apart⟩ := promised
      unfold AlfWatched.step watch AlfRace.step at edge
      dsimp only at edge
      split at edge
      · rename_i idle
        cases edge
        refine sound.begin (isIdle_iff.mp idle) ⟨some_, fits⟩ ?_ nofun
        exact fun other _ onSide _ => apart other onSide
      · cases edge
  | dequeue cpu single n =>
      obtain ⟨some_, apart⟩ := promised
      unfold AlfWatched.step watch AlfRace.step at edge
      dsimp only at edge
      split at edge
      · rename_i idle
        cases edge
        refine sound.begin (isIdle_iff.mp idle) ⟨some_, fits⟩ nofun ?_
        exact fun other _ onSide _ => apart other onSide
      · cases edge
  | run cpu =>
      obtain ⟨active, rfl⟩ := step_run.mp edge
      dsimp only [Promised] at promised
      dsimp only [Fits] at fits
      cases at_ : x.1.call cpu with
      | idle => exact absurd at_ active
      | enqHead single ptr => exact sound.after_enqHead at_
      | enqTail single ptr pHead => exact sound.after_enqTail at_
      | enqSwap single ptr pHead pNext =>
          rw [at_] at promised fits
          exact sound.after_enqSwap at_ promised fits
      | enqStore single ptr pHead pNext todo => exact sound.after_enqStore at_
      | enqWait ptr pHead pNext => exact sound.after_enqWait at_
      | enqDone single ptr pNext => exact sound.after_enqDone at_
      | deqHead single n => exact sound.after_deqHead at_
      | deqTail single n cHead => exact sound.after_deqTail at_
      | deqSwap single n cHead cNext elems =>
          rw [at_] at promised
          exact sound.after_deqSwap at_ promised
      | deqLoad single cHead cNext todo ptr => exact sound.after_deqLoad at_
      | deqWait cHead cNext ptr => exact sound.after_deqWait at_
      | deqDone single cNext ptr => exact sound.after_deqDone at_

theorem size_step {event : AlfEvent Cpu α} {next : AlfWatched Cpu α}
    (edge : x.step event = some next) : next.1.q.size = x.1.q.size := by
  have advance (q : AlfQueue α) (call : AlfCall α) : (call.advance q).1.size = q.size := by
    fun_cases AlfCall.advance <;> rfl
  cases event with
  | enqueue cpu single ptr | dequeue cpu single n =>
      unfold step watch AlfRace.step at edge
      dsimp only at edge
      split at edge
      · cases edge
        rfl
      · cases edge
  | run cpu =>
      obtain ⟨-, rfl⟩ := step_run.mp edge
      exact advance x.1.q (x.1.call cpu)

theorem Sound.of_run {size : Nat} {labels : List (AlfEvent Cpu α)}
    {Guard : AlfWatched Cpu α → AlfEvent Cpu α → Prop}
    (ring : (alfQueueAlloc size : AlfQueue α).Regular bits bulk)
    (promised : ∀ x label, Guard x label → Promised x label)
    (fits : ∀ x label, x.1.q.size = size → Guard x label → Fits x bits bulk label)
    (run : Run AlfWatched.step Guard (start size) labels x) :
    x.Sound bits bulk ∧ x.1.q.size = size := by
  have keep {state next : AlfWatched Cpu α} {label : AlfEvent Cpu α}
      (inv : state.Sound bits bulk ∧ state.1.q.size = size) (guard : Guard state label)
      (edge : state.step label = some next) :
      next.Sound bits bulk ∧ next.1.q.size = size :=
    ⟨inv.1.step (promised _ _ guard) (fits _ _ inv.2 guard) edge, (size_step edge).trans inv.2⟩
  exact run.preserves keep ⟨sound_start ring, rfl⟩

/-- In a ring whose size is a power of two nothing more is asked than what callers promise. -/
theorem Sound.of_promised (bitsLe : bits ≤ 31) {labels : List (AlfEvent Cpu α)}
    (run : Run AlfWatched.step Promised (start (2 ^ bits)) labels x) :
    x.Sound bits (2 ^ bits) ∧ x.1.q.size = 2 ^ bits := by
  have ring : (alfQueueAlloc (2 ^ bits) : AlfQueue α).Regular bits (2 ^ bits) :=
    (AlfQueue.powerOfTwo_alloc bitsLe).regular
  refine Sound.of_run ring (fun _ _ promised => promised) ?_ run
  intro state label size _
  cases label with
  | enqueue cpu single ptr => exact Or.inr (Nat.le_of_eq size)
  | dequeue cpu single n => exact Or.inr (Nat.le_of_eq size)
  | run cpu => exact Or.inr (Nat.le_of_eq size)

/-- Bulks of any size, by calls of both kinds on any number of CPUs: the queue is a FIFO. -/
theorem inOrder_of_promised (bitsLe : bits ≤ 31) {labels : List (AlfEvent Cpu α)}
    (run : Run AlfWatched.step Promised (start (2 ^ bits)) labels x) : x.InOrder :=
  (Sound.of_promised bitsLe run).1.inOrder

/-- Two enqueues that start together: the second overtakes the first, whose `cmpxchg` fails once and
which then waits for the second to publish.  A bulk of two comes out while they are under way. -/
def overtaking : List (AlfEvent Bool Nat) :=
  [.enqueue false false [1, 2], .enqueue true false [3], .run false, .run false, .run true,
    .run true, .run true, .run false, .run false, .run false, .run false, .run false, .run false,
    .run false, .run false, .run true, .run true, .run true, .run true, .dequeue true false 2,
    .run true, .run true, .run true, .run false, .run false, .run true, .run true, .run true,
    .run true]

theorem inOrder_of_overtaking : ∃ x : AlfWatched Bool Nat,
    exec AlfWatched.step (start (2 ^ 2)) overtaking = some x ∧ x.InOrder := by
  have ran : (exec (guardedStep AlfWatched.step Promised)
      (start (2 ^ 2) : AlfWatched Bool Nat) overtaking).isSome = true := by
    decide +kernel
  obtain ⟨x, ends⟩ := Option.isSome_iff_exists.mp ran
  have run := run_of_guarded ends
  exact ⟨x, run.exec_eq, inOrder_of_promised (by decide) run⟩

/-- The calls of `valet_mempool.c`: one element at a time, and at an enqueue fewer elements
outstanding than its ring has distinct cells. -/
def OneByOne (x : AlfWatched Cpu α) : AlfEvent Cpu α → Prop
  | .enqueue _ _ ptr => ptr.length = 1
  | .dequeue _ _ n => n = 1
  | .run cpu => x.Roomy AlfQueue.ringReach (x.1.call cpu)

instance (x : AlfWatched Cpu α) (reach : Nat) : ∀ call, Decidable (x.Roomy reach call)
  | .enqSwap .. => Nat.decLe _ _
  | .idle | .enqHead .. | .enqTail .. | .enqStore .. | .enqWait .. | .enqDone .. | .deqHead ..
  | .deqTail .. | .deqSwap .. | .deqLoad .. | .deqWait .. | .deqDone .. => isTrue trivial

instance (x : AlfWatched Cpu α) : ∀ event, Decidable (x.OneByOne event)
  | .enqueue _ _ ptr => Nat.decEq ptr.length 1
  | .dequeue _ _ n => Nat.decEq n 1
  | .run cpu => inferInstanceAs (Decidable (x.Roomy AlfQueue.ringReach (x.1.call cpu)))

theorem regular_pages :
    (alfQueueAlloc AlfQueue.maxPoolPages : AlfQueue α).Regular 18 1 where
  bitsLe := by decide
  lowBits := show sub32 AlfQueue.maxPoolPages 1 % 2 ^ 18 = 2 ^ 18 - 1 by decide
  sizeRange := show AlfQueue.maxPoolPages < u32Range by decide
  straight := fun _ _ few => AlfQueue.unrollMoves_one _
    (show sub32 AlfQueue.maxPoolPages 1 < u32Range by decide) few

theorem Sound.of_oneByOne {labels : List (AlfEvent Cpu α)}
    (run : Run AlfWatched.step (fun x label => Promised x label ∧ OneByOne x label)
      (start AlfQueue.maxPoolPages) labels x) :
    x.Sound 18 1 ∧ x.1.q.size = AlfQueue.maxPoolPages := by
  refine Sound.of_run regular_pages (fun _ _ guard => guard.1) ?_ run
  intro state label _ guard
  obtain ⟨-, single⟩ := guard
  cases label with
  | enqueue cpu alone ptr => exact Or.inl (Nat.le_of_eq single)
  | dequeue cpu alone n => exact Or.inl (Nat.le_of_eq single)
  | run cpu => exact Or.inl single

/-- The rings that `mempool_init` allocates are FIFOs too while fewer than 262144 elements are
outstanding, although their size is no power of two. -/
theorem inOrder_of_oneByOne {labels : List (AlfEvent Cpu α)}
    (run : Run AlfWatched.step (fun x label => Promised x label ∧ OneByOne x label)
      (start AlfQueue.maxPoolPages) labels x) : x.InOrder :=
  (Sound.of_oneByOne run).1.inOrder

/-- Two enqueues of one element each that contend for a position, then two dequeues that do. -/
def pageCalls : List (AlfEvent Bool Nat) :=
  [.enqueue false false [1], .enqueue true false [2], .run false, .run true, .run false,
    .run true, .run true, .run false, .run true, .run false, .run true, .run false, .run true,
    .run false, .run false, .run false, .run true, .run false, .run false,
    .dequeue true false 1, .dequeue false false 1, .run true, .run false, .run true, .run false,
    .run false, .run true, .run true, .run true, .run true, .run true, .run true, .run false,
    .run false, .run false, .run false, .run true, .run true]

theorem inOrder_of_pageCalls : ∃ x : AlfWatched Bool Nat,
    exec AlfWatched.step (start AlfQueue.maxPoolPages) pageCalls = some x ∧ x.InOrder := by
  have ran : (exec (guardedStep AlfWatched.step fun x label => Promised x label ∧ OneByOne x label)
      (start AlfQueue.maxPoolPages : AlfWatched Bool Nat) pageCalls).isSome = true := by
    decide +kernel
  obtain ⟨x, ends⟩ := Option.isSome_iff_exists.mp ran
  have run := run_of_guarded ends
  exact ⟨x, run.exec_eq, inOrder_of_oneByOne run⟩

/-- The rings that are queues for concurrent callers, by size, each with what it asks of them: a
power of two that they keep to their contract, the rings of `mempool_init` also that elements come
one at a time and not too many are outstanding. -/
inductive Suited : Nat → (AlfWatched Cpu α → AlfEvent Cpu α → Prop) → Prop
  | powerOfTwo {bits : Nat} : bits ≤ 31 → Suited (2 ^ bits) Promised
  | pages : Suited AlfQueue.maxPoolPages fun x label => Promised x label ∧ OneByOne x label

theorem Suited.sound {size : Nat} {Guard : AlfWatched Cpu α → AlfEvent Cpu α → Prop}
    {labels : List (AlfEvent Cpu α)} (suited : Suited size Guard)
    (run : Run AlfWatched.step Guard (start size) labels x) :
    ∃ bits bulk, x.Sound bits bulk := by
  cases suited with
  | powerOfTwo bitsLe => exact ⟨_, _, (Sound.of_promised bitsLe run).1⟩
  | pages => exact ⟨18, 1, (Sound.of_oneByOne run).1⟩

/-- No call is refused or sent back without a reason. -/
theorem explained_of_suited {size : Nat} {Guard : AlfWatched Cpu α → AlfEvent Cpu α → Prop}
    {labels : List (AlfEvent Cpu α)} (suited : Suited size Guard)
    (run : Run AlfWatched.step Guard (start size) labels x) (cpu : Cpu) : x.Explained cpu := by
  obtain ⟨bits, bulk, sound⟩ := suited.sound run
  exact sound.explained cpu

theorem explained_of_overtaking : ∃ x : AlfWatched Bool Nat,
    exec AlfWatched.step (start (2 ^ 2)) (overtaking.take 7) = some x ∧ x.Explained false := by
  have ran : (exec (guardedStep AlfWatched.step Promised)
      (start (2 ^ 2) : AlfWatched Bool Nat) (overtaking.take 7)).isSome = true := by
    decide +kernel
  obtain ⟨x, ends⟩ := Option.isSome_iff_exists.mp ran
  have run := run_of_guarded ends
  exact ⟨x, run.exec_eq, explained_of_suited (.powerOfTwo (by decide)) run false⟩

end AlfWatched

end Valet.Bd
