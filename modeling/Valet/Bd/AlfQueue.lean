import Valet.Library.RingWindow
import Mathlib.Data.Nat.Bitwise
import Mathlib.Data.Nat.ModEq

/-!
# The array based queue

`alf_queue` is a ring of `size` cells addressed by free-running 32-bit
positions; the cell of a position is the position masked with `size - 1`.  The
calls run one at a time here, so that a head and the tail that follows it are
written by the same call.
-/

namespace Valet.Bd

open Valet.Library

/-- The range of a `u32`. -/
def u32Range : Nat := 4294967296

/-- Subtraction of two `u32`. -/
def sub32 (a b : Nat) : Nat := (u32Range - b + a) % u32Range

structure AlfActor where
  head : Nat
  tail : Nat

structure AlfQueue (α : Type) where
  size : Nat
  mask : Nat
  producer : AlfActor
  consumer : AlfActor
  ring : Nat → Option α

variable {α : Type}

/-- `vzalloc` clears the positions and the ring. -/
def alfQueueAlloc (size : Nat) : AlfQueue α where
  size := size
  mask := sub32 size 1
  producer := ⟨0, 0⟩
  consumer := ⟨0, 0⟩
  ring := fun _ => none

namespace AlfQueue

/-- `alf_mp_enqueue` of one element; `none` stands for the return value 0. -/
def alfMpEnqueue (q : AlfQueue α) (ptr : α) : Option (AlfQueue α) :=
  let pHead := q.producer.head
  let cTail := q.consumer.tail
  let space := sub32 (q.size + cTail) pHead
  if 1 > space then
    none
  else
    let pNext := (pHead + 1) % u32Range
    some { q with
      ring := Function.update q.ring (pHead &&& q.mask) (some ptr)
      producer := ⟨pNext, pNext⟩ }

/-- `alf_mc_dequeue` of one element; `none` stands for the return value 0. -/
def alfMcDequeue (q : AlfQueue α) : Option (Option α × AlfQueue α) :=
  let cHead := q.consumer.head
  let pTail := q.producer.tail
  let elems := sub32 pTail cHead
  if elems = 0 then
    none
  else
    let cNext := (cHead + min elems 1) % u32Range
    some (q.ring (cHead &&& q.mask), { q with consumer := ⟨cNext, cNext⟩ })

def alfQueueEmpty (q : AlfQueue α) : Bool := q.consumer.tail == q.producer.tail

/-- `alf_queue_count`. -/
def alfQueueCount (q : AlfQueue α) : Nat :=
  sub32 q.producer.tail q.consumer.head

/-- The cell of a free-running position. -/
def slot (q : AlfQueue α) (position : Nat) : Nat := position % u32Range &&& q.mask

/-- The cells of the outstanding positions, oldest first. -/
def held (q : AlfQueue α) : List (Option α) :=
  window q.ring q.slot q.consumer.head q.alfQueueCount

/-- What the queue hands out from here on, oldest first. -/
def contents (q : AlfQueue α) : List α := q.held.reduceOption

/-- The queue between two calls. -/
structure Sound (q : AlfQueue α) : Prop where
  producerDone : q.producer.tail = q.producer.head
  consumerDone : q.consumer.tail = q.consumer.head
  producerRange : q.producer.head < u32Range
  consumerRange : q.consumer.head < u32Range
  sizeRange : q.size < u32Range
  countLe : q.alfQueueCount ≤ q.size
  filled : ∀ cell ∈ q.held, cell.isSome

@[simp] theorem alfQueueCount_alloc (size : Nat) :
    (alfQueueAlloc size : AlfQueue α).alfQueueCount = 0 := by
  simp [alfQueueCount, alfQueueAlloc, sub32, u32Range]

@[simp] theorem held_alloc (size : Nat) : (alfQueueAlloc size : AlfQueue α).held = [] := by
  rw [held, alfQueueCount_alloc, window_zero]

@[simp] theorem contents_alloc (size : Nat) :
    (alfQueueAlloc size : AlfQueue α).contents = [] := by
  rw [contents, held_alloc, List.reduceOption_nil]

theorem sound_alloc {size : Nat} (range : size < u32Range) :
    (alfQueueAlloc size : AlfQueue α).Sound where
  producerDone := rfl
  consumerDone := rfl
  producerRange := show 0 < u32Range by decide
  consumerRange := show 0 < u32Range by decide
  sizeRange := range
  countLe := by
    rw [alfQueueCount_alloc]
    exact Nat.zero_le _
  filled := by
    intro cell member
    rw [held_alloc] at member
    cases member

theorem slot_of_lt (q : AlfQueue α) {position : Nat} (range : position < u32Range) :
    q.slot position = position &&& q.mask := by
  rw [slot, Nat.mod_eq_of_lt range]

theorem slot_mod_add (q : AlfQueue α) (position offset : Nat) :
    q.slot (position % u32Range + offset) = q.slot (position + offset) := by
  simp only [slot, Nat.mod_add_mod]

/-- In a sound queue every outstanding cell is filled, so nothing is skipped. -/
theorem Sound.held_eq {q : AlfQueue α} (sound : q.Sound) :
    q.held = q.contents.map some := by
  have filled := sound.filled
  unfold contents
  generalize q.held = cells at filled
  induction cells with
  | nil => rfl
  | cons cell rest ih =>
      obtain ⟨value, rfl⟩ := Option.isSome_iff_exists.mp (filled cell List.mem_cons_self)
      rw [List.reduceOption_cons_of_some, List.map_cons,
        ← ih fun other member => filled other (List.mem_cons_of_mem _ member)]

theorem Sound.contents_length {q : AlfQueue α} (sound : q.Sound) :
    q.contents.length = q.alfQueueCount := by
  have lengths := congrArg List.length sound.held_eq
  rw [held, window_length, List.length_map] at lengths
  exact lengths.symm

theorem Sound.mem_contents {q : AlfQueue α} {value : α} :
    value ∈ q.contents ↔ some value ∈ q.held := by
  simp [contents, List.reduceOption_mem_iff]

/-- The producer stands just behind the outstanding positions. -/
theorem Sound.producer_eq {q : AlfQueue α} (sound : q.Sound) :
    q.producer.head = (q.consumer.head + q.alfQueueCount) % u32Range := by
  have producer := sound.producerRange
  have consumer := sound.consumerRange
  unfold alfQueueCount
  rw [sound.producerDone]
  unfold sub32 u32Range at *
  omega

/-- What a successful enqueue does to the positions and to the ring. -/
theorem Sound.enqueue_spec {q next : AlfQueue α} {ptr : α} (sound : q.Sound)
    (put : q.alfMpEnqueue ptr = some next) :
    next.consumer = q.consumer ∧ next.size = q.size ∧ next.mask = q.mask ∧
      next.producer.tail = next.producer.head ∧ next.producer.head < u32Range ∧
      next.alfQueueCount = q.alfQueueCount + 1 ∧ next.alfQueueCount ≤ q.size ∧
      next.ring = Function.update q.ring
        (q.slot (q.consumer.head + q.alfQueueCount)) (some ptr) := by
  have producer := sound.producerRange
  have consumer := sound.consumerRange
  have sizeRange := sound.sizeRange
  have countLe := sound.countLe
  have behind := sound.producer_eq
  unfold alfMpEnqueue at put
  simp only [sound.consumerDone] at put
  split at put
  · cases put
  · rename_i room
    have cell : q.producer.head &&& q.mask = q.slot (q.consumer.head + q.alfQueueCount) := by
      rw [slot, ← behind]
    cases put
    simp only [alfQueueCount, sound.producerDone] at *
    unfold sub32 u32Range at *
    refine ⟨trivial, trivial, trivial, trivial, ?_, ?_, ?_, ?_⟩
    · omega
    · omega
    · omega
    · rw [cell]

theorem Sound.enqueue {q next : AlfQueue α} {ptr : α} (sound : q.Sound)
    (put : q.alfMpEnqueue ptr = some next) : next.Sound := by
  obtain ⟨consumer, size, mask, tail, range, count, countLe, ring⟩ := sound.enqueue_spec put
  refine ⟨tail, ?_, range, ?_, ?_, ?_, ?_⟩
  · rw [consumer, sound.consumerDone]
  · rw [consumer]
    exact sound.consumerRange
  · rw [size]
    exact sound.sizeRange
  · rw [size]
    exact countLe
  · intro cell member
    have slots : next.slot = q.slot := by
      funext position
      rw [slot, slot, mask]
    rw [held, count, consumer, ring, slots, window_succ_last, List.mem_append,
      List.mem_singleton, Function.update_self] at member
    rcases member with old | rfl
    · rcases mem_window_update old with old | rfl
      · exact sound.filled cell old
      · rfl
    · rfl

/-- Whether or not cells collide, a queue hands out nothing that was not put into it. -/
theorem Sound.mem_enqueue {q next : AlfQueue α} {ptr value : α} (sound : q.Sound)
    (put : q.alfMpEnqueue ptr = some next) (member : value ∈ next.contents) :
    value ∈ q.contents ∨ value = ptr := by
  obtain ⟨consumer, size, mask, tail, range, count, countLe, ring⟩ := sound.enqueue_spec put
  have slots : next.slot = q.slot := by
    funext position
    rw [slot, slot, mask]
  rw [Sound.mem_contents, held, count, consumer, ring, slots, window_succ_last,
    List.mem_append, List.mem_singleton, Function.update_self] at member
  rcases member with old | new
  · rcases mem_window_update old with old | new
    · exact Or.inl (Sound.mem_contents.mpr old)
    · exact Or.inr (Option.some.inj new)
  · exact Or.inr (Option.some.inj new)

/-- Two positions less than `2 ^ bits` apart have different cells when the mask keeps the
lowest `bits` bits. -/
theorem slot_ne_of_close (q : AlfQueue α) {bits start offset count : Nat}
    (bitsLe : bits ≤ 32) (lowBits : q.mask % 2 ^ bits = 2 ^ bits - 1)
    (before : offset < count) (close : count < 2 ^ bits) :
    q.slot (start + offset) ≠ q.slot (start + count) := by
  intro same
  have period : 2 ^ bits ∣ u32Range := by
    rw [show u32Range = 2 ^ 32 by decide]
    exact Nat.pow_dvd_pow 2 bitsLe
  have low (position : Nat) : q.slot position % 2 ^ bits = position % 2 ^ bits := by
    rw [slot, Nat.and_mod_two_pow, lowBits, Nat.and_two_pow_sub_one_eq_mod, Nat.mod_mod,
      Nat.mod_mod_of_dvd _ period]
  have equal : (start + offset) % 2 ^ bits = (start + count) % 2 ^ bits := by
    have masked := congrArg (fun cell => cell % 2 ^ bits) same
    simpa only [low] using masked
  have apart : (start + count) - (start + offset) = count - offset := by omega
  have divides : 2 ^ bits ∣ count - offset := by
    rw [← apart]
    exact (Nat.modEq_iff_dvd' (by omega)).mp equal
  have bound := Nat.le_of_dvd (by omega) divides
  omega

/-- While fewer than `2 ^ bits` elements are outstanding, an enqueue appends. -/
theorem Sound.contents_enqueue {q next : AlfQueue α} {ptr : α} {bits : Nat} (sound : q.Sound)
    (bitsLe : bits ≤ 32) (lowBits : q.mask % 2 ^ bits = 2 ^ bits - 1)
    (few : q.alfQueueCount < 2 ^ bits) (put : q.alfMpEnqueue ptr = some next) :
    next.contents = q.contents ++ [ptr] := by
  obtain ⟨consumer, size, mask, tail, range, count, countLe, ring⟩ := sound.enqueue_spec put
  have slots : next.slot = q.slot := by
    funext position
    rw [slot, slot, mask]
  have fresh (offset : Nat) (bound : offset < q.alfQueueCount) :
      q.slot (q.consumer.head + offset) ≠ q.slot (q.consumer.head + q.alfQueueCount) :=
    q.slot_ne_of_close bitsLe lowBits bound few
  have pushed := window_push q.ring q.slot (some ptr) fresh
  have appended : next.held = q.held ++ [some ptr] := by
    rw [held, count, consumer, ring, slots, pushed, held]
  rw [contents, appended, List.reduceOption_append, contents]
  rfl

/-- An enqueue fails only when `size` elements are outstanding. -/
theorem Sound.enqueue_isSome {q : AlfQueue α} (sound : q.Sound) (ptr : α)
    (room : q.alfQueueCount < q.size) : ∃ next, q.alfMpEnqueue ptr = some next := by
  have producer := sound.producerRange
  have consumer := sound.consumerRange
  have sizeRange := sound.sizeRange
  have space : ¬ 1 > sub32 (q.size + q.consumer.tail) q.producer.head := by
    rw [sound.consumerDone]
    unfold alfQueueCount at room
    rw [sound.producerDone] at room
    unfold sub32 u32Range at *
    omega
  exact ⟨_, if_neg space⟩

/-- The cells of the ring of `max_pool_pages` cells are distinct over this distance only: its
size is no power of two, so that the mask skips bits. -/
def ringReach : Nat := 262144

/-- A queue in use with the ring that `mempool_init` allocates. -/
structure Ready (q : AlfQueue α) : Prop where
  sound : q.Sound
  lowBits : q.mask % ringReach = ringReach - 1
  big : ringReach ≤ q.size

theorem Ready.enqueue {q next : AlfQueue α} {ptr : α} (ready : q.Ready)
    (put : q.alfMpEnqueue ptr = some next) : next.Ready := by
  obtain ⟨_, size, mask, _⟩ := ready.sound.enqueue_spec put
  exact ⟨ready.sound.enqueue put, by rw [mask, ready.lowBits], by rw [size]; exact ready.big⟩

/-- Within the reach of the ring an enqueue appends. -/
theorem Ready.contents_enqueue {q next : AlfQueue α} {ptr : α} (ready : q.Ready)
    (few : q.alfQueueCount < ringReach) (put : q.alfMpEnqueue ptr = some next) :
    next.contents = q.contents ++ [ptr] := by
  have reach : ringReach = 2 ^ 18 := by decide
  have lowBits := ready.lowBits
  rw [reach] at few lowBits
  exact ready.sound.contents_enqueue (by decide) lowBits few put

theorem Sound.dequeue_none {q : AlfQueue α} (sound : q.Sound) :
    q.alfMcDequeue = none ↔ q.contents = [] := by
  rw [← List.length_eq_zero_iff, sound.contents_length]
  unfold alfMcDequeue alfQueueCount
  by_cases empty : sub32 q.producer.tail q.consumer.head = 0 <;>
    simp [empty]

theorem Sound.alfQueueEmpty_iff {q : AlfQueue α} (sound : q.Sound) :
    q.alfQueueEmpty = true ↔ q.contents = [] := by
  have producer := sound.producerRange
  have consumer := sound.consumerRange
  rw [← List.length_eq_zero_iff, sound.contents_length]
  unfold alfQueueEmpty alfQueueCount
  rw [beq_iff_eq, sound.consumerDone, sound.producerDone]
  unfold sub32 u32Range at *
  omega

/-- A dequeue hands out the oldest outstanding element and keeps the others. -/
theorem Sound.dequeue {q next : AlfQueue α} {ptr : Option α} (sound : q.Sound)
    (got : q.alfMcDequeue = some (ptr, next)) :
    next.Sound ∧ next.mask = q.mask ∧ next.size = q.size ∧
      ∃ value, ptr = some value ∧ q.contents = value :: next.contents := by
  have producer := sound.producerRange
  have consumer := sound.consumerRange
  have countLe := sound.countLe
  have cellOf := q.slot_of_lt consumer
  unfold alfMcDequeue at got
  by_cases empty : sub32 q.producer.tail q.consumer.head = 0
  · simp [empty] at got
  · simp only [empty, if_false, Option.some.injEq, Prod.mk.injEq] at got
    obtain ⟨rfl, rfl⟩ := got
    have one : min (sub32 q.producer.tail q.consumer.head) 1 = 1 := by omega
    rw [one]
    let after : AlfQueue α :=
      { q with consumer := ⟨(q.consumer.head + 1) % u32Range, (q.consumer.head + 1) % u32Range⟩ }
    have counts : q.alfQueueCount = after.alfQueueCount + 1 := by
      simp only [alfQueueCount, after]
      rw [sound.producerDone] at *
      unfold sub32 u32Range at *
      omega
    have split : q.held = q.ring (q.slot q.consumer.head) :: after.held := by
      rw [held, counts, window, held]
      congr 1
      apply window_congr
      intro offset bound
      exact congrArg q.ring (q.slot_mod_add (q.consumer.head + 1) offset).symm
    have filledAfter : ∀ cell ∈ after.held, cell.isSome := by
      intro cell member
      apply sound.filled
      rw [split]
      exact List.mem_cons_of_mem _ member
    have soundAfter : after.Sound := by
      refine ⟨sound.producerDone, rfl, producer, Nat.mod_lt _ (by decide), sound.sizeRange,
        ?_, filledAfter⟩
      have sizes : after.size = q.size := rfl
      omega
    obtain ⟨value, isValue⟩ := Option.isSome_iff_exists.mp
      (sound.filled (q.ring (q.slot q.consumer.head)) (by rw [split]; exact List.mem_cons_self))
    refine ⟨soundAfter, rfl, rfl, value, ?_, ?_⟩
    · rw [← cellOf]
      exact isValue
    · rw [contents, split, isValue, List.reduceOption_cons_of_some]
      rfl

theorem Ready.dequeue {q next : AlfQueue α} {ptr : Option α} (ready : q.Ready)
    (got : q.alfMcDequeue = some (ptr, next)) :
    next.Ready ∧ ∃ value, ptr = some value ∧ q.contents = value :: next.contents := by
  obtain ⟨sound, mask, size, value, isValue, contents⟩ := ready.sound.dequeue got
  exact ⟨⟨sound, by rw [mask, ready.lowBits], by rw [size]; exact ready.big⟩,
    value, isValue, contents⟩

/-- The size of the two rings, `max_pool_pages`. -/
def maxPoolPages : Nat := 6553600

theorem ready_alloc : (alfQueueAlloc maxPoolPages : AlfQueue α).Ready where
  sound := sound_alloc (by decide)
  lowBits := show sub32 maxPoolPages 1 % ringReach = ringReach - 1 by decide
  big := show ringReach ≤ maxPoolPages by decide

end AlfQueue

end Valet.Bd
