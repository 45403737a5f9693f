import Valet.Bd.ConcurrentQueue
import Mathlib.Data.List.Infix

/-!
# What concurrent calls of the queue keep

The record tells where each position is: published and not claimed yet, reserved
by a call that is still storing, claimed by one that is still loading, or given
back.  A call past its `cmpxchg` owns the positions of its ticket, so that no
step of another call touches them.
-/

namespace Valet.Bd

open Valet.Library

namespace AlfQueue

variable {α : Type}

/-- A ring whose cells are distinct over `2 ^ bits` positions, and to which bulks of up to
`bulk` elements are stored cell by cell. -/
structure Regular (q : AlfQueue α) (bits bulk : Nat) : Prop where
  bitsLe : bits ≤ 32
  lowBits : q.mask % 2 ^ bits = 2 ^ bits - 1
  sizeRange : q.size < u32Range
  straight : ∀ pHead n, n ≤ bulk → q.unrollMoves pHead n = q.straightMoves pHead n

theorem PowerOfTwo.regular {q : AlfQueue α} {bits : Nat} (ring : q.PowerOfTwo bits) :
    q.Regular bits q.size where
  bitsLe := by
    have le := ring.bitsLe
    omega
  lowBits := by
    rw [ring.mask, Nat.mod_eq_of_lt (Nat.sub_lt (Nat.two_pow_pos bits) Nat.one_pos)]
  sizeRange := by
    have le := ring.size_le
    have positive := ring.size_pos
    omega
  straight := fun _ _ few => ring.unrollMoves_eq few

/-- One element goes to the cell of its position whatever the mask. -/
theorem unrollMoves_one (q : AlfQueue α) (small : q.mask < u32Range) {pHead n : Nat}
    (few : n ≤ 1) : q.unrollMoves pHead n = q.straightMoves pHead n := by
  have cell : pHead &&& q.mask = q.slot (pHead + 0) := by
    have whole := Nat.and_lt_two_pow pHead (show q.mask < 2 ^ 32 from small)
    rw [Nat.add_zero, slot, ← Nat.mod_eq_of_lt whole, Nat.and_mod_two_pow,
      Nat.mod_eq_of_lt (show q.mask < 2 ^ 32 from small)]
    rfl
  have range : q.slot (pHead + 0) < u32Range :=
    Nat.lt_of_le_of_lt Nat.and_le_right small
  unfold unrollMoves
  dsimp only
  rw [cell]
  rcases Nat.le_one_iff_eq_zero_or_eq_one.mp few with rfl | rfl
  · split <;> rfl
  · split
    · change [(((q.slot (pHead + 0) + 0) % u32Range + 0) % u32Range, 0 + 0)] = _
      rw [Nat.add_zero, Nat.add_zero, Nat.mod_mod, Nat.mod_eq_of_lt range]
      rfl
    · change [(q.slot (pHead + 0) &&& q.mask, 0)] = _
      rw [slot, Nat.and_assoc, Nat.and_self]
      rfl

variable {q : AlfQueue α} {bits bulk : Nat}

theorem Regular.slot_inj (ring : q.Regular bits bulk) {start a b : Nat} (lowA : start ≤ a)
    (highA : a < start + 2 ^ bits) (lowB : start ≤ b) (highB : b < start + 2 ^ bits)
    (same : q.slot a = q.slot b) : a = b := by
  have apart (a b : Nat) (before : a < b) (close : b < a + 2 ^ bits) : q.slot a ≠ q.slot b := by
    have cells : q.slot (a + 0) ≠ q.slot (a + (b - a)) :=
      q.slot_ne_of_close ring.bitsLe ring.lowBits (Nat.sub_pos_of_lt before) (by omega)
    rwa [Nat.add_zero, Nat.add_sub_cancel' (Nat.le_of_lt before)] at cells
  rcases Nat.lt_trichotomy a b with before | equal | after
  · exact absurd same (apart a b before (by omega))
  · exact equal
  · exact absurd same.symm (apart b a after (by omega))

end AlfQueue

namespace AlfRecord

variable {Cpu α : Type}

/-- The record says of the queue what is there. -/
structure Tracks (h : AlfRecord Cpu α) (q : AlfQueue α) (bits bulk : Nat) : Prop where
  ring : q.Regular bits bulk
  producerHead : q.producer.head = h.reserved.length % u32Range
  producerTail : q.producer.tail = h.enqueued.length % u32Range
  consumerHead : q.consumer.head = h.claimed % u32Range
  consumerTail : q.consumer.tail = h.dequeued.length % u32Range
  producing : Tiles h.enqueued.length h.producers h.reserved.length
  consuming : Tiles h.dequeued.length h.consumers h.claimed
  producerOwners : (h.producers.map Ticket.owner).Nodup
  consumerOwners : (h.consumers.map Ticket.owner).Nodup
  claimedLe : h.claimed ≤ h.enqueued.length
  capacity : h.reserved.length ≤ h.dequeued.length + q.size
  reach : h.reserved.length ≤ h.dequeued.length + 2 ^ bits
  enqueued : h.enqueued = h.reserved.take h.enqueued.length
  dequeued : h.dequeued = (h.reserved.take h.dequeued.length).map some
  filled : ∀ position, h.dequeued.length ≤ position → position < h.enqueued.length →
    q.ring (q.slot position) = h.reserved[position]?

/-- The head that a call read, on either side. -/
structure Read (head seen : Nat) (single : Bool) (local_ : Nat) : Prop where
  value : local_ = seen % u32Range
  le : seen ≤ head
  alone : single = true → seen = head

/-- A call that has reserved the positions of its bulk and stored `done` elements. -/
structure Storing (h : AlfRecord Cpu α) (q : AlfQueue α) (cpu : Cpu) (ptr : List α)
    (start pNext done : Nat) : Prop where
  ticket : ⟨cpu, start, ptr.length⟩ ∈ h.producers
  pNext : pNext = (start + ptr.length) % u32Range
  elements : slice h.reserved start ptr.length = ptr
  doneLe : done ≤ ptr.length
  stored : ∀ k, k < done → q.ring (q.slot (start + k)) = h.reserved[start + k]?

/-- A call that has claimed `count` positions and loaded what is in `ptr`. -/
structure Loading (h : AlfRecord Cpu α) (cpu : Cpu) (start count cNext : Nat)
    (ptr : List (Option α)) : Prop where
  ticket : ⟨cpu, start, count⟩ ∈ h.consumers
  cNext : cNext = (start + count) % u32Range
  loadedLe : ptr.length ≤ count
  loaded : ptr = (slice h.reserved start ptr.length).map some

/-- What holds of a call wherever it stands. -/
def Facts (h : AlfRecord Cpu α) (q : AlfQueue α) (bulk : Nat) (cpu : Cpu) : AlfCall α → Prop
  | .idle => True
  | .enqHead _ ptr => 0 < ptr.length ∧ (ptr.length ≤ bulk ∨ q.size ≤ bulk)
  | .enqTail single ptr pHead =>
      0 < ptr.length ∧ (ptr.length ≤ bulk ∨ q.size ≤ bulk) ∧
        Read h.reserved.length (h.seen cpu) single pHead
  | .enqSwap single ptr pHead pNext =>
      0 < ptr.length ∧ (ptr.length ≤ bulk ∨ q.size ≤ bulk) ∧
        Read h.reserved.length (h.seen cpu) single pHead ∧
        pNext = (pHead + ptr.length) % u32Range ∧
        (h.seen cpu = h.reserved.length →
          h.reserved.length + ptr.length ≤ h.dequeued.length + q.size)
  | .enqStore _ ptr pHead pNext todo =>
      ∃ start done, h.Storing q cpu ptr start pNext done ∧ pHead = start % u32Range ∧
        todo = AlfQueue.pairs (fun i => q.slot (start + i)) done (ptr.length - done)
  | .enqWait ptr pHead pNext =>
      ∃ start, h.Storing q cpu ptr start pNext ptr.length ∧ pHead = start % u32Range
  | .enqDone _ ptr pNext => h.Storing q cpu ptr h.enqueued.length pNext ptr.length
  | .deqHead _ n => 0 < n ∧ (n ≤ bulk ∨ q.size ≤ bulk)
  | .deqTail single n cHead =>
      0 < n ∧ (n ≤ bulk ∨ q.size ≤ bulk) ∧ Read h.claimed (h.seen cpu) single cHead
  | .deqSwap single n cHead cNext elems =>
      (0 < n ∧ (n ≤ bulk ∨ q.size ≤ bulk)) ∧ 0 < elems ∧ elems ≤ n ∧
        Read h.claimed (h.seen cpu) single cHead ∧
        cNext = (cHead + elems) % u32Range ∧
        (h.seen cpu = h.claimed → h.claimed + elems ≤ h.enqueued.length)
  | .deqLoad _ cHead cNext todo ptr =>
      ∃ start count, h.Loading cpu start count cNext ptr ∧ cHead = start % u32Range ∧
        todo = AlfQueue.pairs (fun i => q.slot (start + i)) ptr.length (count - ptr.length)
  | .deqWait cHead cNext ptr =>
      ∃ start, h.Loading cpu start ptr.length cNext ptr ∧ cHead = start % u32Range
  | .deqDone _ cNext ptr => h.Loading cpu h.dequeued.length ptr.length cNext ptr

end AlfRecord

/-- A `single` call is the only call on its side. -/
def AloneOn {Cpu α : Type} (side : AlfCall α → Bool) (call : Cpu → AlfCall α) : Prop :=
  ∀ cpu other, side (call cpu) → (call cpu).single → side (call other) → cpu = other

namespace AlfWatched

variable {Cpu α : Type}

/-- The invariant of the race. -/
structure Sound (x : AlfWatched Cpu α) (bits bulk : Nat) : Prop where
  tracks : x.2.Tracks x.1.q bits bulk
  facts : ∀ cpu, x.2.Facts x.1.q bulk cpu (x.1.call cpu)
  producers : ∀ ticket ∈ x.2.producers, (x.1.call ticket.owner).storing
  consumers : ∀ ticket ∈ x.2.consumers, (x.1.call ticket.owner).loading
  producerAlone : AloneOn AlfCall.enqueues x.1.call
  consumerAlone : AloneOn AlfCall.dequeues x.1.call

end AlfWatched

/-- What a step of another call leaves alone, as far as the call on `cpu` can tell. -/
structure AlfRecord.Kept {Cpu α : Type} (h next : AlfRecord Cpu α) (q nextQ : AlfQueue α)
    (cpu : Cpu) : Prop where
  mask : nextQ.mask = q.mask
  size : nextQ.size = q.size
  seen : next.seen cpu = h.seen cpu
  reserved : h.reserved <+: next.reserved
  claimedLe : h.claimed ≤ next.claimed
  enqueuedLe : h.enqueued.length ≤ next.enqueued.length
  dequeuedLe : h.dequeued.length ≤ next.dequeued.length
  producers : ∀ ticket ∈ h.producers, ticket.owner = cpu → ticket ∈ next.producers
  consumers : ∀ ticket ∈ h.consumers, ticket.owner = cpu → ticket ∈ next.consumers
  cells : ∀ ticket ∈ h.producers, ticket.owner = cpu → ∀ k, k < ticket.count →
    nextQ.ring (q.slot (ticket.start + k)) = q.ring (q.slot (ticket.start + k))
  producerTail : ∀ ticket ∈ h.producers, ticket.owner = cpu →
    ticket.start = h.enqueued.length → next.enqueued.length = h.enqueued.length
  consumerTail : ∀ ticket ∈ h.consumers, ticket.owner = cpu →
    ticket.start = h.dequeued.length → next.dequeued.length = h.dequeued.length

namespace AlfRecord

variable {Cpu α : Type} {h next : AlfRecord Cpu α} {q nextQ : AlfQueue α} {bits bulk : Nat}
  {cpu : Cpu}

namespace Tracks

theorem publishedLe (tracks : h.Tracks q bits bulk) :
    h.enqueued.length ≤ h.reserved.length := tracks.producing.le

theorem releasedLe (tracks : h.Tracks q bits bulk) : h.dequeued.length ≤ h.claimed :=
  tracks.consuming.le

/-- A claimed position was published, and published positions were reserved. -/
theorem claimed_bounds (tracks : h.Tracks q bits bulk) {ticket : Ticket Cpu}
    (member : ticket ∈ h.consumers) : h.dequeued.length ≤ ticket.start ∧ 0 < ticket.count ∧
      ticket.start + ticket.count ≤ h.enqueued.length := by
  have bounds := tracks.consuming.bounds member
  have claimed := tracks.claimedLe
  omega

end Tracks

theorem Read.mono {head later seen local_ : Nat} {single : Bool}
    (read : Read head seen single local_) (le : head ≤ later)
    (alone : single = true → later = head) : Read later seen single local_ where
  value := read.value
  le := Nat.le_trans read.le le
  alone := fun isSingle => (read.alone isSingle).trans (alone isSingle).symm

namespace Kept

variable (kept : h.Kept next q nextQ cpu)

include kept

theorem slot_eq : nextQ.slot = q.slot := by
  funext position
  rw [AlfQueue.slot, AlfQueue.slot, kept.mask]

theorem reservedLe : h.reserved.length ≤ next.reserved.length := kept.reserved.length_le

theorem slice_eq {start count : Nat} (inside : start + count ≤ h.reserved.length) :
    slice next.reserved start count = slice h.reserved start count := by
  obtain ⟨more, appended⟩ := kept.reserved
  rw [← appended, slice_append inside]

theorem getElem?_eq {position : Nat} (inside : position < h.reserved.length) :
    next.reserved[position]? = h.reserved[position]? := by
  obtain ⟨more, appended⟩ := kept.reserved
  rw [← appended, List.getElem?_append_left inside]

theorem storing (tracks : h.Tracks q bits bulk) {ptr : List α} {start pNext done : Nat}
    (storing : h.Storing q cpu ptr start pNext done) :
    next.Storing nextQ cpu ptr start pNext done where
  ticket := kept.producers _ storing.ticket rfl
  pNext := storing.pNext
  elements := by
    have inside := (tracks.producing.bounds storing.ticket).2.2
    rw [kept.slice_eq inside, storing.elements]
  doneLe := storing.doneLe
  stored := by
    intro k bound
    have inside := (tracks.producing.bounds storing.ticket).2.2
    have doneLe := storing.doneLe
    dsimp only at inside
    rw [kept.slot_eq, kept.getElem?_eq (by omega), ← storing.stored k bound]
    exact kept.cells _ storing.ticket rfl k (by dsimp only; omega)

theorem loading (tracks : h.Tracks q bits bulk) {ptr : List (Option α)}
    {start count cNext : Nat} (loading : h.Loading cpu start count cNext ptr) :
    next.Loading cpu start count cNext ptr where
  ticket := kept.consumers _ loading.ticket rfl
  cNext := loading.cNext
  loadedLe := loading.loadedLe
  loaded := by
    have inside := (tracks.claimed_bounds loading.ticket).2.2
    have published := tracks.publishedLe
    have loadedLe := loading.loadedLe
    dsimp only at inside
    rw [kept.slice_eq (by omega), ← loading.loaded]

/-- What holds of a call goes on to hold while others take steps. -/
theorem facts (tracks : h.Tracks q bits bulk) {call : AlfCall α}
    (producer : call.enqueues → call.single → next.reserved.length = h.reserved.length)
    (consumer : call.dequeues → call.single → next.claimed = h.claimed)
    (facts : h.Facts q bulk cpu call) : next.Facts nextQ bulk cpu call := by
  have reservedLe := kept.reservedLe
  have claimedLe := kept.claimedLe
  cases call with
  | idle => trivial
  | enqHead single ptr =>
      obtain ⟨some_, fits⟩ := facts
      exact ⟨some_, by rwa [kept.size]⟩
  | enqTail single ptr pHead =>
      obtain ⟨some_, fits, read⟩ := facts
      refine ⟨some_, by rwa [kept.size], ?_⟩
      rw [kept.seen]
      exact read.mono reservedLe (producer rfl)
  | enqSwap single ptr pHead pNext =>
      obtain ⟨some_, fits, read, next_, room⟩ := facts
      refine ⟨some_, by rwa [kept.size], ?_, next_, ?_⟩
      · rw [kept.seen]
        exact read.mono reservedLe (producer rfl)
      · rw [kept.seen, kept.size]
        intro current
        have seenLe := read.le
        have dequeuedLe := kept.dequeuedLe
        have before := room (by omega)
        omega
  | enqStore single ptr pHead pNext todo =>
      obtain ⟨start, done, storing, head, rest⟩ := facts
      refine ⟨start, done, kept.storing tracks storing, head, ?_⟩
      rw [kept.slot_eq]
      exact rest
  | enqWait ptr pHead pNext =>
      obtain ⟨start, storing, head⟩ := facts
      exact ⟨start, kept.storing tracks storing, head⟩
  | enqDone single ptr pNext =>
      have storing : h.Storing q cpu ptr h.enqueued.length pNext ptr.length := facts
      have tail := kept.producerTail _ storing.ticket rfl rfl
      change next.Storing nextQ cpu ptr next.enqueued.length pNext ptr.length
      rw [tail]
      exact kept.storing tracks storing
  | deqHead single n =>
      obtain ⟨some_, fits⟩ := facts
      exact ⟨some_, by rwa [kept.size]⟩
  | deqTail single n cHead =>
      obtain ⟨some_, fits, read⟩ := facts
      refine ⟨some_, by rwa [kept.size], ?_⟩
      rw [kept.seen]
      exact read.mono claimedLe (consumer rfl)
  | deqSwap single n cHead cNext elems =>
      obtain ⟨⟨someN, fits⟩, some_, few, read, next_, room⟩ := facts
      refine ⟨⟨someN, by rwa [kept.size]⟩, some_, few, ?_, next_, ?_⟩
      · rw [kept.seen]
        exact read.mono claimedLe (consumer rfl)
      · rw [kept.seen]
        intro current
        have seenLe := read.le
        have enqueuedLe := kept.enqueuedLe
        have before := room (by omega)
        omega
  | deqLoad single cHead cNext todo ptr =>
      obtain ⟨start, count, loading, head, rest⟩ := facts
      refine ⟨start, count, kept.loading tracks loading, head, ?_⟩
      rw [kept.slot_eq]
      exact rest
  | deqWait cHead cNext ptr =>
      obtain ⟨start, loading, head⟩ := facts
      exact ⟨start, kept.loading tracks loading, head⟩
  | deqDone single cNext ptr =>
      have loading : h.Loading cpu h.dequeued.length ptr.length cNext ptr := facts
      have tail := kept.consumerTail _ loading.ticket rfl rfl
      change next.Loading cpu next.dequeued.length ptr.length cNext ptr
      rw [tail]
      exact kept.loading tracks loading

end Kept

end AlfRecord

namespace AlfRecord

variable {Cpu α : Type} {h : AlfRecord Cpu α} {q : AlfQueue α} {bits bulk : Nat}

theorem Tracks.look (tracks : h.Tracks q bits bulk) (seen : Cpu → Nat) :
    Tracks { h with seen := seen } q bits bulk where
  ring := tracks.ring
  producerHead := tracks.producerHead
  producerTail := tracks.producerTail
  consumerHead := tracks.consumerHead
  consumerTail := tracks.consumerTail
  producing := tracks.producing
  consuming := tracks.consuming
  producerOwners := tracks.producerOwners
  consumerOwners := tracks.consumerOwners
  claimedLe := tracks.claimedLe
  capacity := tracks.capacity
  reach := tracks.reach
  enqueued := tracks.enqueued
  dequeued := tracks.dequeued
  filled := tracks.filled

theorem Kept.look {seen : Cpu → Nat} {cpu : Cpu} (same : seen cpu = h.seen cpu) :
    h.Kept { h with seen := seen } q q cpu where
  mask := rfl
  size := rfl
  seen := same
  reserved := List.prefix_rfl
  claimedLe := Nat.le_refl _
  enqueuedLe := Nat.le_refl _
  dequeuedLe := Nat.le_refl _
  producers := fun _ member _ => member
  consumers := fun _ member _ => member
  cells := fun _ _ _ _ _ => rfl
  producerTail := fun _ _ _ _ => rfl
  consumerTail := fun _ _ _ _ => rfl

end AlfRecord

section Alone

variable {Cpu α : Type} {side : AlfCall α → Bool} {call : Cpu → AlfCall α} {cpu : Cpu}
  {nextCall : AlfCall α}

/-- The next call on `cpu` and the calls of the others on its side are not `single`. -/
def ApartOn (side : AlfCall α → Bool) (call : Cpu → AlfCall α) (cpu : Cpu)
    (nextCall : AlfCall α) : Prop :=
  ∀ other, other ≠ cpu → side (call other) → side nextCall →
    nextCall.single = false ∧ (call other).single = false

/-- A call that goes on to its next step stays on its side. -/
theorem AloneOn.apart (alone : AloneOn side call) (stays : side nextCall → side (call cpu))
    (single : nextCall.single → (call cpu).single) : ApartOn side call cpu nextCall := by
  intro other different onSide goesOn
  constructor
  · rw [Bool.eq_false_iff]
    intro isSingle
    exact different (alone cpu other (stays goesOn) (single isSingle) onSide).symm
  · rw [Bool.eq_false_iff]
    intro isSingle
    exact different (alone other cpu onSide isSingle (stays goesOn))

theorem AloneOn.goTo [DecidableEq Cpu] (alone : AloneOn side call)
    (apart : ApartOn side call cpu nextCall) :
    AloneOn side (Function.update call cpu nextCall) := by
  intro first second
  by_cases one : first = cpu <;> by_cases two : second = cpu
  · intro _ _ _
    rw [one, two]
  · rw [one, Function.update_self, Function.update_of_ne two]
    intro goesOn isSingle onSide
    have free := (apart second two onSide goesOn).1
    exact absurd isSingle (by rw [free]; decide)
  · rw [two, Function.update_self, Function.update_of_ne one]
    intro onSide isSingle goesOn
    have free := (apart first one onSide goesOn).2
    exact absurd isSingle (by rw [free]; decide)
  · rw [Function.update_of_ne one, Function.update_of_ne two]
    exact alone first second

end Alone

namespace AlfWatched

variable {Cpu α : Type} [DecidableEq Cpu] {x : AlfWatched Cpu α} {bits bulk : Nat} {cpu : Cpu}
  {nextQ : AlfQueue α} {nextCall : AlfCall α} {next : AlfRecord Cpu α}

/-- What is to be shown of a step: the record goes on tracking, the other calls are kept, and
the call itself is where its next step expects it. -/
theorem Sound.goTo (sound : x.Sound bits bulk) (tracks : next.Tracks nextQ bits bulk)
    (own : next.Facts nextQ bulk cpu nextCall)
    (kept : ∀ other, other ≠ cpu → x.2.Kept next x.1.q nextQ other)
    (reserves : next.reserved.length ≠ x.2.reserved.length → (x.1.call cpu).enqueues)
    (claims : next.claimed ≠ x.2.claimed → (x.1.call cpu).dequeues)
    (apartProducers : ApartOn AlfCall.enqueues x.1.call cpu nextCall)
    (apartConsumers : ApartOn AlfCall.dequeues x.1.call cpu nextCall)
    (producers : ∀ ticket ∈ next.producers,
      if ticket.owner = cpu then nextCall.storing = true else ticket ∈ x.2.producers)
    (consumers : ∀ ticket ∈ next.consumers,
      if ticket.owner = cpu then nextCall.loading = true else ticket ∈ x.2.consumers) :
    Sound (x.1.goTo cpu nextQ nextCall, next) bits bulk where
  tracks := tracks
  facts := by
    intro other
    by_cases same : other = cpu
    · subst same
      change next.Facts nextQ bulk other (Function.update x.1.call other nextCall other)
      rwa [Function.update_self]
    · change next.Facts nextQ bulk other (Function.update x.1.call cpu nextCall other)
      rw [Function.update_of_ne same]
      refine (kept other same).facts sound.tracks ?_ ?_ (sound.facts other)
      · intro onSide isSingle
        by_contra moved
        exact same (sound.producerAlone other cpu onSide isSingle (reserves moved))
      · intro onSide isSingle
        by_contra moved
        exact same (sound.consumerAlone other cpu onSide isSingle (claims moved))
  producers := by
    intro ticket member
    have held := producers ticket member
    change (Function.update x.1.call cpu nextCall ticket.owner).storing = true
    split at held
    · rename_i own_
      rwa [own_, Function.update_self]
    · rename_i other
      rw [Function.update_of_ne other]
      exact sound.producers ticket held
  consumers := by
    intro ticket member
    have held := consumers ticket member
    change (Function.update x.1.call cpu nextCall ticket.owner).loading = true
    split at held
    · rename_i own_
      rwa [own_, Function.update_self]
    · rename_i other
      rw [Function.update_of_ne other]
      exact sound.consumers ticket held
  producerAlone := sound.producerAlone.goTo apartProducers
  consumerAlone := sound.consumerAlone.goTo apartConsumers

end AlfWatched

end Valet.Bd
