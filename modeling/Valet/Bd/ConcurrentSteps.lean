import Valet.Bd.ConcurrentSound

/-!
# The steps of concurrent calls of the queue

One lemma for each point a call can be at.  A reservation that succeeds was
computed from the head that is still there, so that the room it found is room
still; the publication of a bulk waits until the tail is where the bulk begins,
so that everything behind the tail has been stored.
-/

namespace Valet.Bd

open Valet.Library

/-- The room that an enqueue computes is exact while the head it read is current. -/
theorem sub32_room {released reserved size : Nat} (le : released ≤ reserved)
    (capacity : reserved ≤ released + size) (small : size < u32Range) :
    sub32 (size + released % u32Range) (reserved % u32Range) = size + released - reserved := by
  unfold sub32 u32Range at *
  omega

/-- The elements that a dequeue counts are exact while fewer than `2 ^ 32` positions lie between. -/
theorem sub32_elems {head tail : Nat} (le : head ≤ tail) (few : tail < head + u32Range) :
    sub32 (tail % u32Range) (head % u32Range) = tail - head := by
  unfold sub32 u32Range at *
  omega

/-- Two positions that agree modulo `2 ^ 32` and are less than that apart are one. -/
theorem eq_of_mod_u32 {low high : Nat} (le : low ≤ high) (near : high < low + u32Range)
    (same : low % u32Range = high % u32Range) : low = high := by
  unfold u32Range at *
  omega

namespace AlfRecord

variable {Cpu α : Type} {h : AlfRecord Cpu α} {q : AlfQueue α} {bits bulk : Nat} {cpu : Cpu}

theorem owners_append {tickets : List (Ticket Cpu)} {start count : Nat}
    (distinct : (tickets.map Ticket.owner).Nodup)
    (new : ∀ ticket ∈ tickets, ticket.owner ≠ cpu) :
    ((tickets ++ [(⟨cpu, start, count⟩ : Ticket Cpu)]).map Ticket.owner).Nodup := by
  rw [List.map_append, List.nodup_append]
  refine ⟨distinct, List.nodup_singleton _, ?_⟩
  intro owner member other single same
  obtain ⟨ticket, inTickets, rfl⟩ := List.mem_map.mp member
  obtain rfl : other = cpu := List.mem_singleton.mp single
  exact new ticket inTickets same

theorem Tracks.reserve (tracks : h.Tracks q bits bulk) {ptr : List α} (some_ : 0 < ptr.length)
    (new : ∀ ticket ∈ h.producers, ticket.owner ≠ cpu)
    (room : h.reserved.length + ptr.length ≤ h.dequeued.length + q.size)
    (within : h.reserved.length + ptr.length ≤ h.dequeued.length + 2 ^ bits) :
    (h.reserve cpu ptr).Tracks
      { q with producer :=
        { q.producer with head := (h.reserved.length + ptr.length) % u32Range } } bits bulk where
  ring := ⟨tracks.ring.bitsLe, tracks.ring.lowBits, tracks.ring.sizeRange, tracks.ring.straight⟩
  producerHead := by
    change _ = (h.reserved ++ ptr).length % u32Range
    rw [List.length_append]
  producerTail := tracks.producerTail
  consumerHead := tracks.consumerHead
  consumerTail := tracks.consumerTail
  producing := by
    change Tiles _ _ (h.reserved ++ ptr).length
    rw [List.length_append]
    exact tracks.producing.reserve cpu some_
  consuming := tracks.consuming
  producerOwners := owners_append tracks.producerOwners new
  consumerOwners := tracks.consumerOwners
  claimedLe := tracks.claimedLe
  capacity := by
    change (h.reserved ++ ptr).length ≤ _
    rw [List.length_append]
    exact room
  reach := by
    change (h.reserved ++ ptr).length ≤ _
    rw [List.length_append]
    exact within
  enqueued := by
    change _ = (h.reserved ++ ptr).take h.enqueued.length
    rw [List.take_append_of_le_length tracks.publishedLe]
    exact tracks.enqueued
  dequeued := by
    have released := tracks.releasedLe
    have claimed := tracks.claimedLe
    have published := tracks.publishedLe
    change _ = ((h.reserved ++ ptr).take h.dequeued.length).map some
    rw [List.take_append_of_le_length (by omega)]
    exact tracks.dequeued
  filled := by
    intro position low high
    change position < h.enqueued.length at high
    have published := tracks.publishedLe
    change _ = (h.reserved ++ ptr)[position]?
    rw [List.getElem?_append_left (by omega)]
    exact tracks.filled position low high

theorem Tracks.claim (tracks : h.Tracks q bits bulk) {elems : Nat} (some_ : 0 < elems)
    (new : ∀ ticket ∈ h.consumers, ticket.owner ≠ cpu)
    (room : h.claimed + elems ≤ h.enqueued.length) :
    (h.claim cpu elems).Tracks
      { q with consumer :=
        { q.consumer with head := (h.claimed + elems) % u32Range } } bits bulk where
  ring := ⟨tracks.ring.bitsLe, tracks.ring.lowBits, tracks.ring.sizeRange, tracks.ring.straight⟩
  producerHead := tracks.producerHead
  producerTail := tracks.producerTail
  consumerHead := rfl
  consumerTail := tracks.consumerTail
  producing := tracks.producing
  consuming := tracks.consuming.reserve cpu some_
  producerOwners := tracks.producerOwners
  consumerOwners := owners_append tracks.consumerOwners new
  claimedLe := room
  capacity := tracks.capacity
  reach := tracks.reach
  enqueued := tracks.enqueued
  dequeued := tracks.dequeued
  filled := tracks.filled

theorem Tracks.publish (tracks : h.Tracks q bits bulk) {ptr : List α} {pNext : Nat}
    (storing : h.Storing q cpu ptr h.enqueued.length pNext ptr.length) :
    (h.publish ptr).Tracks
      { q with producer := { q.producer with tail := pNext } } bits bulk := by
  obtain ⟨rest, oldest⟩ := tracks.producing.oldest storing.ticket rfl
  have tiles := tracks.producing
  rw [oldest] at tiles
  have published := tracks.publishedLe
  have inside := (tracks.producing.bounds storing.ticket).2.2
  dsimp only at inside
  exact {
    ring :=
      ⟨tracks.ring.bitsLe, tracks.ring.lowBits, tracks.ring.sizeRange, tracks.ring.straight⟩
    producerHead := tracks.producerHead
    producerTail := by
      change pNext = (h.enqueued ++ ptr).length % u32Range
      rw [List.length_append]
      exact storing.pNext
    consumerHead := tracks.consumerHead
    consumerTail := tracks.consumerTail
    producing := by
      change Tiles (h.enqueued ++ ptr).length h.producers.tail h.reserved.length
      rw [List.length_append, oldest]
      exact tiles.release
    consuming := tracks.consuming
    producerOwners := by
      have distinct := tracks.producerOwners
      rw [oldest] at distinct
      change (h.producers.tail.map Ticket.owner).Nodup
      rw [oldest]
      exact (List.nodup_cons.mp distinct).2
    consumerOwners := tracks.consumerOwners
    claimedLe := by
      have claimed := tracks.claimedLe
      change h.claimed ≤ (h.enqueued ++ ptr).length
      rw [List.length_append]
      omega
    capacity := tracks.capacity
    reach := tracks.reach
    enqueued := by
      change h.enqueued ++ ptr = h.reserved.take (h.enqueued ++ ptr).length
      rw [List.length_append, ← take_append_slice, storing.elements, ← tracks.enqueued]
    dequeued := tracks.dequeued
    filled := by
      intro position low high
      change position < (h.enqueued ++ ptr).length at high
      rw [List.length_append] at high
      rcases Nat.lt_or_ge position h.enqueued.length with before | behind
      · exact tracks.filled position low before
      · have stored := storing.stored (position - h.enqueued.length) (by omega)
        rw [Nat.add_sub_cancel' behind] at stored
        exact stored }

theorem Tracks.handBack (tracks : h.Tracks q bits bulk) {ptr : List (Option α)} {cNext : Nat}
    (loading : h.Loading cpu h.dequeued.length ptr.length cNext ptr) :
    (h.handBack ptr).Tracks
      { q with consumer := { q.consumer with tail := cNext } } bits bulk := by
  obtain ⟨rest, oldest⟩ := tracks.consuming.oldest loading.ticket rfl
  have tiles := tracks.consuming
  rw [oldest] at tiles
  exact {
    ring :=
      ⟨tracks.ring.bitsLe, tracks.ring.lowBits, tracks.ring.sizeRange, tracks.ring.straight⟩
    producerHead := tracks.producerHead
    producerTail := tracks.producerTail
    consumerHead := tracks.consumerHead
    consumerTail := by
      change cNext = (h.dequeued ++ ptr).length % u32Range
      rw [List.length_append]
      exact loading.cNext
    producing := tracks.producing
    consuming := by
      change Tiles (h.dequeued ++ ptr).length h.consumers.tail h.claimed
      rw [List.length_append, oldest]
      exact tiles.release
    producerOwners := tracks.producerOwners
    consumerOwners := by
      have distinct := tracks.consumerOwners
      rw [oldest] at distinct
      change (h.consumers.tail.map Ticket.owner).Nodup
      rw [oldest]
      exact (List.nodup_cons.mp distinct).2
    claimedLe := tracks.claimedLe
    capacity := by
      have capacity := tracks.capacity
      change h.reserved.length ≤ (h.dequeued ++ ptr).length + q.size
      rw [List.length_append]
      omega
    reach := by
      have reach := tracks.reach
      change h.reserved.length ≤ (h.dequeued ++ ptr).length + 2 ^ bits
      rw [List.length_append]
      omega
    enqueued := tracks.enqueued
    dequeued := by
      change h.dequeued ++ ptr = (h.reserved.take (h.dequeued ++ ptr).length).map some
      rw [List.length_append, ← take_append_slice, List.map_append, ← loading.loaded,
        ← tracks.dequeued]
    filled := by
      intro position low high
      change (h.dequeued ++ ptr).length ≤ position at low
      rw [List.length_append] at low
      exact tracks.filled position (by omega) high }

/-- A write to the ring that hits no cell a call will load or has stored. -/
theorem Tracks.storeCell (tracks : h.Tracks q bits bulk) {position : Nat} {value : Option α}
    (low : h.enqueued.length ≤ position) (high : position < h.reserved.length) :
    h.Tracks { q with ring := Function.update q.ring (q.slot position) value } bits bulk where
  ring := ⟨tracks.ring.bitsLe, tracks.ring.lowBits, tracks.ring.sizeRange, tracks.ring.straight⟩
  producerHead := tracks.producerHead
  producerTail := tracks.producerTail
  consumerHead := tracks.consumerHead
  consumerTail := tracks.consumerTail
  producing := tracks.producing
  consuming := tracks.consuming
  producerOwners := tracks.producerOwners
  consumerOwners := tracks.consumerOwners
  claimedLe := tracks.claimedLe
  capacity := tracks.capacity
  reach := tracks.reach
  enqueued := tracks.enqueued
  dequeued := tracks.dequeued
  filled := by
    intro other lowOther highOther
    have reach := tracks.reach
    have released := tracks.releasedLe
    have claimed := tracks.claimedLe
    have different : q.slot other ≠ q.slot position := by
      intro same
      have equal := tracks.ring.slot_inj lowOther (by omega) (show _ ≤ position by omega)
        (by omega) same
      omega
    change Function.update q.ring (q.slot position) value (q.slot other) = _
    rw [Function.update_of_ne different]
    exact tracks.filled other lowOther highOther

section Others

variable {other : Cpu}

theorem Kept.reserve {ptr : List α} {actor : AlfActor} :
    h.Kept (h.reserve cpu ptr) q { q with producer := actor } other where
  mask := rfl
  size := rfl
  seen := rfl
  reserved := List.prefix_append _ _
  claimedLe := Nat.le_refl _
  enqueuedLe := Nat.le_refl _
  dequeuedLe := Nat.le_refl _
  producers := fun _ member _ => List.mem_append_left _ member
  consumers := fun _ member _ => member
  cells := fun _ _ _ _ _ => rfl
  producerTail := fun _ _ _ _ => rfl
  consumerTail := fun _ _ _ _ => rfl

theorem Kept.claim {elems : Nat} {actor : AlfActor} :
    h.Kept (h.claim cpu elems) q { q with consumer := actor } other where
  mask := rfl
  size := rfl
  seen := rfl
  reserved := List.prefix_rfl
  claimedLe := Nat.le_add_right _ _
  enqueuedLe := Nat.le_refl _
  dequeuedLe := Nat.le_refl _
  producers := fun _ member _ => member
  consumers := fun _ member _ => List.mem_append_left _ member
  cells := fun _ _ _ _ _ => rfl
  producerTail := fun _ _ _ _ => rfl
  consumerTail := fun _ _ _ _ => rfl

/-- Only the call with the oldest ticket publishes. -/
theorem Kept.publish (tracks : h.Tracks q bits bulk) {ptr : List α} {actor : AlfActor}
    {ticket : Ticket Cpu} (member : ticket ∈ h.producers)
    (oldest : ticket.start = h.enqueued.length) (different : other ≠ ticket.owner) :
    h.Kept (h.publish ptr) q { q with producer := actor } other := by
  obtain ⟨rest, first⟩ := tracks.producing.oldest member oldest
  exact {
    mask := rfl
    size := rfl
    seen := rfl
    reserved := List.prefix_rfl
    claimedLe := Nat.le_refl _
    enqueuedLe := by
      change h.enqueued.length ≤ (h.enqueued ++ ptr).length
      rw [List.length_append]
      exact Nat.le_add_right _ _
    dequeuedLe := Nat.le_refl _
    producers := by
      intro held inProducers owner
      change held ∈ h.producers.tail
      rw [first] at inProducers ⊢
      rcases List.mem_cons.mp inProducers with rfl | later
      · exact absurd owner.symm different
      · exact later
    consumers := fun _ member _ => member
    cells := fun _ _ _ _ _ => rfl
    producerTail := by
      intro held inProducers owner atTail
      obtain ⟨others, again⟩ := tracks.producing.oldest inProducers atTail
      rw [first] at again
      cases again
      exact absurd owner.symm different
    consumerTail := fun _ _ _ _ => rfl }

theorem Kept.handBack (tracks : h.Tracks q bits bulk) {ptr : List (Option α)}
    {actor : AlfActor} {ticket : Ticket Cpu} (member : ticket ∈ h.consumers)
    (oldest : ticket.start = h.dequeued.length) (different : other ≠ ticket.owner) :
    h.Kept (h.handBack ptr) q { q with consumer := actor } other := by
  obtain ⟨rest, first⟩ := tracks.consuming.oldest member oldest
  exact {
    mask := rfl
    size := rfl
    seen := rfl
    reserved := List.prefix_rfl
    claimedLe := Nat.le_refl _
    enqueuedLe := Nat.le_refl _
    dequeuedLe := by
      change h.dequeued.length ≤ (h.dequeued ++ ptr).length
      rw [List.length_append]
      exact Nat.le_add_right _ _
    producers := fun _ member _ => member
    consumers := by
      intro held inConsumers owner
      change held ∈ h.consumers.tail
      rw [first] at inConsumers ⊢
      rcases List.mem_cons.mp inConsumers with rfl | later
      · exact absurd owner.symm different
      · exact later
    cells := fun _ _ _ _ _ => rfl
    producerTail := fun _ _ _ _ => rfl
    consumerTail := by
      intro held inConsumers owner atTail
      obtain ⟨others, again⟩ := tracks.consuming.oldest inConsumers atTail
      rw [first] at again
      cases again
      exact absurd owner.symm different }

/-- A store goes to a position of the storing call's own ticket. -/
theorem Kept.storeCell (tracks : h.Tracks q bits bulk) {ticket : Ticket Cpu} {k : Nat}
    {value : Option α} (member : ticket ∈ h.producers) (inside : k < ticket.count)
    (different : other ≠ ticket.owner) :
    h.Kept h q { q with ring := Function.update q.ring (q.slot (ticket.start + k)) value }
      other where
  mask := rfl
  size := rfl
  seen := rfl
  reserved := List.prefix_rfl
  claimedLe := Nat.le_refl _
  enqueuedLe := Nat.le_refl _
  dequeuedLe := Nat.le_refl _
  producers := fun _ member _ => member
  consumers := fun _ member _ => member
  cells := by
    intro held inProducers owner j bound
    have reach := tracks.reach
    have released := tracks.releasedLe
    have claimed := tracks.claimedLe
    have own := tracks.producing.bounds member
    have theirs := tracks.producing.bounds inProducers
    refine Function.update_of_ne ?_ _ _
    intro same
    have shared := tracks.ring.slot_inj (show h.dequeued.length ≤ held.start + j by omega)
      (by omega) (show h.dequeued.length ≤ ticket.start + k by omega) (by omega) same
    have one : held = ticket := tracks.producing.eq_of_shared inProducers member
      (Nat.le_add_right held.start j) (by omega) (by omega) (by omega)
    rw [one] at owner
    exact different owner.symm
  producerTail := fun _ _ _ _ => rfl
  consumerTail := fun _ _ _ _ => rfl

end Others

end AlfRecord

namespace AlfWatched

section

variable {Cpu α : Type} {x : AlfWatched Cpu α} {bits bulk : Nat} {cpu : Cpu}

theorem Sound.apart_enqueue (sound : x.Sound bits bulk) {call nextCall : AlfCall α}
    (at_ : x.1.call cpu = call) (onSide : call.enqueues) (off : nextCall.dequeues = false)
    (single : nextCall.single → call.single) :
    ApartOn AlfCall.enqueues x.1.call cpu nextCall ∧
      ApartOn AlfCall.dequeues x.1.call cpu nextCall := by
  subst at_
  refine ⟨sound.producerAlone.apart (fun _ => onSide) single, ?_⟩
  intro other different _ goesOn
  exact absurd goesOn (by rw [off]; decide)

theorem Sound.apart_dequeue (sound : x.Sound bits bulk) {call nextCall : AlfCall α}
    (at_ : x.1.call cpu = call) (onSide : call.dequeues) (off : nextCall.enqueues = false)
    (single : nextCall.single → call.single) :
    ApartOn AlfCall.enqueues x.1.call cpu nextCall ∧
      ApartOn AlfCall.dequeues x.1.call cpu nextCall := by
  subst at_
  refine ⟨?_, sound.consumerAlone.apart (fun _ => onSide) single⟩
  intro other different _ goesOn
  exact absurd goesOn (by rw [off]; decide)

theorem Sound.facts_at (sound : x.Sound bits bulk) {call : AlfCall α}
    (at_ : x.1.call cpu = call) : x.2.Facts x.1.q bulk cpu call := by
  rw [← at_]
  exact sound.facts cpu

end

variable {Cpu α : Type} [DecidableEq Cpu] {x : AlfWatched Cpu α} {bits bulk : Nat} {cpu : Cpu}

/-- The call on `cpu` takes its step. -/
def after (x : AlfWatched Cpu α) (cpu : Cpu) : AlfWatched Cpu α :=
  (x.1.goTo cpu ((x.1.call cpu).advance x.1.q).1 ((x.1.call cpu).advance x.1.q).2,
    x.2.noteCall x.1.q cpu (x.1.call cpu))

/-- A step of an enqueue leaves the tickets of the dequeues alone. -/
theorem Sound.goTo_enqueue (sound : x.Sound bits bulk) {call nextCall : AlfCall α}
    {nextQ : AlfQueue α} {next : AlfRecord Cpu α} (at_ : x.1.call cpu = call)
    (onSide : call.enqueues) (off : nextCall.dequeues = false)
    (single : nextCall.single → call.single) (tracks : next.Tracks nextQ bits bulk)
    (kept : ∀ other, other ≠ cpu → x.2.Kept next x.1.q nextQ other)
    (claimed : next.claimed = x.2.claimed) (consumers : next.consumers = x.2.consumers)
    (own : next.Facts nextQ bulk cpu nextCall)
    (producers : ∀ ticket ∈ next.producers,
      if ticket.owner = cpu then nextCall.storing = true else ticket ∈ x.2.producers) :
    Sound (x.1.goTo cpu nextQ nextCall, next) bits bulk := by
  obtain ⟨apartProducers, apartConsumers⟩ := sound.apart_enqueue at_ onSide off single
  refine sound.goTo tracks own kept (fun _ => at_ ▸ onSide) (fun moved => absurd claimed moved)
    apartProducers apartConsumers producers ?_
  intro ticket member
  rw [consumers] at member
  have loads := sound.consumers ticket member
  split
  · rename_i owner
    rw [owner, at_] at loads
    cases call
    all_goals
      first | exact absurd onSide Bool.false_ne_true | exact absurd loads Bool.false_ne_true
  · exact member

theorem Sound.goTo_dequeue (sound : x.Sound bits bulk) {call nextCall : AlfCall α}
    {nextQ : AlfQueue α} {next : AlfRecord Cpu α} (at_ : x.1.call cpu = call)
    (onSide : call.dequeues) (off : nextCall.enqueues = false)
    (single : nextCall.single → call.single) (tracks : next.Tracks nextQ bits bulk)
    (kept : ∀ other, other ≠ cpu → x.2.Kept next x.1.q nextQ other)
    (reserved : next.reserved = x.2.reserved) (producers : next.producers = x.2.producers)
    (own : next.Facts nextQ bulk cpu nextCall)
    (consumers : ∀ ticket ∈ next.consumers,
      if ticket.owner = cpu then nextCall.loading = true else ticket ∈ x.2.consumers) :
    Sound (x.1.goTo cpu nextQ nextCall, next) bits bulk := by
  obtain ⟨apartProducers, apartConsumers⟩ := sound.apart_dequeue at_ onSide off single
  refine sound.goTo tracks own kept (fun moved => absurd (congrArg List.length reserved) moved)
    (fun _ => at_ ▸ onSide) apartProducers apartConsumers ?_ consumers
  intro ticket member
  rw [producers] at member
  have stores := sound.producers ticket member
  split
  · rename_i owner
    rw [owner, at_] at stores
    cases call
    all_goals
      first | exact absurd onSide Bool.false_ne_true | exact absurd stores Bool.false_ne_true
  · exact member

/-- An enqueue that changes nothing but what it has seen keeps the ticket it has. -/
theorem Sound.look_enqueue (sound : x.Sound bits bulk) {call nextCall : AlfCall α}
    {seen : Cpu → Nat} (at_ : x.1.call cpu = call)
    (others : ∀ other, other ≠ cpu → seen other = x.2.seen other)
    (onSide : call.enqueues) (off : nextCall.dequeues = false)
    (single : nextCall.single → call.single) (storing : call.storing → nextCall.storing)
    (own : AlfRecord.Facts { x.2 with seen := seen } x.1.q bulk cpu nextCall) :
    Sound (x.1.goTo cpu x.1.q nextCall, { x.2 with seen := seen }) bits bulk := by
  refine sound.goTo_enqueue at_ onSide off single (sound.tracks.look seen)
    (fun other different => .look (others other different)) rfl rfl own ?_
  intro ticket member
  split
  · rename_i owner
    apply storing
    rw [← at_, ← owner]
    exact sound.producers ticket member
  · exact member

theorem Sound.look_dequeue (sound : x.Sound bits bulk) {call nextCall : AlfCall α}
    {seen : Cpu → Nat} (at_ : x.1.call cpu = call)
    (others : ∀ other, other ≠ cpu → seen other = x.2.seen other)
    (onSide : call.dequeues) (off : nextCall.enqueues = false)
    (single : nextCall.single → call.single) (loading : call.loading → nextCall.loading)
    (own : AlfRecord.Facts { x.2 with seen := seen } x.1.q bulk cpu nextCall) :
    Sound (x.1.goTo cpu x.1.q nextCall, { x.2 with seen := seen }) bits bulk := by
  refine sound.goTo_dequeue at_ onSide off single (sound.tracks.look seen)
    (fun other different => .look (others other different)) rfl rfl own ?_
  intro ticket member
  split
  · rename_i owner
    apply loading
    rw [← at_, ← owner]
    exact sound.consumers ticket member
  · exact member

theorem Sound.after_enqHead (sound : x.Sound bits bulk) {single : Bool} {ptr : List α}
    (at_ : x.1.call cpu = .enqHead single ptr) : (x.after cpu).Sound bits bulk := by
  obtain ⟨some_, fits⟩ := sound.facts_at at_
  unfold after
  rw [at_]
  refine sound.look_enqueue at_ (fun other different => Function.update_of_ne different _ _)
    rfl rfl id nofun ⟨some_, fits, ?_⟩
  dsimp only
  rw [Function.update_self]
  exact ⟨sound.tracks.producerHead, Nat.le_refl _, fun _ => rfl⟩

theorem Sound.after_enqTail (sound : x.Sound bits bulk) {single : Bool} {ptr : List α}
    {pHead : Nat} (at_ : x.1.call cpu = .enqTail single ptr pHead) :
    (x.after cpu).Sound bits bulk := by
  obtain ⟨some_, fits, read⟩ := sound.facts_at at_
  have tracks := sound.tracks
  unfold after
  rw [at_]
  unfold AlfCall.advance
  dsimp only
  split
  · exact sound.look_enqueue at_ (fun _ _ => rfl) rfl rfl nofun nofun trivial
  · rename_i room
    refine sound.look_enqueue at_ (fun _ _ => rfl) rfl rfl id nofun ⟨some_, fits, read, rfl, ?_⟩
    intro current
    change x.2.seen cpu = x.2.reserved.length at current
    have released := tracks.releasedLe
    have claimed := tracks.claimedLe
    have published := tracks.publishedLe
    have capacity := tracks.capacity
    have space := sub32_room (show x.2.dequeued.length ≤ x.2.reserved.length by omega)
      capacity tracks.ring.sizeRange
    rw [read.value, current, tracks.consumerTail, space] at room
    change x.2.reserved.length + ptr.length ≤ x.2.dequeued.length + x.1.q.size
    omega

theorem swaps_iff {single : Bool} {head expected : Nat} :
    AlfCall.swaps single head expected = true ↔ single = true ∨ head = expected := by
  rw [AlfCall.swaps, Bool.or_eq_true, beq_iff_eq]

theorem Sound.after_enqSwap (sound : x.Sound bits bulk) {single : Bool} {ptr : List α}
    {pHead pNext : Nat} (at_ : x.1.call cpu = .enqSwap single ptr pHead pNext)
    (near : x.2.reserved.length < x.2.seen cpu + u32Range)
    (within : x.2.reserved.length + ptr.length ≤ x.2.dequeued.length + 2 ^ bits ∨
      x.1.q.size ≤ 2 ^ bits) : (x.after cpu).Sound bits bulk := by
  obtain ⟨some_, fits, read, isNext, room⟩ := sound.facts_at at_
  have tracks := sound.tracks
  unfold after
  rw [at_]
  unfold AlfCall.advance AlfRecord.noteCall
  dsimp only
  split
  · rename_i swaps
    have current : x.2.seen cpu = x.2.reserved.length := by
      rcases swaps_iff.mp swaps with alone | same
      · exact read.alone alone
      · rw [tracks.producerHead, read.value] at same
        exact eq_of_mod_u32 read.le near same.symm
    have space := room current
    have fresh : ∀ ticket ∈ x.2.producers, ticket.owner ≠ cpu := by
      intro ticket member owner
      have stores := sound.producers ticket member
      rw [owner, at_] at stores
      exact absurd stores Bool.false_ne_true
    have capacity := tracks.capacity
    have released := tracks.releasedLe
    have claimed := tracks.claimedLe
    have published := tracks.publishedLe
    have small : ptr.length ≤ bulk := by omega
    have head : pHead = x.2.reserved.length % u32Range := by rw [read.value, current]
    have next : pNext = (x.2.reserved.length + ptr.length) % u32Range := by
      rw [isNext, head, Nat.mod_add_mod]
    rw [next]
    refine sound.goTo_enqueue at_ rfl rfl id (tracks.reserve some_ fresh space (by omega))
      (fun _ _ => AlfRecord.Kept.reserve) rfl rfl ?_ ?_
    · refine ⟨x.2.reserved.length, 0, ⟨?_, rfl, slice_new, Nat.zero_le _, nofun⟩, head, ?_⟩
      · exact List.mem_append_right _ List.mem_cons_self
      · rw [tracks.ring.straight pHead _ small, Nat.sub_zero, head]
        apply AlfQueue.pairs_congr
        intro k _
        exact x.1.q.slot_mod_add _ _
    · intro ticket member
      rcases List.mem_append.mp member with old | new
      · rw [if_neg (fresh ticket old)]
        exact old
      · obtain rfl := List.mem_singleton.mp new
        rw [if_pos rfl]
        rfl
  · exact sound.look_enqueue at_ (fun _ _ => rfl) rfl rfl id nofun ⟨some_, fits⟩

/-- A store fills the next cell of the bulk. -/
theorem Sound.after_enqStore (sound : x.Sound bits bulk) {single : Bool} {ptr : List α}
    {pHead pNext : Nat} {todo : List (Nat × Nat)}
    (at_ : x.1.call cpu = .enqStore single ptr pHead pNext todo) :
    (x.after cpu).Sound bits bulk := by
  obtain ⟨start, done, storing, head, rest⟩ := sound.facts_at at_
  have tracks := sound.tracks
  have bounds := tracks.producing.bounds storing.ticket
  dsimp only at bounds
  have doneLe := storing.doneLe
  unfold after
  rw [at_]
  rcases Nat.lt_or_ge done ptr.length with more | none_
  · rw [show ptr.length - done = ptr.length - (done + 1) + 1 by omega,
      AlfQueue.pairs_succ] at rest
    rw [rest]
    have element : x.2.reserved[start + done]? = ptr[done]? := by
      rw [← getElem?_slice more, storing.elements]
    refine sound.goTo_enqueue at_ rfl rfl id
      (tracks.storeCell (by omega) (by omega))
      (fun other different => .storeCell tracks storing.ticket more different) rfl rfl ?_ ?_
    · refine ⟨start, done + 1, ⟨storing.ticket, storing.pNext, storing.elements, more, ?_⟩,
        head, rfl⟩
      intro k bound
      change Function.update x.1.q.ring (x.1.q.slot (start + done)) ptr[done]?
        (x.1.q.slot (start + k)) = _
      have reach := tracks.reach
      have released := tracks.releasedLe
      have claimed := tracks.claimedLe
      rcases Nat.lt_or_eq_of_le (Nat.le_of_lt_succ bound) with before | rfl
      · have different : x.1.q.slot (start + k) ≠ x.1.q.slot (start + done) := by
          intro same
          have equal := tracks.ring.slot_inj (show x.2.dequeued.length ≤ start + k by omega)
            (by omega) (show x.2.dequeued.length ≤ start + done by omega) (by omega) same
          omega
        rw [Function.update_of_ne different]
        exact storing.stored k before
      · rw [Function.update_self]
        exact element.symm
    · intro ticket member
      split
      · rfl
      · exact member
  · obtain rfl : done = ptr.length := by omega
    rw [Nat.sub_self, AlfQueue.pairs_zero] at rest
    rw [rest]
    unfold AlfCall.advance
    cases single with
    | false =>
        exact sound.look_enqueue at_ (fun _ _ => rfl) rfl rfl id (fun _ => rfl)
          ⟨start, storing, head⟩
    | true =>
        -- a producer that is alone has the only ticket, which begins at the tail
        have first : start = x.2.enqueued.length := by
          apply tracks.producing.start_of_only tracks.producerOwners storing.ticket
          intro other member
          have stores := sound.producers other member
          have enqueues : (x.1.call other.owner).enqueues := by
            cases they : x.1.call other.owner <;> rw [they] at stores
            all_goals first | rfl | exact absurd stores Bool.false_ne_true
          exact (sound.producerAlone cpu other.owner (by rw [at_]; rfl) (by rw [at_]; rfl)
            enqueues).symm
        refine sound.look_enqueue at_ (fun _ _ => rfl) rfl rfl id (fun _ => rfl) ?_
        change x.2.Storing x.1.q cpu ptr x.2.enqueued.length pNext ptr.length
        rw [← first]
        exact storing

theorem Sound.after_enqWait (sound : x.Sound bits bulk) {ptr : List α} {pHead pNext : Nat}
    (at_ : x.1.call cpu = .enqWait ptr pHead pNext) : (x.after cpu).Sound bits bulk := by
  obtain ⟨start, storing, head⟩ := sound.facts_at at_
  have tracks := sound.tracks
  unfold after
  rw [at_]
  unfold AlfCall.advance
  dsimp only
  split
  · rename_i reached
    have bounds := tracks.producing.bounds storing.ticket
    have capacity := tracks.capacity
    have released := tracks.releasedLe
    have claimed := tracks.claimedLe
    have small := tracks.ring.sizeRange
    dsimp only at bounds
    rw [tracks.producerTail, head] at reached
    have first := eq_of_mod_u32 bounds.1 (by omega) reached
    refine sound.look_enqueue at_ (fun _ _ => rfl) rfl rfl nofun (fun _ => rfl) ?_
    change x.2.Storing x.1.q cpu ptr x.2.enqueued.length pNext ptr.length
    rw [first]
    exact storing
  · exact sound.look_enqueue at_ (fun _ _ => rfl) rfl rfl nofun (fun _ => rfl)
      ⟨start, storing, head⟩

theorem Sound.after_enqDone (sound : x.Sound bits bulk) {single : Bool} {ptr : List α}
    {pNext : Nat} (at_ : x.1.call cpu = .enqDone single ptr pNext) :
    (x.after cpu).Sound bits bulk := by
  have storing : x.2.Storing x.1.q cpu ptr x.2.enqueued.length pNext ptr.length :=
    sound.facts_at at_
  have tracks := sound.tracks
  obtain ⟨rest, first⟩ := tracks.producing.oldest storing.ticket rfl
  unfold after
  rw [at_]
  refine sound.goTo_enqueue at_ rfl rfl nofun (tracks.publish storing)
    (fun other different => .publish tracks storing.ticket rfl different) rfl rfl trivial ?_
  intro ticket member
  change ticket ∈ x.2.producers.tail at member
  have distinct := tracks.producerOwners
  rw [first, List.map_cons, List.nodup_cons] at distinct
  rw [first] at member ⊢
  rw [if_neg fun owner => distinct.1 (List.mem_map.mpr ⟨ticket, member, owner⟩)]
  exact List.mem_cons_of_mem _ member

theorem Sound.after_deqHead (sound : x.Sound bits bulk) {single : Bool} {n : Nat}
    (at_ : x.1.call cpu = .deqHead single n) : (x.after cpu).Sound bits bulk := by
  obtain ⟨some_, fits⟩ := sound.facts_at at_
  unfold after
  rw [at_]
  refine sound.look_dequeue at_ (fun other different => Function.update_of_ne different _ _)
    rfl rfl id nofun ⟨some_, fits, ?_⟩
  dsimp only
  rw [Function.update_self]
  exact ⟨sound.tracks.consumerHead, Nat.le_refl _, fun _ => rfl⟩

theorem Sound.after_deqTail (sound : x.Sound bits bulk) {single : Bool} {n cHead : Nat}
    (at_ : x.1.call cpu = .deqTail single n cHead) : (x.after cpu).Sound bits bulk := by
  obtain ⟨some_, fits, read⟩ := sound.facts_at at_
  have tracks := sound.tracks
  unfold after
  rw [at_]
  unfold AlfCall.advance
  dsimp only
  split
  · exact sound.look_dequeue at_ (fun _ _ => rfl) rfl rfl nofun nofun trivial
  · rename_i filled
    refine sound.look_dequeue at_ (fun _ _ => rfl) rfl rfl id nofun
      ⟨⟨some_, fits⟩, by omega, Nat.min_le_right _ _, read, rfl, ?_⟩
    intro current
    change x.2.seen cpu = x.2.claimed at current
    have released := tracks.releasedLe
    have claimed := tracks.claimedLe
    have published := tracks.publishedLe
    have capacity := tracks.capacity
    have small := tracks.ring.sizeRange
    have elems := sub32_elems claimed (by omega)
    change x.2.claimed + min (sub32 x.1.q.producer.tail cHead) n ≤ x.2.enqueued.length
    rw [tracks.producerTail, read.value, current, elems]
    omega

theorem Sound.after_deqSwap (sound : x.Sound bits bulk) {single : Bool}
    {n cHead cNext elems : Nat} (at_ : x.1.call cpu = .deqSwap single n cHead cNext elems)
    (near : x.2.claimed < x.2.seen cpu + u32Range) : (x.after cpu).Sound bits bulk := by
  obtain ⟨⟨someN, fits⟩, some_, few, read, isNext, room⟩ := sound.facts_at at_
  have tracks := sound.tracks
  unfold after
  rw [at_]
  unfold AlfCall.advance AlfRecord.noteCall
  dsimp only
  split
  · rename_i swaps
    have current : x.2.seen cpu = x.2.claimed := by
      rcases swaps_iff.mp swaps with alone | same
      · exact read.alone alone
      · rw [tracks.consumerHead, read.value] at same
        exact eq_of_mod_u32 read.le near same.symm
    have available := room current
    have fresh : ∀ ticket ∈ x.2.consumers, ticket.owner ≠ cpu := by
      intro ticket member owner
      have loads := sound.consumers ticket member
      rw [owner, at_] at loads
      exact absurd loads Bool.false_ne_true
    have capacity := tracks.capacity
    have released := tracks.releasedLe
    have published := tracks.publishedLe
    have small : elems ≤ bulk := by omega
    have head : cHead = x.2.claimed % u32Range := by rw [read.value, current]
    have next : cNext = (x.2.claimed + elems) % u32Range := by
      rw [isNext, head, Nat.mod_add_mod]
    rw [next]
    refine sound.goTo_dequeue at_ rfl rfl id (tracks.claim some_ fresh available)
      (fun _ _ => AlfRecord.Kept.claim) rfl rfl ?_ ?_
    · refine ⟨x.2.claimed, elems, ⟨?_, rfl, Nat.zero_le _, ?_⟩, head, ?_⟩
      · exact List.mem_append_right _ List.mem_cons_self
      · exact (congrArg (List.map some) slice_zero).symm
      · rw [tracks.ring.straight cHead _ small, List.length_nil, Nat.sub_zero, head]
        apply AlfQueue.pairs_congr
        intro k _
        exact x.1.q.slot_mod_add _ _
    · intro ticket member
      rcases List.mem_append.mp member with old | new
      · rw [if_neg (fresh ticket old)]
        exact old
      · obtain rfl := List.mem_singleton.mp new
        rw [if_pos rfl]
        rfl
  · exact sound.look_dequeue at_ (fun _ _ => rfl) rfl rfl id nofun ⟨someN, fits⟩

/-- A load takes the element that was published at its position. -/
theorem Sound.after_deqLoad (sound : x.Sound bits bulk) {single : Bool} {cHead cNext : Nat}
    {todo : List (Nat × Nat)} {ptr : List (Option α)}
    (at_ : x.1.call cpu = .deqLoad single cHead cNext todo ptr) :
    (x.after cpu).Sound bits bulk := by
  obtain ⟨start, count, loading, head, rest⟩ := sound.facts_at at_
  have tracks := sound.tracks
  have bounds := tracks.claimed_bounds loading.ticket
  have published := tracks.publishedLe
  dsimp only at bounds
  have loadedLe := loading.loadedLe
  unfold after
  rw [at_]
  rcases Nat.lt_or_ge ptr.length count with more | none_
  · rw [show count - ptr.length = count - (ptr.length + 1) + 1 by omega,
      AlfQueue.pairs_succ] at rest
    rw [rest]
    have inside : start + ptr.length < x.2.reserved.length := by omega
    have cell : x.1.q.ring (x.1.q.slot (start + ptr.length)) =
        some x.2.reserved[start + ptr.length] := by
      rw [tracks.filled _ (by omega) (by omega), List.getElem?_eq_getElem inside]
    refine sound.look_dequeue at_ (fun _ _ => rfl) rfl rfl id (fun _ => rfl) ?_
    refine ⟨start, count, ⟨loading.ticket, loading.cNext, ?_, ?_⟩, head, ?_⟩
    · rw [List.length_append, List.length_singleton]
      exact more
    · rw [List.length_append, List.length_singleton, cell]
      dsimp only
      rw [slice_succ inside, List.map_append, ← loading.loaded]
      rfl
    · rw [List.length_append, List.length_singleton]
  · obtain rfl : count = ptr.length := by omega
    rw [Nat.sub_self, AlfQueue.pairs_zero] at rest
    rw [rest]
    unfold AlfCall.advance
    cases single with
    | false =>
        exact sound.look_dequeue at_ (fun _ _ => rfl) rfl rfl id (fun _ => rfl)
          ⟨start, loading, head⟩
    | true =>
        have first : start = x.2.dequeued.length := by
          apply tracks.consuming.start_of_only tracks.consumerOwners loading.ticket
          intro other member
          have loads := sound.consumers other member
          have dequeues : (x.1.call other.owner).dequeues := by
            cases they : x.1.call other.owner <;> rw [they] at loads
            all_goals first | rfl | exact absurd loads Bool.false_ne_true
          exact (sound.consumerAlone cpu other.owner (by rw [at_]; rfl) (by rw [at_]; rfl)
            dequeues).symm
        refine sound.look_dequeue at_ (fun _ _ => rfl) rfl rfl id (fun _ => rfl) ?_
        change x.2.Loading cpu x.2.dequeued.length ptr.length cNext ptr
        rw [← first]
        exact loading

theorem Sound.after_deqWait (sound : x.Sound bits bulk) {ptr : List (Option α)}
    {cHead cNext : Nat} (at_ : x.1.call cpu = .deqWait cHead cNext ptr) :
    (x.after cpu).Sound bits bulk := by
  obtain ⟨start, loading, head⟩ := sound.facts_at at_
  have tracks := sound.tracks
  unfold after
  rw [at_]
  unfold AlfCall.advance
  dsimp only
  split
  · rename_i reached
    have bounds := tracks.claimed_bounds loading.ticket
    have capacity := tracks.capacity
    have published := tracks.publishedLe
    have small := tracks.ring.sizeRange
    dsimp only at bounds
    rw [tracks.consumerTail, head] at reached
    have first := eq_of_mod_u32 bounds.1 (by omega) reached
    refine sound.look_dequeue at_ (fun _ _ => rfl) rfl rfl nofun (fun _ => rfl) ?_
    change x.2.Loading cpu x.2.dequeued.length ptr.length cNext ptr
    rw [first]
    exact loading
  · exact sound.look_dequeue at_ (fun _ _ => rfl) rfl rfl nofun (fun _ => rfl)
      ⟨start, loading, head⟩

theorem Sound.after_deqDone (sound : x.Sound bits bulk) {single : Bool}
    {ptr : List (Option α)} {cNext : Nat} (at_ : x.1.call cpu = .deqDone single cNext ptr) :
    (x.after cpu).Sound bits bulk := by
  have loading : x.2.Loading cpu x.2.dequeued.length ptr.length cNext ptr :=
    sound.facts_at at_
  have tracks := sound.tracks
  obtain ⟨rest, first⟩ := tracks.consuming.oldest loading.ticket rfl
  unfold after
  rw [at_]
  refine sound.goTo_dequeue at_ rfl rfl nofun (tracks.handBack loading)
    (fun other different => .handBack tracks loading.ticket rfl different) rfl rfl trivial ?_
  intro ticket member
  change ticket ∈ x.2.consumers.tail at member
  have distinct := tracks.consumerOwners
  rw [first, List.map_cons, List.nodup_cons] at distinct
  rw [first] at member ⊢
  rw [if_neg fun owner => distinct.1 (List.mem_map.mpr ⟨ticket, member, owner⟩)]
  exact List.mem_cons_of_mem _ member

end AlfWatched

end Valet.Bd
