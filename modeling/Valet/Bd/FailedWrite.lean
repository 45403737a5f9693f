import Valet.Bd.DataSteps
import Valet.Bd.Layout

/-!
# What becomes of an item that is sent

`request_write` cuts an item that crosses a border in two and sends the second
half first; `remote_sender_fn` queues again what `request_write` hands back.
The pages of the item are looked for in the writes that were posted on the way
and in the items that were put on the sending list.
-/

namespace Valet.Bd

open Valet.Library

namespace AlfQueue

variable {α : Type} {q next : AlfQueue α}

/-- Elements put one after the other. -/
inductive Puts (q : AlfQueue α) : List α → AlfQueue α → Prop where
  | nil : Puts q [] q
  | snoc {middle next : AlfQueue α} {values : List α} {ptr : α} (before : Puts q values middle)
      (put : middle.alfMpEnqueue ptr = some next) : Puts q (values ++ [ptr]) next

theorem Puts.trans {q middle next : AlfQueue α} {values more : List α}
    (start : Puts q values middle) (finish : Puts middle more next) :
    Puts q (values ++ more) next := by
  induction finish with
  | nil => rwa [List.append_nil]
  | snoc before put ih =>
      rw [← List.append_assoc]
      exact .snoc ih put

theorem Puts.single {ptr : α} (put : q.alfMpEnqueue ptr = some next) : Puts q [ptr] next :=
  .snoc .nil put

/-- An enqueue appends to the elements that were put within the reach of the ring. -/
theorem Ready.contents_drop_enqueue {ptr : α} {count : Nat} (ready : q.Ready)
    (within : count ≤ q.alfQueueCount) (few : q.alfQueueCount < count + ringReach)
    (put : q.alfMpEnqueue ptr = some next) :
    next.contents.drop count = q.contents.drop count ++ [ptr] := by
  obtain ⟨consumer, _, mask, _, _, counts, _, ring⟩ := ready.sound.enqueue_spec put
  have slots : next.slot = q.slot := by
    funext position
    rw [slot, slot, mask]
  have reach : ringReach = 2 ^ 18 := by decide
  have lowBits := ready.lowBits
  rw [reach] at few lowBits
  have held : next.held.drop count = q.held.drop count ++ [some ptr] := by
    obtain ⟨later, split⟩ := Nat.exists_eq_add_of_le within
    have fresh (offset : Nat) (bound : offset < later) :
        q.slot (q.consumer.head + count + offset) ≠ q.slot (q.consumer.head + count + later) :=
      q.slot_ne_of_close (by decide) lowBits bound (by omega)
    have pushed := window_push q.ring q.slot (some ptr) fresh
    rw [AlfQueue.held, AlfQueue.held, counts, consumer, ring, slots, split, window_drop,
      window_drop, Nat.add_sub_cancel_left, Nat.add_assoc count, Nat.add_sub_cancel_left,
      ← Nat.add_assoc]
    exact pushed
  apply List.map_injective_iff.mpr (Option.some_injective α)
  rw [List.map_append, List.map_drop, List.map_drop, ← (ready.enqueue put).sound.held_eq,
    ← ready.sound.held_eq, held]
  rfl

/-- What was put within the reach of the ring stands at the end of the contents. -/
theorem Puts.contents_drop {values : List α} (ready : q.Ready) (puts : Puts q values next)
    (few : values.length ≤ ringReach) :
    next.Ready ∧ next.alfQueueCount = q.alfQueueCount + values.length ∧
      next.contents.drop q.contents.length = values := by
  induction puts with
  | nil => exact ⟨ready, rfl, List.drop_length⟩
  | snoc before put ih =>
      rw [List.length_append, List.length_singleton] at few
      obtain ⟨middleReady, counts, drops⟩ := ih (Nat.le_of_succ_le few)
      obtain ⟨_, _, _, _, _, count, _⟩ := middleReady.sound.enqueue_spec put
      refine ⟨middleReady.enqueue put, ?_, ?_⟩
      · rw [count, counts, List.length_append, List.length_singleton, Nat.add_assoc]
      · rw [ready.sound.contents_length] at drops ⊢
        rw [middleReady.contents_drop_enqueue (by omega) (by omega) put, drops]

end AlfQueue

namespace Machine

variable {cpus servers : Nat} {Data Req : Type} {m next : Machine cpus servers Data Req}

/-- The items that were put on the sending list between two states. -/
def newlyQueued (m next : Machine cpus servers Data Req) : List LocalPageList :=
  next.sendingList.contents.drop m.sendingList.contents.length

/-- The items of the writes that were posted between two states. -/
def newlyPosted (m next : Machine cpus servers Data Req) : List LocalPageList :=
  pooled fun cb =>
    ((next.conns cb).writes.drop (m.conns cb).writes.length).flatMap RdmaCtx.items

/-- Every page of the item is in a posted write or in an item on the sending list and not in
both, and each of these lists its pages from its own start index on. -/
structure PlacedOnce (m next : Machine cpus servers Data Req) (item : LocalPageList) : Prop where
  wellFormed : ∀ part ∈ newlyPosted m next ++ newlyQueued m next, part.WellFormed
  once : ∀ entry ∈ item.batchList, Xor (∃ part ∈ newlyPosted m next, entry ∈ part.batchList)
    (∃ part ∈ newlyQueued m next, entry ∈ part.batchList)

/-- The step posts and queues these items and does no more to the queue and the connections. -/
structure Hands (m : Machine cpus servers Data Req) (posted queued : List LocalPageList)
    (next : Machine cpus servers Data Req) : Prop where
  queued : AlfQueue.Puts m.sendingList queued next.sendingList
  posted : ∃ added : Fin servers → List (RdmaCtx servers Data),
    (∀ cb, (next.conns cb).writes = (m.conns cb).writes ++ added cb) ∧
      ∀ item, item ∈ (pooled fun cb => (added cb).flatMap RdmaCtx.items) ↔ item ∈ posted

theorem Hands.trans {middle : Machine cpus servers Data Req}
    {posted more queued others : List LocalPageList} (start : Hands m posted queued middle)
    (finish : Hands middle more others next) :
    Hands m (posted ++ more) (queued ++ others) next := by
  obtain ⟨added, writes, items⟩ := start.posted
  obtain ⟨later, writesLater, itemsLater⟩ := finish.posted
  refine ⟨start.queued.trans finish.queued, fun cb => added cb ++ later cb, ?_, ?_⟩
  · intro cb
    rw [writesLater, writes, List.append_assoc]
  · intro item
    rw [List.mem_append, ← items, ← itemsLater]
    simp only [mem_pooled, List.flatMap_append, List.mem_append]
    exact exists_or

theorem hands_nothing (queue : next.sendingList = m.sendingList) (conns : next.conns = m.conns) :
    Hands m [] [] next := by
  refine ⟨?_, fun _ => [], ?_, ?_⟩
  · rw [queue]
    exact .nil
  · intro cb
    rw [conns, List.append_nil]
  · intro item
    simp

theorem hands_queued {item : LocalPageList} {queue : AlfQueue LocalPageList}
    (put : m.sendingList.alfMpEnqueue item = some queue) :
    Hands m [] [item] { m with sendingList := queue } := by
  refine ⟨.single put, fun _ => [], fun cb => (List.append_nil _).symm, ?_⟩
  intro item
  simp

/-- The part ends up in one place: a posted write, or an item on the sending list. -/
inductive Goes (part : LocalPageList) :
    List LocalPageList → List LocalPageList → Prop where
  | posted : Goes part [{ part with refCount := 0 }] []
  | queued : Goes part [] [part]

/-- An item that `rdma_write` does not fail on has its place. -/
theorem RdmaWrites.hands {target : Option (Target servers)} {offset : Nat} {tmp : LocalPageList}
    (writes : RdmaWrites m target offset tmp false next) :
    ∃ posted queued, Goes tmp posted queued ∧ Hands m posted queued next := by
  cases writes with
  | bounced found readonly put => exact ⟨_, _, .queued, hands_queued put⟩
  | @sent block ctx rest found writable ok free =>
      refine ⟨_, _, .posted, .nil, Function.update (fun _ => []) block.cb
        [loadCtx m.store ctx block offset tmp], ?_, ?_⟩
      · intro cb
        dsimp only
        rcases eq_or_ne cb block.cb with rfl | other
        · rw [Function.update_self, Function.update_self, Channel.writes_post_write]
        · rw [Function.update_of_ne other, Function.update_of_ne other, List.append_nil]
      · intro item
        rw [mem_pooled]
        constructor
        · rintro ⟨cb, member⟩
          rcases eq_or_ne cb block.cb with rfl | other
          · rw [Function.update_self] at member
            simpa [loadCtx, RdmaCtx.items] using member
          · rw [Function.update_of_ne other] at member
            cases member
        · intro member
          refine ⟨block.cb, ?_⟩
          rw [Function.update_self]
          simpa [loadCtx, RdmaCtx.items] using member

/-- An item that `rdma_write` fails on is left to the caller. -/
theorem RdmaWrites.hands_failed {target : Option (Target servers)} {offset : Nat}
    {tmp : LocalPageList} (writes : RdmaWrites m target offset tmp true next) :
    refuses target = true ∧ Hands m [] [] next := by
  cases writes with
  | refused noCb =>
      rw [noCb]
      exact ⟨rfl, hands_nothing rfl rfl⟩
  | failed found writable error free =>
      rw [found]
      exact ⟨by simp [refuses, writable, error], hands_nothing rfl rfl⟩

theorem RdmaWrites.not_refused {target : Option (Target servers)} {offset : Nat}
    {tmp : LocalPageList} (writes : RdmaWrites m target offset tmp false next) :
    refuses target = false := by
  cases writes with
  | bounced found readonly put =>
      rw [found]
      simp [refuses, readonly]
  | sent found writable ok free =>
      rw [found]
      simp [refuses, ok]

/-- An item that is sent and, after a failure, queued again, has its place. -/
theorem RdmaWrites.hands_again {target : Option (Target servers)} {offset : Nat}
    {tmp : LocalPageList} {failed : Bool} {last : Machine cpus servers Data Req}
    (writes : RdmaWrites m target offset tmp failed next)
    (again : if failed then ∃ queue, next.sendingList.alfMpEnqueue tmp = some queue ∧
      last = { next with sendingList := queue } else last = next) :
    ∃ posted queued, Goes tmp posted queued ∧ Hands m posted queued last := by
  cases failed with
  | false =>
      rw [again]
      exact writes.hands
  | true =>
      obtain ⟨queue, put, rfl⟩ := again
      exact ⟨_, _, .queued, writes.hands_failed.2.trans (hands_queued put)⟩

/-- What the sending part of `remote_sender_fn` does to an item: as a whole, in halves, or with
the second half dropped. -/
inductive HandsOver (m : Machine cpus servers Data Req) (targets : Nat → Option (Target servers))
    (item : LocalPageList) (next : Machine cpus servers Data Req) : Prop where
  | whole {posted queued : List LocalPageList} (inside : item.crossesBorder = false)
      (placement : Goes item posted queued) (hands : Hands m posted queued next)
  | halves {posted more queued others : List LocalPageList}
      (crosses : item.crossesBorder = true)
      (taken : refuses (targets item.secondHalf.swapspaceIndex) = false)
      (second : Goes item.secondHalf posted queued)
      (first : Goes item.firstHalf more others)
      (hands : Hands m (posted ++ more) (queued ++ others) next)
  | dropped (crosses : item.crossesBorder = true)
      (refused : refuses (targets item.secondHalf.swapspaceIndex) = true)
      (hands : Hands m [] [item.firstHalf] next)

theorem Hands.senders {posted queued : List LocalPageList} (hands : Hands m posted queued next)
    (senders : Fin cpus → Sender) : Hands m posted queued { next with senders := senders } :=
  ⟨hands.queued, hands.posted⟩

theorem Sends.handsOver {cpu : Fin cpus} {targets : Nat → Option (Target servers)}
    {tmpFirst : LocalPageList} {tmp : Option LocalPageList}
    (sends : Sends m cpu targets tmpFirst tmp next) : HandsOver m targets tmpFirst next := by
  cases sends with
  | sent writes =>
      cases writes with
      | whole inside writes =>
          obtain ⟨posted, queued, placement, hands⟩ := writes.hands
          exact .whole inside placement (hands.senders _)
      | halves crosses second first =>
          obtain ⟨posted, queued, placement, hands⟩ := second.hands
          obtain ⟨more, others, placementFirst, handsFirst⟩ := first.hands
          exact .halves crosses second.not_refused placement placementFirst
            ((hands.trans handsFirst).senders _)
  | again writes put =>
      cases writes with
      | whole inside writes =>
          obtain ⟨posted, queued, placement, hands⟩ := writes.hands_again ⟨_, put, rfl⟩
          exact .whole inside placement (hands.senders _)
      | lost crosses second =>
          obtain ⟨refused, nothing⟩ := second.hands_failed
          exact .dropped crosses refused ((nothing.trans (hands_queued put)).senders _)
      | halves crosses second first =>
          obtain ⟨posted, queued, placement, hands⟩ := second.hands
          obtain ⟨more, others, placementFirst, handsFirst⟩ := first.hands_again ⟨_, put, rfl⟩
          exact .halves crosses second.not_refused placement placementFirst
            ((hands.trans handsFirst).senders _)

theorem Hands.newlyQueued_eq {posted queued : List LocalPageList}
    (ready : m.sendingList.Ready) (few : queued.length ≤ AlfQueue.ringReach)
    (hands : Hands m posted queued next) : newlyQueued m next = queued :=
  (hands.queued.contents_drop ready few).2.2

theorem Hands.mem_newlyPosted {posted queued : List LocalPageList} {item : LocalPageList}
    (hands : Hands m posted queued next) : item ∈ newlyPosted m next ↔ item ∈ posted := by
  obtain ⟨added, writes, items⟩ := hands.posted
  rw [← items]
  simp only [newlyPosted, mem_pooled, writes, List.drop_left]

variable {part : LocalPageList} {posted queued : List LocalPageList}

theorem Goes.few (placement : Goes part posted queued) : queued.length ≤ 1 := by
  cases placement with
  | posted => exact Nat.zero_le _
  | queued => exact Nat.le_refl _

theorem Goes.wellFormed (placement : Goes part posted queued)
    (wellFormed : part.WellFormed) : ∀ other ∈ posted ++ queued, other.WellFormed := by
  intro other member
  cases placement with
  | posted =>
      cases List.mem_singleton.mp member
      exact ⟨wellFormed.batch, wellFormed.nonempty, wellFormed.fits, wellFormed.inDevice⟩
  | queued =>
      cases List.mem_singleton.mp member
      exact wellFormed

/-- The entries of a part with a place are posted or queued, and no others are. -/
theorem Goes.listed (placement : Goes part posted queued) (entry : Nat) :
    ((∃ other ∈ posted, entry ∈ other.batchList) ↔ posted ≠ [] ∧ entry ∈ part.batchList) ∧
      ((∃ other ∈ queued, entry ∈ other.batchList) ↔ posted = [] ∧ entry ∈ part.batchList) := by
  cases placement with
  | posted => simp
  | queued => simp

theorem disjoint_halves {item : LocalPageList} (wellFormed : item.WellFormed) {entry : Nat}
    (first : entry ∈ item.firstHalf.batchList) : entry ∉ item.secondHalf.batchList := by
  have nodup : item.batchList.Nodup := by
    rw [wellFormed.batch]
    exact List.nodup_range'
  rw [← List.take_append_drop item.border item.batchList] at nodup
  exact fun second => List.disjoint_of_nodup_append nodup first second

/-- The pages of the item are in one place each exactly when no half is dropped. -/
theorem HandsOver.placedOnce_iff {targets : Nat → Option (Target servers)} {item : LocalPageList}
    (ready : m.sendingList.Ready) (wellFormed : item.WellFormed)
    (handsOver : HandsOver m targets item next) :
    PlacedOnce m next item ↔ loses targets item = false := by
  cases handsOver with
  | @whole posted queued inside placement hands =>
      have few : queued.length ≤ AlfQueue.ringReach := le_trans placement.few (by decide)
      have kept : loses targets item = false := by rw [loses, inside, Bool.false_and]
      refine ⟨fun _ => kept, fun _ => ⟨?_, ?_⟩⟩
      · intro part member
        rw [List.mem_append, hands.mem_newlyPosted, hands.newlyQueued_eq ready few,
          ← List.mem_append] at member
        exact placement.wellFormed wellFormed part member
      · intro entry listed
        obtain ⟨inPosted, inQueued⟩ := placement.listed entry
        simp only [hands.mem_newlyPosted, hands.newlyQueued_eq ready few, inPosted, inQueued,
          listed, and_true]
        exact xor_not_left.mpr Iff.rfl
  | @halves posted more queued others crosses taken second first hands =>
      have few : (queued ++ others).length ≤ AlfQueue.ringReach := by
        have two := Nat.add_le_add second.few first.few
        rw [List.length_append]
        exact le_trans two (by decide)
      have kept : loses targets item = false := by rw [loses, taken, Bool.and_false]
      obtain ⟨firstFormed, _⟩ := LocalPageList.firstHalf_wellFormed wellFormed crosses
      obtain ⟨secondFormed, _⟩ := LocalPageList.secondHalf_wellFormed wellFormed crosses
      refine ⟨fun _ => kept, fun _ => ⟨?_, ?_⟩⟩
      · intro part member
        rw [List.mem_append, hands.mem_newlyPosted, hands.newlyQueued_eq ready few] at member
        have ofSecond := second.wellFormed secondFormed part
        have ofFirst := first.wellFormed firstFormed part
        simp only [List.mem_append] at member ofSecond ofFirst
        tauto
      · intro entry listed
        obtain ⟨secondPosted, secondQueued⟩ := second.listed entry
        obtain ⟨firstPosted, firstQueued⟩ := first.listed entry
        have halves : entry ∈ item.firstHalf.batchList ∨ entry ∈ item.secondHalf.batchList := by
          rw [← List.take_append_drop item.border item.batchList, List.mem_append] at listed
          exact listed
        simp only [hands.mem_newlyPosted, hands.newlyQueued_eq ready few, List.mem_append, or_and_right,
          exists_or, secondPosted, secondQueued, firstPosted, firstQueued]
        rcases halves with inFirst | inSecond
        · have apart := disjoint_halves wellFormed inFirst
          simp only [apart, inFirst, and_true, and_false, false_or]
          exact xor_not_left.mpr Iff.rfl
        · have apart : entry ∉ item.firstHalf.batchList :=
            fun inFirst => disjoint_halves wellFormed inFirst inSecond
          simp only [apart, inSecond, and_true, and_false, or_false]
          exact xor_not_left.mpr Iff.rfl
  | dropped crosses refused hands =>
      have few : [item.firstHalf].length ≤ AlfQueue.ringReach := by
        rw [List.length_singleton]
        decide
      have lost : loses targets item = true := by rw [loses, crosses, refused, Bool.true_and]
      rw [lost]
      refine ⟨fun placed => ?_, fun kept => by cases kept⟩
      -- the first page of the second half is nowhere
      obtain ⟨secondFormed, _⟩ := LocalPageList.secondHalf_wellFormed wellFormed crosses
      have inSecond : item.secondHalf.startIndex ∈ item.secondHalf.batchList :=
        secondFormed.mem.mpr ⟨0, secondFormed.nonempty, rfl⟩
      have once := placed.once _ (List.mem_of_mem_drop inSecond)
      simp only [hands.mem_newlyPosted, hands.newlyQueued_eq ready few, List.not_mem_nil,
        List.mem_singleton, false_and, exists_false, exists_eq_left] at once
      rcases once with ⟨posted, _⟩ | ⟨queued, _⟩
      · exact posted.elim
      · exact absurd inSecond (disjoint_halves wellFormed queued)

/-- Every page of an item that a sender sends ends up in a posted write or on the sending list,
exactly unless the item crosses a border and the write of its second half fails. -/
theorem senderSend_places_iff {cpu : Fin cpus} {targets : Nat → Option (Target servers)}
    {tmpFirst : LocalPageList} {tmp : Option LocalPageList} (ready : m.sendingList.Ready)
    (wellFormed : tmpFirst.WellFormed) (ran : m.senderSend cpu targets tmpFirst tmp = .ok next) :
    PlacedOnce m next tmpFirst ↔ loses targets tmpFirst = false :=
  (sends_of_ok ran).handsOver.placedOnce_iff ready wellFormed

/-- Two pages on both sides of the first border. -/
def crossingItem : LocalPageList := ⟨262143, [262143, 262144], 0⟩

theorem crossingItem_wellFormed : crossingItem.WellFormed :=
  ⟨by decide, by decide, by decide, by decide⟩

/-- A client with a few contexts. -/
def freshClient : Machine 1 1 Nat Nat := init 1 AlfQueue.maxPoolPages 4 4

/-- The first swapspace is mapped and takes writes; the others are as given. -/
def firstMapped (others : Option (Target 1)) (swapspace : Nat) : Option (Target 1) :=
  if swapspace = 0 then some ⟨0, 0, .active, true⟩ else others

theorem senderSend_places_both : ∃ next, freshClient.senderSend 0
    (firstMapped (some ⟨0, 1, .readonly, true⟩)) crossingItem none = .ok next ∧
      PlacedOnce freshClient next crossingItem := by
  have ran : (freshClient.senderSend 0 (firstMapped (some ⟨0, 1, .readonly, true⟩)) crossingItem
      none).toOption.isSome = true := by
    decide +kernel
  obtain ⟨next, sent⟩ := Option.isSome_iff_exists.mp ran
  have sent := toOption_eq_some sent
  exact ⟨next, sent, (senderSend_places_iff AlfQueue.ready_alloc crossingItem_wellFormed sent).mpr
    (by decide +kernel)⟩

/-- The second swapspace cannot be mapped, so the second page is gone. -/
theorem senderSend_loses_half : ¬ ∀ (m next : Machine 1 1 Nat Nat) (cpu : Fin 1)
    (targets : Nat → Option (Target 1)) (tmpFirst : LocalPageList) (tmp : Option LocalPageList),
    m.sendingList.Ready → tmpFirst.WellFormed →
      m.senderSend cpu targets tmpFirst tmp = .ok next → PlacedOnce m next tmpFirst := by
  intro claim
  have ran : (freshClient.senderSend 0 (firstMapped none) crossingItem none).toOption.isSome =
      true := by
    decide +kernel
  obtain ⟨next, sent⟩ := Option.isSome_iff_exists.mp ran
  have sent := toOption_eq_some sent
  have placed := claim _ _ _ _ _ _ AlfQueue.ready_alloc crossingItem_wellFormed sent
  have kept : loses (firstMapped none) crossingItem = false :=
    ((sends_of_ok sent).handsOver.placedOnce_iff AlfQueue.ready_alloc
      crossingItem_wellFormed).mp placed
  exact absurd kept (by decide +kernel)

end Machine

end Valet.Bd
