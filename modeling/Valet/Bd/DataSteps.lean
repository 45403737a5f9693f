import Valet.Bd.DataPath

/-!
# What the steps of the data path do

An item that was queued stays on its way through the sending list, a sender
and a connection until its completion is handled.  `outstanding` lists the
items on their way and `pending` counts how often they mention an entry.  Each
step is described once, by what it does to the page store and to that count.
-/

namespace Valet.Bd

open Valet.Library

/-- How often an item lists an entry. -/
def LocalPageList.mentions (index : Nat) (item : LocalPageList) : Nat :=
  item.batchList.count index

/-- The items that a sender holds. -/
def Sender.items : Sender → List LocalPageList
  | idle => []
  | fetch tmpFirst _ => tmpFirst.toList
  | send tmpFirst tmp => tmpFirst :: tmp.toList

def RdmaCtx.items {servers : Nat} {Data : Type} (ctx : RdmaCtx servers Data) :
    List LocalPageList := ctx.sendingItem.toList

namespace Machine

variable {cpus servers : Nat} {Data Req : Type}

/-- The items that are queued or with a sender. -/
def unposted (m : Machine cpus servers Data Req) : List LocalPageList :=
  m.sendingList.contents ++ pooled fun cpu => (m.senders cpu).items

/-- The items of the writes whose completion is not handled yet. -/
def posted (m : Machine cpus servers Data Req) : List LocalPageList :=
  pooled fun cb => (m.conns cb).writes.flatMap RdmaCtx.items

def outstanding (m : Machine cpus servers Data Req) : List LocalPageList :=
  m.unposted ++ m.posted

/-- How often the outstanding items list an entry. -/
def pending (m : Machine cpus servers Data Req) (index : Nat) : Nat :=
  tally (LocalPageList.mentions index) m.outstanding

theorem pending_eq (m : Machine cpus servers Data Req) (index : Nat) :
    m.pending index = tally (LocalPageList.mentions index) m.unposted +
      tally (LocalPageList.mentions index) m.posted := tally_append _ _ _

/-- An entry is pending exactly when some outstanding item lists it. -/
theorem pending_pos {m : Machine cpus servers Data Req} {index : Nat} :
    0 < m.pending index ↔ ∃ item ∈ m.outstanding, index ∈ item.batchList := by
  constructor
  · intro positive
    obtain ⟨item, member, listed⟩ := exists_of_tally_pos positive
    exact ⟨item, member, List.count_pos_iff.mp listed⟩
  · rintro ⟨item, member, listed⟩
    have bound : item.mentions index ≤ m.pending index := le_tally_of_mem member
    exact Nat.lt_of_lt_of_le (List.count_pos_iff.mpr listed) bound

/-! ## Sending -/

theorem putSendingIndex_ok {m next : Machine cpus servers Data Req} {item : LocalPageList}
    (ran : m.putSendingIndex item = .ok next) :
    ∃ queue, m.sendingList.alfMpEnqueue item = some queue ∧
      next = { m with sendingList := queue } := by
  unfold putSendingIndex at ran
  cases put : m.sendingList.alfMpEnqueue item with
  | none =>
      rw [put] at ran
      cases ran
  | some queue =>
      rw [put] at ran
      cases ran
      exact ⟨queue, rfl, rfl⟩

/-- The outcomes of `rdma_write`. -/
inductive RdmaWrites (m : Machine cpus servers Data Req) (target : Option (Target servers))
    (offset : Nat) (tmp : LocalPageList) : Bool → Machine cpus servers Data Req → Prop where
  | refused (noCb : target = none) : RdmaWrites m target offset tmp true m
  | bounced {block : Target servers} {queue : AlfQueue LocalPageList}
      (found : target = some block)
      (readonly : block.rbState.code ≥ RemoteBlockState.readonly.code)
      (put : m.sendingList.alfMpEnqueue tmp = some queue) :
      RdmaWrites m target offset tmp false { m with sendingList := queue }
  | failed {block : Target servers} {ctx : RdmaCtx servers Data}
      {rest : List (RdmaCtx servers Data)} (found : target = some block)
      (writable : ¬ block.rbState.code ≥ RemoteBlockState.readonly.code)
      (error : block.postOk = false) (free : m.writeFreepool = ctx :: rest) :
      RdmaWrites m target offset tmp true { m with writeFreepool := rest }
  | sent {block : Target servers} {ctx : RdmaCtx servers Data}
      {rest : List (RdmaCtx servers Data)} (found : target = some block)
      (writable : ¬ block.rbState.code ≥ RemoteBlockState.readonly.code)
      (ok : block.postOk = true) (free : m.writeFreepool = ctx :: rest) :
      RdmaWrites m target offset tmp false { m with
        writeFreepool := rest
        conns := Function.update m.conns block.cb ((m.conns block.cb).post
          (.write (cells (loadCtx m.store ctx block offset tmp) block.rbIndex)
            (loadCtx m.store ctx block offset tmp))) }

theorem rdmaWrites_of_ok {m next : Machine cpus servers Data Req}
    {target : Option (Target servers)} {offset : Nat} {tmp : LocalPageList} {failed : Bool}
    (ran : m.rdmaWrite target offset tmp = .ok (failed, next)) :
    RdmaWrites m target offset tmp failed next := by
  unfold rdmaWrite at ran
  cases target with
  | none =>
      cases ran
      exact .refused rfl
  | some block =>
      dsimp only at ran
      by_cases readonly : block.rbState.code ≥ RemoteBlockState.readonly.code
      · rw [if_pos readonly] at ran
        obtain ⟨middle, put, pair⟩ := bind_eq_ok.mp ran
        cases pair
        obtain ⟨queue, queued, rfl⟩ := putSendingIndex_ok put
        exact .bounced rfl readonly queued
      · rw [if_neg readonly] at ran
        cases free : m.writeFreepool with
        | nil =>
            rw [free] at ran
            cases ran
        | cons ctx rest =>
            rw [free] at ran
            dsimp only at ran
            cases ok : block.postOk with
            | false =>
                rw [ok] at ran
                cases ran
                exact .failed rfl readonly ok free
            | true =>
                rw [ok] at ran
                cases ran
                exact .sent rfl readonly ok free

/-- The outcomes of `request_write`, with the item as the call leaves it. -/
inductive RequestsWrite (m : Machine cpus servers Data Req)
    (targets : Nat → Option (Target servers)) (tmp : LocalPageList) :
    Bool → LocalPageList → Machine cpus servers Data Req → Prop where
  | whole {failed : Bool} {next : Machine cpus servers Data Req}
      (inside : tmp.crossesBorder = false)
      (writes : RdmaWrites m (targets tmp.swapspaceIndex) tmp.rbOffset tmp failed next) :
      RequestsWrite m targets tmp failed tmp next
  | lost {next : Machine cpus servers Data Req} (crosses : tmp.crossesBorder = true)
      (second : RdmaWrites m (targets tmp.secondHalf.swapspaceIndex) tmp.secondHalf.rbOffset
        tmp.secondHalf true next) :
      RequestsWrite m targets tmp true tmp.firstHalf next
  | halves {failed : Bool} {middle next : Machine cpus servers Data Req}
      (crosses : tmp.crossesBorder = true)
      (second : RdmaWrites m (targets tmp.secondHalf.swapspaceIndex) tmp.secondHalf.rbOffset
        tmp.secondHalf false middle)
      (first : RdmaWrites middle (targets tmp.swapspaceIndex) tmp.rbOffset tmp.firstHalf
        failed next) :
      RequestsWrite m targets tmp failed tmp.firstHalf next

theorem requestsWrite_of_ok {m next : Machine cpus servers Data Req}
    {targets : Nat → Option (Target servers)} {tmp item : LocalPageList} {failed : Bool}
    (ran : m.requestWrite targets tmp = .ok (failed, item, next)) :
    RequestsWrite m targets tmp failed item next := by
  unfold requestWrite at ran
  cases crosses : tmp.crossesBorder with
  | false =>
      rw [crosses] at ran
      obtain ⟨⟨wrong, middle⟩, write, pair⟩ := bind_eq_ok.mp ran
      cases pair
      exact .whole crosses (rdmaWrites_of_ok write)
  | true =>
      rw [crosses] at ran
      obtain ⟨⟨wrong, middle⟩, second, rest⟩ := bind_eq_ok.mp ran
      cases wrong with
      | true =>
          cases rest
          exact .lost crosses (rdmaWrites_of_ok second)
      | false =>
          obtain ⟨⟨wrong, last⟩, first, pair⟩ := bind_eq_ok.mp rest
          cases pair
          exact .halves crosses (rdmaWrites_of_ok second) (rdmaWrites_of_ok first)

/-- The sender after the turn of the loop that sent its item. -/
def afterSend (tmp : Option LocalPageList) : Sender :=
  match tmp with
  | none => .idle
  | some tmp => .fetch (some tmp) true

/-- The outcomes of the sending part of `remote_sender_fn`. -/
inductive Sends (m : Machine cpus servers Data Req) (cpu : Fin cpus)
    (targets : Nat → Option (Target servers)) (tmpFirst : LocalPageList)
    (tmp : Option LocalPageList) : Machine cpus servers Data Req → Prop where
  | sent {item : LocalPageList} {middle : Machine cpus servers Data Req}
      (writes : RequestsWrite m targets tmpFirst false item middle) :
      Sends m cpu targets tmpFirst tmp
        { middle with senders := Function.update middle.senders cpu (afterSend tmp) }
  | again {item : LocalPageList} {middle : Machine cpus servers Data Req}
      {queue : AlfQueue LocalPageList}
      (writes : RequestsWrite m targets tmpFirst true item middle)
      (put : middle.sendingList.alfMpEnqueue item = some queue) :
      Sends m cpu targets tmpFirst tmp { middle with
        sendingList := queue
        senders := Function.update middle.senders cpu (afterSend tmp) }

theorem sends_of_ok {m next : Machine cpus servers Data Req} {cpu : Fin cpus}
    {targets : Nat → Option (Target servers)} {tmpFirst : LocalPageList}
    {tmp : Option LocalPageList} (ran : m.senderSend cpu targets tmpFirst tmp = .ok next) :
    Sends m cpu targets tmpFirst tmp next := by
  obtain ⟨⟨failed, item, middle⟩, writes, rest⟩ := bind_eq_ok.mp ran
  have requests := requestsWrite_of_ok writes
  cases failed with
  | false =>
      cases rest
      exact .sent requests
  | true =>
      obtain ⟨last, put, pair⟩ := bind_eq_ok.mp rest
      cases pair
      obtain ⟨queue, queued, rfl⟩ := putSendingIndex_ok put
      have sends : Sends m cpu targets tmpFirst tmp { middle with
          sendingList := queue
          senders := Function.update middle.senders cpu (afterSend tmp) } :=
        .again requests queued
      exact sends

/-- Sending only reads the page store. -/
theorem RdmaWrites.store_eq {m next : Machine cpus servers Data Req}
    {target : Option (Target servers)} {offset : Nat} {tmp : LocalPageList} {failed : Bool}
    (writes : RdmaWrites m target offset tmp failed next) : next.store = m.store := by
  cases writes <;> rfl

theorem RequestsWrite.store_eq {m next : Machine cpus servers Data Req}
    {targets : Nat → Option (Target servers)} {tmp item : LocalPageList} {failed : Bool}
    (writes : RequestsWrite m targets tmp failed item next) : next.store = m.store := by
  cases writes with
  | whole inside writes => exact writes.store_eq
  | lost crosses second => exact second.store_eq
  | halves crosses second first => exact first.store_eq.trans second.store_eq

theorem Sends.store_eq {m next : Machine cpus servers Data Req} {cpu : Fin cpus}
    {targets : Nat → Option (Target servers)} {tmpFirst : LocalPageList}
    {tmp : Option LocalPageList} (sends : Sends m cpu targets tmpFirst tmp next) :
    next.store = m.store := by
  cases sends with
  | sent writes => exact writes.store_eq
  | again writes put => exact writes.store_eq

/-! ## Where the items are -/

/-- How often the items on the sending list and on the connections list an entry. -/
def carried (m : Machine cpus servers Data Req) (index : Nat) : Nat :=
  tally (LocalPageList.mentions index) m.sendingList.contents +
    tally (LocalPageList.mentions index) m.posted

/-- How often the items with the senders list an entry. -/
def heldBySenders (m : Machine cpus servers Data Req) (index : Nat) : Nat :=
  tally (LocalPageList.mentions index) (pooled fun cpu => (m.senders cpu).items)

theorem pending_eq_carried (m : Machine cpus servers Data Req) (index : Nat) :
    m.pending index = m.carried index + m.heldBySenders index := by
  rw [pending_eq, unposted, tally_append, carried, heldBySenders]
  omega

/-- Changing one sender moves the difference of what it holds. -/
theorem heldBySenders_update (m : Machine cpus servers Data Req) (cpu : Fin cpus)
    (sender : Sender) (index : Nat) :
    heldBySenders { m with senders := Function.update m.senders cpu sender } index +
        tally (LocalPageList.mentions index) (m.senders cpu).items =
      m.heldBySenders index + tally (LocalPageList.mentions index) sender.items :=
  tally_pooled_update (LocalPageList.mentions index) Sender.items m.senders cpu sender

/-- Changing one connection moves the difference of what is on it. -/
theorem posted_update (m : Machine cpus servers Data Req) (cb : Fin servers)
    (conn : Channel (Nat × Nat) Data (RdmaCtx servers Data) Req) (index : Nat) :
    tally (LocalPageList.mentions index)
          (posted { m with conns := Function.update m.conns cb conn }) +
        tally (LocalPageList.mentions index) ((m.conns cb).writes.flatMap RdmaCtx.items) =
      tally (LocalPageList.mentions index) m.posted +
        tally (LocalPageList.mentions index) (conn.writes.flatMap RdmaCtx.items) :=
  tally_pooled_update (LocalPageList.mentions index)
    (fun conn : Channel (Nat × Nat) Data (RdmaCtx servers Data) Req =>
      conn.writes.flatMap RdmaCtx.items) m.conns cb conn

/-- The step puts `placed` on the sending list or on the connections, `puts` items on the
former, and leaves the page store and the senders alone. -/
structure Places (m : Machine cpus servers Data Req) (placed : Nat → Nat) (puts : Nat)
    (next : Machine cpus servers Data Req) : Prop where
  ready : next.sendingList.Ready
  store : next.store = m.store
  senders : next.senders = m.senders
  carried : ∀ index, next.carried index = m.carried index + placed index
  count : next.sendingList.alfQueueCount = m.sendingList.alfQueueCount + puts

theorem Places.trans {m middle next : Machine cpus servers Data Req} {first second : Nat → Nat}
    {puts more : Nat} (start : Places m first puts middle)
    (finish : Places middle second more next) :
    Places m (fun index => first index + second index) (puts + more) next where
  ready := finish.ready
  store := finish.store.trans start.store
  senders := finish.senders.trans start.senders
  carried := by
    intro index
    rw [finish.carried, start.carried, Nat.add_assoc]
  count := by rw [finish.count, start.count, Nat.add_assoc]

theorem Places.pending {m next : Machine cpus servers Data Req} {placed : Nat → Nat} {puts : Nat}
    (places : Places m placed puts next) (index : Nat) :
    next.pending index = m.pending index + placed index := by
  have held : next.heldBySenders index = m.heldBySenders index := by
    rw [heldBySenders, places.senders, heldBySenders]
  rw [pending_eq_carried, pending_eq_carried, places.carried, held]
  omega

/-- Within the reach of the ring, queueing an item puts it on the list. -/
theorem places_enqueue {m : Machine cpus servers Data Req} {item : LocalPageList}
    {queue : AlfQueue LocalPageList} (ready : m.sendingList.Ready)
    (room : m.sendingList.alfQueueCount < AlfQueue.ringReach)
    (put : m.sendingList.alfMpEnqueue item = some queue) :
    Places m (fun index => item.mentions index) 1 { m with sendingList := queue } := by
  obtain ⟨_, _, _, _, _, count, _⟩ := ready.sound.enqueue_spec put
  refine ⟨ready.enqueue put, rfl, rfl, fun index => ?_, count⟩
  have appended := ready.contents_enqueue room put
  have same : posted { m with sendingList := queue } = m.posted := rfl
  rw [carried, carried, same, appended, tally_append, tally_cons, tally_nil]
  omega

/-- The target does not take the item: there is no block, or the post fails. -/
def refuses : Option (Target servers) → Bool
  | none => true
  | some block => !decide (block.rbState.code ≥ RemoteBlockState.readonly.code) && !block.postOk

/-- The target sends the item back to the sending list. -/
def bounces : Option (Target servers) → Bool
  | none => false
  | some block => decide (block.rbState.code ≥ RemoteBlockState.readonly.code)

/-- An item that `rdma_write` does not fail on is queued again or posted. -/
theorem RdmaWrites.places {m next : Machine cpus servers Data Req}
    {target : Option (Target servers)} {offset : Nat} {tmp : LocalPageList} {failed : Bool}
    (ready : m.sendingList.Ready)
    (room : bounces target = true → m.sendingList.alfQueueCount < AlfQueue.ringReach)
    (writes : RdmaWrites m target offset tmp failed next) :
    failed = refuses target ∧
      Places m (fun index => if failed then 0 else tmp.mentions index)
        (if bounces target then 1 else 0) next := by
  cases writes with
  | refused noCb =>
      subst noCb
      exact ⟨rfl, ready, rfl, rfl, fun _ => rfl, rfl⟩
  | bounced found readonly put =>
      subst found
      have bounce : bounces (some _) = true := decide_eq_true readonly
      refine ⟨by simp [refuses, readonly], ?_⟩
      rw [bounce]
      exact places_enqueue ready (room bounce) put
  | failed found writable error free =>
      subst found
      have stays : bounces (some _) = false := decide_eq_false writable
      refine ⟨by simp [refuses, writable, error], ?_⟩
      rw [stays]
      exact ⟨ready, rfl, rfl, fun _ => rfl, rfl⟩
  | @sent block ctx rest found writable ok free =>
      subst found
      have stays : bounces (some block) = false := decide_eq_false writable
      refine ⟨by simp [refuses, ok], ?_⟩
      rw [stays]
      refine ⟨ready, rfl, rfl, fun index => ?_, rfl⟩
      have moved := posted_update { m with writeFreepool := rest } block.cb
        ((m.conns block.cb).post
          (.write (cells (loadCtx m.store ctx block offset tmp) block.rbIndex)
            (loadCtx m.store ctx block offset tmp))) index
      rw [Channel.writes_post_write, List.flatMap_append, tally_append] at moved
      have alone : tally (LocalPageList.mentions index)
          ([loadCtx m.store ctx block offset tmp].flatMap RdmaCtx.items) = tmp.mentions index := by
        simp [loadCtx, RdmaCtx.items, LocalPageList.mentions]
      rw [alone] at moved
      have before : posted { m with writeFreepool := rest } = m.posted := rfl
      rw [before] at moved
      simp only [carried, Bool.false_eq_true, if_false]
      simp only [posted] at moved ⊢
      omega

/-- `request_write` fails on the second half and drops it. -/
def loses (targets : Nat → Option (Target servers)) (tmp : LocalPageList) : Bool :=
  tmp.crossesBorder && refuses (targets tmp.secondHalf.swapspaceIndex)

/-- How often the half that is dropped lists an entry. -/
def lostMentions (targets : Nat → Option (Target servers)) (tmp : LocalPageList)
    (index : Nat) : Nat :=
  if loses targets tmp then tmp.secondHalf.mentions index else 0

/-- How often sending an item calls `put_sending_index`. -/
def sendPuts (targets : Nat → Option (Target servers)) (tmp : LocalPageList) : Nat :=
  let whole := targets tmp.swapspaceIndex
  let second := targets tmp.secondHalf.swapspaceIndex
  let last := (if bounces whole then 1 else 0) + (if refuses whole then 1 else 0)
  if tmp.crossesBorder then
    if refuses second then 1 else (if bounces second then 1 else 0) + last
  else
    last

theorem mentions_halves (tmp : LocalPageList) (index : Nat) :
    tmp.secondHalf.mentions index + tmp.firstHalf.mentions index = tmp.mentions index := by
  have joined := congrArg (List.count index) (List.take_append_drop tmp.border tmp.batchList)
  rw [List.count_append, Nat.add_comm] at joined
  exact joined

/-- `request_write` places the item, but for what it hands back and for what it drops. -/
theorem RequestsWrite.places {m next : Machine cpus servers Data Req}
    {targets : Nat → Option (Target servers)} {tmp item : LocalPageList} {failed : Bool}
    (ready : m.sendingList.Ready)
    (room : m.sendingList.alfQueueCount + sendPuts targets tmp ≤ AlfQueue.ringReach)
    (writes : RequestsWrite m targets tmp failed item next) :
    ∃ placed puts, Places m placed puts next ∧
      puts + (if failed then 1 else 0) = sendPuts targets tmp ∧
      ∀ index, placed index + (if failed then item.mentions index else 0) +
        lostMentions targets tmp index = tmp.mentions index := by
  cases writes with
  | whole inside writes =>
      have puts : sendPuts targets tmp =
          (if bounces (targets tmp.swapspaceIndex) then 1 else 0) +
            (if refuses (targets tmp.swapspaceIndex) then 1 else 0) := by
        simp [sendPuts, inside]
      obtain ⟨rfl, places⟩ := writes.places ready fun bounce => by
        rw [puts, bounce] at room
        simp only [if_true] at room
        omega
      refine ⟨_, _, places, puts.symm, fun index => ?_⟩
      have kept : lostMentions targets tmp index = 0 := by simp [lostMentions, loses, inside]
      rw [kept]
      cases refuses (targets tmp.swapspaceIndex) <;> simp
  | lost crosses second =>
      have refused : refuses (targets tmp.secondHalf.swapspaceIndex) = true := by
        cases second with
        | refused noCb => rw [noCb, refuses]
        | failed found writable error free => simp [found, refuses, writable, error]
      have stays : bounces (targets tmp.secondHalf.swapspaceIndex) = false := by
        cases second with
        | refused noCb => rw [noCb, bounces]
        | failed found writable error free => simpa [found, bounces] using writable
      obtain ⟨_, places⟩ := second.places ready fun bounce => by
        rw [stays] at bounce
        cases bounce
      refine ⟨_, _, places, by simp [sendPuts, crosses, refused, stays], fun index => ?_⟩
      have halves := mentions_halves tmp index
      have dropped : lostMentions targets tmp index = tmp.secondHalf.mentions index := by
        simp [lostMentions, loses, crosses, refused]
      rw [dropped]
      simp only [if_true]
      omega
  | halves crosses second first =>
      have taken : refuses (targets tmp.secondHalf.swapspaceIndex) = false := by
        cases second with
        | bounced found readonly put => simp [found, refuses, readonly]
        | sent found writable ok free => simp [found, refuses, ok]
      have puts : sendPuts targets tmp =
          (if bounces (targets tmp.secondHalf.swapspaceIndex) then 1 else 0) +
            ((if bounces (targets tmp.swapspaceIndex) then 1 else 0) +
              (if refuses (targets tmp.swapspaceIndex) then 1 else 0)) := by
        simp [sendPuts, crosses, taken]
      rw [puts] at room
      obtain ⟨_, start⟩ := second.places ready fun bounce => by
        rw [bounce] at room
        simp only [if_true] at room
        omega
      obtain ⟨rfl, finish⟩ := first.places start.ready fun bounce => by
        rw [start.count]
        rw [bounce] at room
        simp only [if_true] at room
        omega
      refine ⟨_, _, start.trans finish, by rw [puts, Nat.add_assoc], fun index => ?_⟩
      have halves := mentions_halves tmp index
      have kept : lostMentions targets tmp index = 0 := by
        simp [lostMentions, loses, taken]
      rw [kept]
      cases refuses (targets tmp.swapspaceIndex) <;>
        simp only [if_true, if_false, Bool.false_eq_true] <;> omega

theorem items_afterSend (tmp : Option LocalPageList) : (afterSend tmp).items = tmp.toList := by
  cases tmp <;> rfl

/-- Sending keeps the page store and what is pending, but for a half that is dropped. -/
theorem Sends.effect {m next : Machine cpus servers Data Req} {cpu : Fin cpus}
    {targets : Nat → Option (Target servers)} {tmpFirst : LocalPageList}
    {tmp : Option LocalPageList} (ready : m.sendingList.Ready)
    (room : m.sendingList.alfQueueCount + sendPuts targets tmpFirst ≤ AlfQueue.ringReach)
    (holds : m.senders cpu = .send tmpFirst tmp) (sends : Sends m cpu targets tmpFirst tmp next) :
    next.sendingList.Ready ∧ next.store = m.store ∧
      ∀ index, next.pending index + lostMentions targets tmpFirst index = m.pending index := by
  have turn {middle : Machine cpus servers Data Req} (senders : middle.senders = m.senders)
      (index : Nat) :
      heldBySenders { middle with
          senders := Function.update middle.senders cpu (afterSend tmp) } index +
        tmpFirst.mentions index = m.heldBySenders index := by
    have moved := heldBySenders_update middle cpu (afterSend tmp) index
    have same : middle.heldBySenders index = m.heldBySenders index := by
      rw [heldBySenders, senders, heldBySenders]
    rw [items_afterSend, senders, holds, Sender.items, tally_cons, same] at moved
    rw [senders]
    omega
  cases sends with
  | @sent item middle writes =>
      obtain ⟨placed, puts, places, _, mentions⟩ := writes.places ready room
      refine ⟨places.ready, places.store, fun index => ?_⟩
      have held := turn places.senders index
      have onTheWay := places.carried index
      have total := mentions index
      rw [pending_eq_carried, pending_eq_carried]
      simp only [Bool.false_eq_true, if_false] at total
      have same : carried { middle with
          senders := Function.update middle.senders cpu (afterSend tmp) } index =
          middle.carried index := rfl
      omega
  | @again item middle queue writes put =>
      obtain ⟨placed, puts, places, counts, mentions⟩ := writes.places ready room
      have again := places_enqueue places.ready (by rw [places.count]; simp at counts; omega) put
      refine ⟨again.ready, places.store, fun index => ?_⟩
      have held := turn places.senders index
      have onTheWay := (places.trans again).carried index
      have total := mentions index
      rw [pending_eq_carried, pending_eq_carried]
      simp only [if_true] at total
      have same : carried { middle with
          sendingList := queue
          senders := Function.update middle.senders cpu (afterSend tmp) } index =
          carried { middle with sendingList := queue } index := rfl
      have others : heldBySenders { middle with
          sendingList := queue
          senders := Function.update middle.senders cpu (afterSend tmp) } index =
          heldBySenders { middle with
            senders := Function.update middle.senders cpu (afterSend tmp) } index := rfl
      omega

/-! ## The steps -/

/-- The items that a step queues fit into the reach of the ring. -/
def RingRoom (m : Machine cpus servers Data Req) : DataLabel cpus servers Data Req → Prop
  | .write _ _ => m.sendingList.alfQueueCount < AlfQueue.ringReach
  | .send cpu targets =>
      match m.senders cpu with
      | .send tmpFirst _ =>
          m.sendingList.alfQueueCount + sendPuts targets tmpFirst ≤ AlfQueue.ringReach
      | _ => True
  | _ => True

instance (m : Machine cpus servers Data Req) (label : DataLabel cpus servers Data Req) :
    Decidable (RingRoom m label) :=
  match label with
  | .write _ _ => inferInstanceAs (Decidable (_ < _))
  | .send cpu targets =>
      match holds : m.senders cpu with
      | .send tmpFirst _ =>
          decidable_of_iff
            (m.sendingList.alfQueueCount + sendPuts targets tmpFirst ≤ AlfQueue.ringReach)
            (by simp only [RingRoom, holds])
      | .idle => isTrue (by simp only [RingRoom, holds])
      | .fetch _ _ => isTrue (by simp only [RingRoom, holds])
  | .call _ => isTrue trivial
  | .fetch _ => isTrue trivial
  | .land _ => isTrue trivial
  | .complete _ => isTrue trivial
  | .reclaim => isTrue trivial
  | .read _ _ _ => isTrue trivial

/-- What a step does to the page store and to what is pending. -/
inductive Effect [Inhabited Data] (m : Machine cpus servers Data Req) :
    DataLabel cpus servers Data Req → Machine cpus servers Data Req → Prop where
  | wrote {env : Nat → AllocEnv} {req : WriteRequest Data} {middle : PageStore Data}
      {pages : List Nat} {next : Machine cpus servers Data Req}
      (inserted : m.store.insertPages env req.indices = .ok (req.indices.map some, middle))
      (located : req.indices.map (fun index => middle.pageOf (some index)) = pages.map some)
      (stored : next.store =
        { middle with memory := Library.store middle.memory (pages.zip req.buffers) })
      (pending : ∀ index, next.pending index = m.pending index + req.indices.count index) :
      Effect m (.write env req) next
  | finished {cb : Fin servers} {ctx : RdmaCtx servers Data} {item : LocalPageList}
      {next : Machine cpus servers Data Req}
      (head : (m.conns cb).landed.head? = some (.wrote ctx))
      (sendingItem : ctx.sendingItem = some item)
      (all : PageStore.FinishesAll m.store item.batchList next.store)
      (pending : ∀ index, m.pending index = next.pending index + item.mentions index) :
      Effect m (.complete cb) next
  | reclaimed {element : Option Nat} {middle : PageStore Data}
      {next : Machine cpus servers Data Req}
      (reclaims : PageStore.Reclaims m.store element middle)
      (stored : next.store = element.elim middle middle.valetMempoolFree)
      (pending : ∀ index, next.pending index = m.pending index) : Effect m .reclaim next
  | sent {cpu : Fin cpus} {targets : Nat → Option (Target servers)} {tmpFirst : LocalPageList}
      {tmp : Option LocalPageList} {next : Machine cpus servers Data Req}
      (holds : m.senders cpu = .send tmpFirst tmp) (stored : next.store = m.store)
      (pending : ∀ index,
        next.pending index + lostMentions targets tmpFirst index = m.pending index) :
      Effect m (.send cpu targets) next
  | moved {label : DataLabel cpus servers Data Req} {next : Machine cpus servers Data Req}
      (stored : next.store = m.store) (pending : ∀ index, next.pending index = m.pending index) :
      Effect m label next

variable {m next : Machine cpus servers Data Req}

/-- The outcomes of `write_to_brd`. -/
inductive Writes [Inhabited Data] (m : Machine cpus servers Data Req) (env : Nat → AllocEnv)
    (req : WriteRequest Data) : Machine cpus servers Data Req → Prop where
  | queued {middle : PageStore Data} {pages : List Nat} {queue : AlfQueue LocalPageList}
      (inserted : m.store.insertPages env req.indices = .ok (req.indices.map some, middle))
      (located : req.indices.map (fun index => middle.pageOf (some index)) = pages.map some)
      (put : m.sendingList.alfMpEnqueue ⟨req.startIndex, req.indices, 0⟩ = some queue) :
      Writes m env req { m with
        store := { middle with memory := Library.store middle.memory (pages.zip req.buffers) }
        sendingList := queue }

theorem writes_of_ok [Inhabited Data] {env : Nat → AllocEnv} {req : WriteRequest Data}
    (listSound : m.store.reclaimList.Sound) (ran : m.writeToBrd env req = .ok next) :
    Writes m env req next := by
  obtain ⟨⟨entries, middle⟩, inserted, rest⟩ := bind_eq_ok.mp ran
  obtain ⟨store, copied, put⟩ := bind_eq_ok.mp rest
  have lengths : entries.length = req.buffers.length := by
    rw [PageStore.insertPages_length inserted, WriteRequest.indices, List.length_range']
  obtain ⟨pages, located, rfl⟩ := PageStore.copyPages_ok lengths copied
  have entered : none ∉ entries := by
    intro member
    have lost : none ∈ pages.map some := by
      rw [← located]
      exact List.mem_map.mpr ⟨none, member, rfl⟩
    simp at lost
  obtain ⟨rfl, _⟩ := PageStore.insertsAll_of_ok listSound inserted entered
  have listed : (req.indices.map some).reduceOption = req.indices := by
    simp [List.reduceOption]
  rw [listed] at put
  obtain ⟨queue, queued, rfl⟩ := putSendingIndex_ok put
  rw [List.map_map] at located
  exact .queued inserted located queued

theorem Writes.effect [Inhabited Data] {env : Nat → AllocEnv} {req : WriteRequest Data}
    (ready : m.sendingList.Ready)
    (room : m.sendingList.alfQueueCount < AlfQueue.ringReach) (writes : Writes m env req next) :
    next.sendingList.Ready ∧ Effect m (.write env req) next := by
  cases writes with
  | queued inserted located put =>
      have places := places_enqueue ready room put
      exact ⟨places.ready, .wrote inserted located rfl places.pending⟩

theorem getSendingIndex_cases (ready : m.sendingList.Ready) :
    m.getSendingIndex = none ∨ ∃ item queue,
      m.getSendingIndex = some (some item, { m with sendingList := queue }) ∧ queue.Ready ∧
        m.sendingList.contents = item :: queue.contents := by
  unfold getSendingIndex
  by_cases empty : m.sendingList.alfQueueEmpty = true
  · exact Or.inl (if_pos empty)
  · rw [if_neg empty]
    cases got : m.sendingList.alfMcDequeue with
    | none => exact Or.inl rfl
    | some result =>
        obtain ⟨ptr, queue⟩ := result
        obtain ⟨readyNext, item, rfl, contents⟩ := ready.dequeue got
        exact Or.inr ⟨item, queue, rfl, readyNext, contents⟩

/-- What a sender that takes an item from the list makes of it. -/
inductive Takes : Option LocalPageList → Bool → LocalPageList → Sender → Prop where
  | first {item : LocalPageList} : Takes none false item (.fetch (some item) false)
  | only {item : LocalPageList} : Takes none true item (.send item none)
  | merged {first item : LocalPageList} {mustGo : Bool}
      (contiguous : item.startIndex = first.startIndex + first.len)
      (fits : first.len + item.len ≤ rdmaWrBufLen) :
      Takes (some first) mustGo item
        (.fetch (some { first with batchList := first.batchList ++ item.batchList }) mustGo)
  | apart {first item : LocalPageList} {mustGo : Bool} :
      Takes (some first) mustGo item (.send first (some item))

theorem Takes.mentions {tmpFirst : Option LocalPageList} {mustGo : Bool} {item : LocalPageList}
    {sender : Sender} (takes : Takes tmpFirst mustGo item sender) (index : Nat) :
    tally (LocalPageList.mentions index) sender.items =
      tally (LocalPageList.mentions index) tmpFirst.toList + item.mentions index := by
  cases takes <;> simp [Sender.items, LocalPageList.mentions]

/-- What a sender does that finds the list empty. -/
def afterEmpty : Option LocalPageList → Sender
  | none => .idle
  | some first => .send first none

theorem items_afterEmpty (tmpFirst : Option LocalPageList) :
    (afterEmpty tmpFirst).items = tmpFirst.toList := by
  cases tmpFirst <;> rfl

/-- The outcomes of the taking part of `remote_sender_fn`. -/
inductive Fetches (m : Machine cpus servers Data Req) (cpu : Fin cpus)
    (tmpFirst : Option LocalPageList) (mustGo : Bool) :
    Machine cpus servers Data Req → Prop where
  | ended : Fetches m cpu tmpFirst mustGo
      { m with senders := Function.update m.senders cpu (afterEmpty tmpFirst) }
  | took {item : LocalPageList} {queue : AlfQueue LocalPageList} {sender : Sender}
      (ready : queue.Ready) (contents : m.sendingList.contents = item :: queue.contents)
      (takes : Takes tmpFirst mustGo item sender) :
      Fetches m cpu tmpFirst mustGo
        { m with sendingList := queue, senders := Function.update m.senders cpu sender }

theorem fetches_of_ok {cpu : Fin cpus} {tmpFirst : Option LocalPageList} {mustGo : Bool}
    (ready : m.sendingList.Ready) (ran : m.senderFetch cpu tmpFirst mustGo = .ok next) :
    Fetches m cpu tmpFirst mustGo next := by
  unfold senderFetch at ran
  rcases getSendingIndex_cases ready with got | ⟨item, queue, got, readyNext, contents⟩
  · rw [got] at ran
    cases tmpFirst with
    | none =>
        cases ran
        exact .ended
    | some first =>
        cases ran
        exact .ended
  · rw [got] at ran
    dsimp only at ran
    cases tmpFirst with
    | none =>
        cases mustGo with
        | false =>
            cases ran
            exact .took readyNext contents .first
        | true =>
            cases ran
            exact .took readyNext contents .only
    | some first =>
        dsimp only at ran
        by_cases merge : item.startIndex = first.startIndex + first.len ∧
            first.len + item.len ≤ rdmaWrBufLen
        · rw [if_pos merge] at ran
          cases ran
          exact .took readyNext contents (.merged merge.1 merge.2)
        · rw [if_neg merge] at ran
          cases ran
          exact .took readyNext contents .apart

/-- Taking an item from the list, merged or not, keeps what is pending. -/
theorem Fetches.effect {cpu : Fin cpus} {tmpFirst : Option LocalPageList} {mustGo : Bool}
    (ready : m.sendingList.Ready) (holds : m.senders cpu = .fetch tmpFirst mustGo)
    (fetches : Fetches m cpu tmpFirst mustGo next) :
    next.sendingList.Ready ∧ next.store = m.store ∧
      ∀ index, next.pending index = m.pending index := by
  cases fetches with
  | ended =>
      refine ⟨ready, rfl, fun index => ?_⟩
      have moved := heldBySenders_update m cpu (afterEmpty tmpFirst) index
      rw [items_afterEmpty, holds, Sender.items] at moved
      have same : carried { m with
          senders := Function.update m.senders cpu (afterEmpty tmpFirst) } index =
          m.carried index := rfl
      rw [pending_eq_carried, pending_eq_carried, same]
      omega
  | @took item queue sender readyNext contents takes =>
      refine ⟨readyNext, rfl, fun index => ?_⟩
      have moved := heldBySenders_update { m with sendingList := queue } cpu sender index
      have holds' : ({ m with sendingList := queue } : Machine cpus servers Data Req).senders cpu =
          .fetch tmpFirst mustGo := holds
      rw [holds', Sender.items, takes.mentions] at moved
      have before : heldBySenders { m with sendingList := queue } index =
          m.heldBySenders index := rfl
      have taken : carried { m with
          sendingList := queue, senders := Function.update m.senders cpu sender } index +
          item.mentions index = m.carried index := by
        show tally (LocalPageList.mentions index) queue.contents +
          tally (LocalPageList.mentions index) m.posted + item.mentions index = _
        rw [carried, contents, tally_cons]
        omega
      rw [pending_eq_carried, pending_eq_carried]
      dsimp only at moved taken ⊢
      omega

/-- Steps on a connection that retire no write keep what is pending. -/
theorem pending_conn (cb : Fin servers)
    {conn : Channel (Nat × Nat) Data (RdmaCtx servers Data) Req} {gone : List LocalPageList}
    (writes : (m.conns cb).writes.flatMap RdmaCtx.items =
      gone ++ conn.writes.flatMap RdmaCtx.items) (index : Nat) :
    m.pending index =
      pending { m with conns := Function.update m.conns cb conn } index +
        tally (LocalPageList.mentions index) gone := by
  have moved := posted_update m cb conn index
  rw [writes, tally_append] at moved
  have same : unposted { m with conns := Function.update m.conns cb conn } = m.unposted := rfl
  rw [pending_eq, pending_eq, same]
  omega

/-- The outcomes of `rdma_cq_event_handler`. -/
inductive Handles (m : Machine cpus servers Data Req) (cb : Fin servers) :
    Machine cpus servers Data Req → Prop where
  | wrote {ctx : RdmaCtx servers Data} {item : LocalPageList} {block : Fin servers × Nat}
      {conn : Channel (Nat × Nat) Data (RdmaCtx servers Data) Req} {store : PageStore Data}
      (completes : (m.conns cb).complete = some (.wrote ctx, conn))
      (sendingItem : ctx.sendingItem = some item) (rb : ctx.rb = some block)
      (all : PageStore.FinishesAll m.store item.batchList store) :
      Handles m cb { m with
        store := store
        conns := Function.update m.conns cb conn
        bitmap := Function.update m.bitmap block.1
          (Function.update (m.bitmap block.1) block.2
            (bitmapGroupSet (m.bitmap block.1 block.2) ctx.offset ctx.len))
        writeFreepool := { ctx with sendingItem := none, rb := none } :: m.writeFreepool }
  | fetched {req : Req} {value : Data}
      {conn : Channel (Nat × Nat) Data (RdmaCtx servers Data) Req}
      (completes : (m.conns cb).complete = some (.fetched req value, conn)) :
      Handles m cb { m with
        conns := Function.update m.conns cb conn
        readFreepool := m.readFreepool + 1
        ended := m.ended ++ [(req, some value)] }

theorem handles_of_ok {cb : Fin servers} (ran : m.handleCompletion cb = some (.ok next)) :
    Handles m cb next := by
  unfold handleCompletion at ran
  cases completes : (m.conns cb).complete with
  | none =>
      rw [completes] at ran
      cases ran
  | some result =>
      obtain ⟨first, conn⟩ := result
      rw [completes] at ran
      cases first with
      | fetched req value =>
          have done := Option.some.inj ran
          unfold readDonePostwork at done
          split at done
          · cases done
          · cases done
            exact .fetched completes
      | wrote ctx =>
          have done := Option.some.inj ran
          unfold writeDonePostwork at done
          split at done
          · rename_i block rbIndex item rb sendingItem
            have replicas : ¬ item.refCount + 1 < numReplica := by
              unfold numReplica
              omega
            dsimp only at done
            rw [if_neg replicas] at done
            obtain ⟨store, finished, put⟩ := bind_eq_ok.mp done
            unfold putWriteFreepool at put
            split at put
            · cases put
            · cases put
              exact .wrote completes sendingItem rb (PageStore.finishesAll_of_ok finished)
          · cases done

theorem Handles.effect [Inhabited Data] {cb : Fin servers} (handles : Handles m cb next) :
    next.sendingList = m.sendingList ∧ Effect m (.complete cb) next := by
  cases handles with
  | @wrote ctx item block conn store completes sendingItem rb all =>
      have head : (m.conns cb).landed.head? = some (.wrote ctx) :=
        Channel.head_of_complete completes
      refine ⟨rfl, .finished head sendingItem all fun index => ?_⟩
      have retired : (m.conns cb).writes.flatMap RdmaCtx.items =
          [item] ++ conn.writes.flatMap RdmaCtx.items := by
        rw [Channel.writes_complete_wrote completes, List.flatMap_cons, RdmaCtx.items, sendingItem]
        rfl
      have moved := pending_conn cb retired index
      rw [tally_cons, tally_nil] at moved
      exact moved
  | @fetched req value conn completes =>
      refine ⟨rfl, .moved rfl fun index => ?_⟩
      have kept : (m.conns cb).writes.flatMap RdmaCtx.items =
          [] ++ conn.writes.flatMap RdmaCtx.items := by
        rw [Channel.writes_complete_fetched completes, List.nil_append]
      exact (pending_conn cb kept index).symm

theorem conn_land_effect [Inhabited Data] {cb : Fin servers}
    {conn : Channel (Nat × Nat) Data (RdmaCtx servers Data) Req}
    (lands : (m.conns cb).land = some conn) :
    Effect m (.land cb) { m with conns := Function.update m.conns cb conn } := by
  refine .moved rfl fun index => ?_
  have kept : (m.conns cb).writes.flatMap RdmaCtx.items =
      [] ++ conn.writes.flatMap RdmaCtx.items := by
    rw [Channel.writes_land lands, List.nil_append]
  exact (pending_conn cb kept index).symm

/-- The outcomes of `read_from_brd`. -/
inductive Reads (m : Machine cpus servers Data Req) (targets : Nat → Option (Target servers))
    (index : Nat) (req : Req) : Machine cpus servers Data Req → Prop where
  | local {page : Nat} (here : m.store.pageOf (some index) = some page) :
      Reads m targets index req { m with ended := m.ended ++ [(req, some (m.store.memory page))] }
  | remote {block : Target servers} (gone : m.store.pageOf (some index) = none)
      (found : targets (startOf index >>> oneGbShift) = some block)
      (recorded : m.bitmap block.cb block.rbIndex
        ((startOf index &&& oneGbMask) / valetPageSize) = true) (ok : block.postOk = true) :
      Reads m targets index req { m with
        readFreepool := m.readFreepool - 1
        conns := Function.update m.conns block.cb ((m.conns block.cb).post
          (.read (block.rbIndex, (startOf index &&& oneGbMask) / valetPageSize) req)) }
  | nowhere {free : Nat} (gone : m.store.pageOf (some index) = none)
      (missed : ∀ block, targets (startOf index >>> oneGbShift) = some block →
        block.rbState = .active → block.postOk = true → m.bitmap block.cb block.rbIndex
          ((startOf index &&& oneGbMask) / valetPageSize) = false) :
      Reads m targets index req { m with
        readFreepool := free, ended := m.ended ++ [(req, none)] }

theorem reads_of_ok {targets : Nat → Option (Target servers)} {index : Nat} {req : Req}
    (ran : m.readFromBrd targets index req = .ok next) : Reads m targets index req next := by
  unfold readFromBrd at ran
  cases here : m.store.pageOf (some index) with
  | some page =>
      rw [here] at ran
      cases ran
      exact .local here
  | none =>
      rw [here] at ran
      obtain ⟨⟨done, middle⟩, request, rest⟩ := bind_eq_ok.mp ran
      unfold requestRead at request
      dsimp only at request
      cases found : targets (startOf index >>> oneGbShift) with
      | none =>
          rw [found] at request
          cases request
          cases rest
          exact .nowhere here fun block other => by simp [found] at other
      | some block =>
          rw [found] at request
          dsimp only at request
          by_cases readonly : block.rbState = .readonly ∨ block.rbState = .noneAllowed
          · rw [if_pos readonly] at request
            cases request
            cases rest
            refine .nowhere here fun other same active => ?_
            cases found.symm.trans same
            rcases readonly with state | state <;> rw [state] at active <;> cases active
          · rw [if_neg readonly] at request
            cases recorded : m.bitmap block.cb block.rbIndex
                ((startOf index &&& oneGbMask) / valetPageSize) with
            | false =>
                rw [recorded] at request
                cases request
                cases rest
                refine .nowhere here fun other same _ _ => ?_
                cases found.symm.trans same
                exact recorded
            | true =>
                rw [recorded] at request
                simp only [if_true] at request
                by_cases empty : m.readFreepool = 0
                · rw [if_pos empty] at request
                  cases request
                · rw [if_neg empty] at request
                  cases ok : block.postOk with
                  | true =>
                      rw [ok] at request
                      cases request
                      cases rest
                      exact .remote here found recorded ok
                  | false =>
                      rw [ok] at request
                      cases request
                      cases rest
                      refine .nowhere here fun other same _ good => ?_
                      cases found.symm.trans same
                      rw [ok] at good
                      cases good

theorem Reads.effect [Inhabited Data] {targets : Nat → Option (Target servers)} {index : Nat}
    {req : Req} (reads : Reads m targets index req next) :
    next.sendingList = m.sendingList ∧ Effect m (.read targets index req) next := by
  cases reads with
  | «local» here => exact ⟨rfl, .moved rfl fun _ => rfl⟩
  | @remote block gone found recorded ok =>
      refine ⟨rfl, .moved rfl fun other => ?_⟩
      have kept : (m.conns block.cb).writes.flatMap RdmaCtx.items =
          [] ++ ((m.conns block.cb).post (.read
            (block.rbIndex, (startOf index &&& oneGbMask) / valetPageSize) req)).writes.flatMap
              RdmaCtx.items := by
        rw [Channel.writes_post_read, List.nil_append]
      exact (pending_conn block.cb kept other).symm
  | nowhere gone missed => exact ⟨rfl, .moved rfl fun _ => rfl⟩

/-- The outcomes of a step. -/
inductive Outcome [Inhabited Data] (m : Machine cpus servers Data Req) :
    DataLabel cpus servers Data Req → Machine cpus servers Data Req → Prop where
  | write {env : Nat → AllocEnv} {req : WriteRequest Data} {next : Machine cpus servers Data Req}
      (writes : Writes m env req next) : Outcome m (.write env req) next
  | call {cpu : Fin cpus} (idle : m.senders cpu = .idle) :
      Outcome m (.call cpu) { m with senders := Function.update m.senders cpu (.fetch none false) }
  | fetch {cpu : Fin cpus} {tmpFirst : Option LocalPageList} {mustGo : Bool}
      {next : Machine cpus servers Data Req} (holds : m.senders cpu = .fetch tmpFirst mustGo)
      (fetches : Fetches m cpu tmpFirst mustGo next) : Outcome m (.fetch cpu) next
  | send {cpu : Fin cpus} {targets : Nat → Option (Target servers)} {tmpFirst : LocalPageList}
      {tmp : Option LocalPageList} {next : Machine cpus servers Data Req}
      (holds : m.senders cpu = .send tmpFirst tmp) (sends : Sends m cpu targets tmpFirst tmp next) :
      Outcome m (.send cpu targets) next
  | land {cb : Fin servers} {conn : Channel (Nat × Nat) Data (RdmaCtx servers Data) Req}
      (lands : (m.conns cb).land = some conn) :
      Outcome m (.land cb) { m with conns := Function.update m.conns cb conn }
  | complete {cb : Fin servers} {next : Machine cpus servers Data Req}
      (handles : Handles m cb next) : Outcome m (.complete cb) next
  | reclaim {element : Option Nat} {middle : PageStore Data}
      (reclaims : PageStore.Reclaims m.store element middle) :
      Outcome m .reclaim { m with store := element.elim middle middle.valetMempoolFree }
  | read {targets : Nat → Option (Target servers)} {index : Nat} {req : Req}
      {next : Machine cpus servers Data Req} (reads : Reads m targets index req next) :
      Outcome m (.read targets index req) next

theorem outcome_of_step [Inhabited Data] {label : DataLabel cpus servers Data Req}
    (ready : m.sendingList.Ready) (listSound : m.store.reclaimList.Sound)
    (edge : m.step label = some next) : Outcome m label next := by
  cases label with
  | write env req => exact .write (writes_of_ok listSound (toOption_eq_some edge))
  | call cpu =>
      simp only [step] at edge
      cases idle : m.senders cpu with
      | idle =>
          rw [idle] at edge
          cases edge
          exact .call idle
      | fetch tmpFirst mustGo =>
          rw [idle] at edge
          cases edge
      | send tmpFirst tmp =>
          rw [idle] at edge
          cases edge
  | fetch cpu =>
      simp only [step] at edge
      cases holds : m.senders cpu with
      | fetch tmpFirst mustGo =>
          rw [holds] at edge
          exact .fetch holds (fetches_of_ok ready (toOption_eq_some edge))
      | idle =>
          rw [holds] at edge
          cases edge
      | send tmpFirst tmp =>
          rw [holds] at edge
          cases edge
  | send cpu targets =>
      simp only [step] at edge
      cases holds : m.senders cpu with
      | send tmpFirst tmp =>
          rw [holds] at edge
          exact .send holds (sends_of_ok (toOption_eq_some edge))
      | idle =>
          rw [holds] at edge
          cases edge
      | fetch tmpFirst mustGo =>
          rw [holds] at edge
          cases edge
  | land cb =>
      obtain ⟨conn, lands, rfl⟩ := Option.map_eq_some_iff.mp edge
      exact .land lands
  | complete cb =>
      obtain ⟨attempt, handled, ran⟩ := Option.bind_eq_some_iff.mp edge
      rw [toOption_eq_some ran] at handled
      exact .complete (handles_of_ok handled)
  | reclaim =>
      obtain ⟨⟨element, store⟩, attempt, rest⟩ := bind_eq_ok.mp (toOption_eq_some edge)
      have reclaims := PageStore.reclaims_of_ok listSound attempt
      cases element with
      | none =>
          cases rest
          exact .reclaim reclaims
      | some page =>
          cases rest
          exact .reclaim reclaims
  | read targets index req => exact .read (reads_of_ok (toOption_eq_some edge))

/-- Every step has one of the effects, and leaves the sending list in order. -/
theorem Outcome.effect [Inhabited Data] {label : DataLabel cpus servers Data Req}
    (ready : m.sendingList.Ready) (room : RingRoom m label) (outcome : Outcome m label next) :
    next.sendingList.Ready ∧ Effect m label next := by
  cases outcome with
  | write writes => exact writes.effect ready room
  | @call cpu idle =>
      refine ⟨ready, .moved rfl fun index => ?_⟩
      have moved := heldBySenders_update m cpu (.fetch none false) index
      have same : carried { m with
          senders := Function.update m.senders cpu (.fetch none false) } index =
          m.carried index := rfl
      rw [idle] at moved
      simp only [Sender.items, Option.toList_none, tally_nil, Nat.add_zero] at moved
      rw [pending_eq_carried, pending_eq_carried, same, moved]
  | fetch holds fetches =>
      obtain ⟨readyNext, stored, pending⟩ := fetches.effect ready holds
      exact ⟨readyNext, .moved stored pending⟩
  | send holds sends =>
      simp only [RingRoom, holds] at room
      obtain ⟨readyNext, stored, pending⟩ := sends.effect ready room holds
      exact ⟨readyNext, .sent holds stored pending⟩
  | land lands => exact ⟨ready, conn_land_effect lands⟩
  | complete handles =>
      obtain ⟨same, effect⟩ := handles.effect
      exact ⟨by rw [same]; exact ready, effect⟩
  | reclaim reclaims => exact ⟨ready, .reclaimed reclaims rfl fun _ => rfl⟩
  | read reads =>
      obtain ⟨same, effect⟩ := reads.effect
      exact ⟨by rw [same]; exact ready, effect⟩

end Machine

end Valet.Bd
