import Valet.Bd.Pinning
import Valet.Bd.Layout
import Valet.Bd.Ownership

/-!
# Reads return what was written last

A page that was written is held locally until reclaim takes it, and by then its
last contents are on the way to its remote block or there.  So a local read and
a remote read find the same data, as long as reclaim never takes a page that a
queued item still has to copy.
-/

namespace Valet.Bd

open Valet.Library

/-- A request to read one page, with what was last written to the page when it was made. -/
structure ReadRequest (Data : Type) where
  index : Nat
  want : Option Data

/-- The client, with what `write_to_brd` last stored for each page. -/
structure Client (cpus servers : Nat) (Data : Type) where
  machine : Machine cpus servers Data (ReadRequest Data)
  written : Nat → Option Data

/-- The steps while every swapspace stays on its block. -/
inductive ClientLabel (cpus servers : Nat) (Data : Type) where
  | write (env : Nat → AllocEnv) (req : WriteRequest Data)
  | call (cpu : Fin cpus)
  | fetch (cpu : Fin cpus)
  | send (cpu : Fin cpus)
  | land (cb : Fin servers)
  | complete (cb : Fin servers)
  | reclaim
  | read (index : Nat)

namespace Client

variable {cpus servers : Nat} {Data : Type}

def dataLabel (placement : Placement servers) (c : Client cpus servers Data) :
    ClientLabel cpus servers Data → DataLabel cpus servers Data (ReadRequest Data)
  | .write env req => .write env req
  | .call cpu => .call cpu
  | .fetch cpu => .fetch cpu
  | .send cpu => .send cpu placement.targets
  | .land cb => .land cb
  | .complete cb => .complete cb
  | .reclaim => .reclaim
  | .read index => .read placement.targets index ⟨index, c.written index⟩

/-- What the request leaves as last written. -/
def record (written : Nat → Option Data) (req : WriteRequest Data) (index : Nat) : Option Data :=
  if index ∈ req.indices then req.buffers[index - req.startIndex]? else written index

def writtenAfter (c : Client cpus servers Data) :
    ClientLabel cpus servers Data → Nat → Option Data
  | .write _ req => record c.written req
  | _ => c.written

def step [Inhabited Data] (placement : Placement servers) (c : Client cpus servers Data)
    (label : ClientLabel cpus servers Data) : Option (Client cpus servers Data) :=
  (c.machine.step (c.dataLabel placement label)).map fun machine =>
    ⟨machine, c.writtenAfter label⟩

def init [Inhabited Data] (minPoolPages maxPoolPages writeCapNr readCapNr : Nat) :
    Client cpus servers Data :=
  ⟨.init minPoolPages maxPoolPages writeCapNr readCapNr, fun _ => none⟩

/-- Every read of a page that was written before ended with the data of its last write. -/
def ReadsLatest (c : Client cpus servers Data) : Prop :=
  ∀ req value, (req, value) ∈ c.machine.ended → ∀ data, req.want = some data → value = some data

/-- The condition of `Machine.CountedStep` on the step of the machine. -/
def CountedStep [Inhabited Data] (placement : Placement servers) (c : Client cpus servers Data)
    (label : ClientLabel cpus servers Data) : Prop :=
  Machine.CountedStep c.machine (c.dataLabel placement label)

instance [Inhabited Data] (placement : Placement servers) (c : Client cpus servers Data)
    (label : ClientLabel cpus servers Data) : Decidable (CountedStep placement c label) :=
  inferInstanceAs (Decidable (Machine.CountedStep _ _))

end Client

namespace PageStore

variable {Data : Type}

/-- The pages in the store hold what was last written to them. -/
structure Mirrors (s : PageStore Data) (written : Nat → Option Data) : Prop where
  owned : Owned s
  holds : ∀ index page, s.pageOf (some index) = some page →
    written index = some (s.memory page)
  known : ∀ index data, written index = some data →
    index < devicePages ∧ (s.gptPages index).isSome

/-- Pages may be taken away. -/
theorem Mirrors.shrinks {s next : PageStore Data} {written : Nat → Option Data}
    (mirrors : Mirrors s written) (frame : ShrinkFrame s next) (keeps : Keeps s next) :
    Mirrors next written where
  owned := frame.owned
  holds := by
    intro index page here
    rw [frame.memory index page here]
    exact mirrors.holds index page (frame.shrinks index page here)
  known := by
    intro index data last
    obtain ⟨inDevice, present⟩ := mirrors.known index data last
    exact ⟨inDevice, keeps index present⟩

theorem Mirrors.finishesAll {s next : PageStore Data} {written : Nat → Option Data}
    {indices : List Nat} (mirrors : Mirrors s written) (all : FinishesAll s indices next) :
    Mirrors next written := by
  apply mirrors.shrinks _ all.keeps
  exact ⟨all.owned mirrors.owned, fun index _ here => (all.pageOf index).symm.trans here,
    fun _ _ _ => congrFun all.memory_eq _⟩

/-- The pages that a write fills are distinct. -/
theorem Owned.located_nodup {s : PageStore Data} {indices pages : List Nat} (owned : Owned s)
    (distinct : indices.Nodup)
    (located : indices.map (fun index => s.pageOf (some index)) = pages.map some) :
    pages.Nodup := by
  apply List.Nodup.of_map some
  rw [← located]
  apply distinct.map_on
  intro first isFirst second _ same
  have member : s.pageOf (some first) ∈ pages.map some := by
    rw [← located]
    exact List.mem_map_of_mem isFirst
  obtain ⟨page, _, here⟩ := List.mem_map.mp member
  exact owned.single first second page here.symm (same.symm.trans here.symm)

/-- The page of an index of a request has the place of the index among the pages of the request. -/
theorem pageOf_located {middle : PageStore Data} {req : WriteRequest Data} {pages : List Nat}
    (located : req.indices.map (fun index => middle.pageOf (some index)) = pages.map some)
    {k : Nat} (less : k < req.buffers.length) :
    middle.pageOf (some (req.startIndex + k)) = pages[k]? := by
  have lengths : pages.length = req.buffers.length := by
    have same := congrArg List.length located
    simpa [WriteRequest.indices] using same.symm
  have same := congrArg (fun list => list[k]?) located
  have more : k < pages.length := by omega
  simpa [WriteRequest.indices, List.getElem?_range' less, less, more] using same

/-- `write_to_brd` stores each buffer in the page of its entry. -/
theorem InsertsAll.stores {s middle : PageStore Data} {req : WriteRequest Data} {pages : List Nat}
    (owned : Owned s) (sound : s.reclaimList.Sound) (all : InsertsAll s req.indices middle)
    (located : req.indices.map (fun index => middle.pageOf (some index)) = pages.map some)
    {k page : Nat} (less : k < req.buffers.length)
    (here : middle.pageOf (some (req.startIndex + k)) = some page) :
    req.buffers[k]? = some (Library.store middle.memory (pages.zip req.buffers) page) := by
  have nodup := (all.frame owned sound).owned.located_nodup List.nodup_range' located
  have lengths : pages.length = req.buffers.length := by
    have same := congrArg List.length located
    simpa [WriteRequest.indices] using same.symm
  have firsts : (pages.zip req.buffers).map Prod.fst = pages :=
    List.map_fst_zip (le_of_eq lengths)
  rw [pageOf_located located less] at here
  rw [List.getElem?_eq_getElem less]
  congr 1
  refine (store_of_mem (by rw [firsts]; exact nodup) ?_).symm
  obtain ⟨more, at_⟩ := List.getElem?_eq_some_iff.mp here
  refine List.mem_iff_getElem.mpr ⟨k, by simpa using ⟨more, less⟩, ?_⟩
  rw [List.getElem_zip, at_]

/-- `write_to_brd` fills the pages of its entries and no others. -/
theorem Mirrors.write {s middle : PageStore Data} {written : Nat → Option Data}
    {req : WriteRequest Data} {pages : List Nat} (mirrors : Mirrors s written)
    (sound : s.reclaimList.Sound) (all : InsertsAll s req.indices middle)
    (located : req.indices.map (fun index => middle.pageOf (some index)) = pages.map some) :
    Mirrors { middle with memory := Library.store middle.memory (pages.zip req.buffers) }
      (Client.record written req) := by
  have frame := all.frame mirrors.owned sound
  have lengths : pages.length = req.buffers.length := by
    have same := congrArg List.length located
    simpa [WriteRequest.indices] using same.symm
  have isIndex (index : Nat) : index ∈ req.indices ↔
      ∃ k, k < req.buffers.length ∧ index = req.startIndex + k := by
    rw [WriteRequest.indices, List.mem_range'_1]
    constructor
    · rintro ⟨low, high⟩
      exact ⟨index - req.startIndex, by omega, by omega⟩
    · rintro ⟨k, less, rfl⟩
      omega
  refine ⟨⟨frame.owned.distinct, frame.owned.apart, frame.owned.single⟩, ?_, ?_⟩
  · intro index page here
    have there : middle.pageOf (some index) = some page := here
    show Client.record written req index = some (Library.store middle.memory _ page)
    unfold Client.record
    by_cases member : index ∈ req.indices
    · rw [if_pos member]
      obtain ⟨k, less, rfl⟩ := (isIndex index).mp member
      rw [Nat.add_sub_cancel_left]
      exact all.stores mirrors.owned sound located less there
    · rw [if_neg member, mirrors.holds index page (frame.others index page member there),
        ← frame.memory, store_of_not_mem]
      intro value cell
      have among := (List.of_mem_zip cell).1
      have found : some page ∈ req.indices.map (fun index => middle.pageOf (some index)) := by
        rw [located]
        exact List.mem_map_of_mem among
      obtain ⟨other, isOther, same⟩ := List.mem_map.mp found
      rw [frame.owned.single index other page there same] at member
      exact member isOther
  · intro index data last
    unfold Client.record at last
    by_cases member : index ∈ req.indices
    · obtain ⟨k, less, rfl⟩ := (isIndex index).mp member
      have inDevice := req.inDevice
      refine ⟨by omega, ?_⟩
      have more : k < pages.length := by omega
      have here := pageOf_located located less
      rw [List.getElem?_eq_getElem more] at here
      obtain ⟨entry, found, _⟩ := exists_of_pageOf here
      show (middle.gptPages _).isSome
      rw [found]
      rfl
    · rw [if_neg member] at last
      obtain ⟨inDevice, present⟩ := mirrors.known index data last
      exact ⟨inDevice, all.keeps sound index present⟩

end PageStore

namespace Machine

variable {cpus servers : Nat} {Data : Type}

/-- The context of a posted item as `rdma_write` fills it. -/
structure CarriesItem (placement : Placement servers) (ctx : RdmaCtx servers Data)
    (item : LocalPageList) : Prop where
  sendingItem : ctx.sendingItem = some item
  wellFormed : item.WellFormed
  inside : item.Inside
  rb : ctx.rb = some (placement.block item.swapspaceIndex)
  offset : ctx.offset = item.rbOffset
  len : ctx.len = item.len * valetPageSize

/-- The data that a read request asks for, if its page was written. -/
def Right (req : ReadRequest Data) (value : Data) : Prop :=
  ∀ data, req.want = some data → value = data

/-- The connections, where the remote copy of a page may be behind while the page is among the
`Waiting` ones. -/
structure Network (placement : Placement servers) (written : Nat → Option Data)
    (Waiting : Nat → Prop)
    (conns : Fin servers → Channel (Nat × Nat) Data (RdmaCtx servers Data) (ReadRequest Data)) :
    Prop where
  remote : ∀ index data, written index = some data → ¬ Waiting index →
    (conns (placement.cbOf index)).settled (placement.addrOf index) = data
  contexts : ∀ cb, ∀ ctx ∈ (conns cb).writes, ∃ item, CarriesItem placement ctx item
  truthful : ∀ cb, (conns cb).Truthful Right

variable {placement : Placement servers} {written : Nat → Option Data} {Waiting : Nat → Prop}
  {conns : Fin servers → Channel (Nat × Nat) Data (RdmaCtx servers Data) (ReadRequest Data)}

/-- The network does not change the settled memories. -/
theorem Network.conn (network : Network placement written Waiting conns) {cb : Fin servers}
    {conn : Channel (Nat × Nat) Data (RdmaCtx servers Data) (ReadRequest Data)}
    (settled : conn.settled = (conns cb).settled)
    (writes : ∀ ctx ∈ conn.writes, ctx ∈ (conns cb).writes) (truthful : conn.Truthful Right) :
    Network placement written Waiting (Function.update conns cb conn) where
  remote := by
    intro index data last settles
    by_cases same : placement.cbOf index = cb
    · rw [same, Function.update_self, settled, ← same]
      exact network.remote index data last settles
    · rw [Function.update_of_ne same]
      exact network.remote index data last settles
  contexts := by
    intro other ctx member
    by_cases same : other = cb
    · subst same
      rw [Function.update_self] at member
      exact network.contexts other ctx (writes ctx member)
    · rw [Function.update_of_ne same] at member
      exact network.contexts other ctx member
  truthful := by
    intro other
    by_cases same : other = cb
    · subst same
      rw [Function.update_self]
      exact truthful
    · rw [Function.update_of_ne same]
      exact network.truthful other

/-- The connections after the item was posted in a context. -/
def postItem (store : PageStore Data) (placement : Placement servers)
    (conns : Fin servers → Channel (Nat × Nat) Data (RdmaCtx servers Data) (ReadRequest Data))
    (ctx : RdmaCtx servers Data) (item : LocalPageList) :
    Fin servers → Channel (Nat × Nat) Data (RdmaCtx servers Data) (ReadRequest Data) :=
  let block := placement.block item.swapspaceIndex
  Function.update conns block.1 ((conns block.1).post
    (.write (cells (itemCtx store ctx placement item) block.2)
      (itemCtx store ctx placement item)))

/-- Once an item with the latest data is posted, the remote copies of its pages settle. -/
theorem Network.postItem {store : PageStore Data} {item : LocalPageList}
    (network : Network placement written Waiting conns) (mirrors : store.Mirrors written)
    (wellFormed : item.WellFormed) (inside : item.Inside)
    (here : ∀ index ∈ item.batchList, (store.pageOf (some index)).isSome)
    (ctx : RdmaCtx servers Data) :
    Network placement written (fun index => Waiting index ∧ index ∉ item.batchList)
      (postItem store placement conns ctx item) where
  remote := by
    intro index data last settles
    unfold Machine.postItem
    by_cases listed : index ∈ item.batchList
    · obtain ⟨page, located⟩ := Option.isSome_iff_exists.mp (here index listed)
      have holds := mirrors.holds index page located
      rw [last, Option.some.injEq] at holds
      obtain ⟨k, less, rfl⟩ := wellFormed.mem.mp listed
      rw [(itemCtx_addr placement inside less).1, Function.update_self, Channel.settled_post, holds]
      exact store_item placement wellFormed inside listed located _
    · have before := network.remote index data last fun waits => settles ⟨waits, listed⟩
      by_cases same : placement.cbOf index = (placement.block item.swapspaceIndex).1
      · rw [same] at before ⊢
        rw [Function.update_self, Channel.settled_post, ← before]
        exact store_item_other placement wellFormed inside (mirrors.known index data last).1 same
          listed _
      · rw [Function.update_of_ne same]
        exact before
  contexts := by
    unfold Machine.postItem
    intro cb other member
    by_cases same : cb = (placement.block item.swapspaceIndex).1
    · subst same
      rw [Function.update_self, Channel.writes_post_write] at member
      rcases List.mem_append.mp member with old | new
      · exact network.contexts _ other old
      · rw [List.mem_singleton] at new
        subst new
        exact ⟨{ item with refCount := 0 }, rfl,
          ⟨wellFormed.batch, wellFormed.nonempty, wellFormed.fits, wellFormed.inDevice⟩, inside,
          rfl, rfl, rfl⟩
    · rw [Function.update_of_ne same] at member
      exact network.contexts cb other member
  truthful := by
    unfold Machine.postItem
    intro cb
    by_cases same : cb = (placement.block item.swapspaceIndex).1
    · subst same
      rw [Function.update_self]
      exact (network.truthful _).post_write _ _
    · rw [Function.update_of_ne same]
      exact network.truthful cb

theorem Network.mono {Fewer : Nat → Prop} (network : Network placement written Waiting conns)
    (fewer : ∀ index, Waiting index → Fewer index) :
    Network placement written Fewer conns where
  remote := fun index data last settles =>
    network.remote index data last fun waits => settles (fewer index waits)
  contexts := network.contexts
  truthful := network.truthful

variable {m next : Machine cpus servers Data (ReadRequest Data)}

/-- With every block active and every post a success, `rdma_write` posts the item. -/
theorem RdmaWrites.posts {item : LocalPageList} {failed : Bool}
    (writes : RdmaWrites m (placement.targets item.swapspaceIndex) item.rbOffset item failed next) :
    failed = false ∧ ∃ ctx rest, m.writeFreepool = ctx :: rest ∧ next = { m with
      writeFreepool := rest
      conns := postItem m.store placement m.conns ctx item } := by
  cases writes with
  | refused noCb => cases noCb
  | bounced found readonly put =>
      cases found
      exact absurd readonly (by simp [RemoteBlockState.code])
  | failed found writable error free =>
      cases found
      cases error
  | sent found writable ok free =>
      cases found
      exact ⟨rfl, _, _, free, rfl⟩

/-- What sending leaves alone. -/
structure SendFrame (m next : Machine cpus servers Data (ReadRequest Data)) : Prop where
  store : next.store = m.store
  sendingList : next.sendingList = m.sendingList
  senders : next.senders = m.senders
  bitmap : next.bitmap = m.bitmap
  ended : next.ended = m.ended

/-- `request_write` posts the whole item, in two parts where it crosses a border. -/
theorem RequestsWrite.posts {tmp item : LocalPageList} {failed : Bool}
    (network : Network placement written Waiting m.conns) (mirrors : m.store.Mirrors written)
    (wellFormed : tmp.WellFormed)
    (here : ∀ index ∈ tmp.batchList, (m.store.pageOf (some index)).isSome)
    (writes : RequestsWrite m placement.targets tmp failed item next) :
    failed = false ∧ SendFrame m next ∧
      Network placement written (fun index => Waiting index ∧ index ∉ tmp.batchList)
        next.conns := by
  cases writes with
  | whole inside writes =>
      obtain ⟨rfl, ctx, rest, _, rfl⟩ := writes.posts
      exact ⟨rfl, ⟨rfl, rfl, rfl, rfl, rfl⟩, network.postItem mirrors wellFormed
        (LocalPageList.inside_of_not_crosses wellFormed.nonempty inside) here ctx⟩
  | lost crosses second =>
      obtain ⟨succeeds, _⟩ := second.posts
      cases succeeds
  | halves crosses second first =>
      obtain ⟨_, ctx, rest, _, rfl⟩ := second.posts
      have first' : RdmaWrites _ (placement.targets tmp.firstHalf.swapspaceIndex)
        tmp.firstHalf.rbOffset tmp.firstHalf failed next := first
      obtain ⟨rfl, other, more, _, rfl⟩ := first'.posts
      obtain ⟨wellSecond, insideSecond⟩ := LocalPageList.secondHalf_wellFormed wellFormed crosses
      obtain ⟨wellFirst, insideFirst⟩ := LocalPageList.firstHalf_wellFormed wellFormed crosses
      have start := network.postItem mirrors wellSecond insideSecond
        (fun index listed => here index (List.mem_of_mem_drop listed)) ctx
      have finish := start.postItem mirrors wellFirst insideFirst
        (fun index listed => here index (List.mem_of_mem_take listed)) other
      refine ⟨rfl, ⟨rfl, rfl, rfl, rfl, rfl⟩, finish.mono ?_⟩
      rintro index ⟨⟨waits, afterBorder⟩, beforeBorder⟩
      refine ⟨waits, fun listed => ?_⟩
      rw [← List.take_append_drop tmp.border tmp.batchList, List.mem_append] at listed
      exact listed.elim beforeBorder afterBorder

/-- The page is queued or with a sender, so its remote copy may be behind. -/
def Queued (m : Machine cpus servers Data (ReadRequest Data)) (index : Nat) : Prop :=
  0 < tally (LocalPageList.mentions index) m.unposted

theorem queued_le_pending (index : Nat) :
    tally (LocalPageList.mentions index) m.unposted ≤ m.pending index := by
  rw [pending_eq]
  omega

theorem mem_unposted {item : LocalPageList} : item ∈ m.unposted ↔
    item ∈ m.sendingList.contents ∨ ∃ cpu, item ∈ (m.senders cpu).items := by
  rw [unposted, List.mem_append, mem_pooled]

/-- The bit of a page in the bitmap of its block. -/
def BitSet (placement : Placement servers) (bitmap : Fin servers → Nat → Nat → Bool)
    (index : Nat) : Prop :=
  bitmap (placement.cbOf index) (placement.addrOf index).1 (placement.addrOf index).2 = true

/-- What holds between the page store, the items on their way and the remote blocks. -/
structure Coherent (placement : Placement servers) (written : Nat → Option Data)
    (m : Machine cpus servers Data (ReadRequest Data)) : Prop where
  pinned : PinnedState m
  mirrors : m.store.Mirrors written
  recorded : m.store.Recorded (BitSet placement m.bitmap)
  network : Network placement written m.Queued m.conns
  items : ∀ item ∈ m.unposted, item.WellFormed
  answered : ∀ req value, (req, value) ∈ m.ended →
    ∀ data, req.want = some data → value = some data

/-- A page that was just written is queued. -/
theorem Network.record {req : WriteRequest Data} {More : Nat → Prop}
    (network : Network placement written Waiting conns)
    (queued : ∀ index ∈ req.indices, More index) (more : ∀ index, Waiting index → More index) :
    Network placement (Client.record written req) More conns where
  remote := by
    intro index data last settles
    unfold Client.record at last
    by_cases member : index ∈ req.indices
    · exact absurd (queued index member) settles
    · rw [if_neg member] at last
      exact network.remote index data last fun waits => settles (more index waits)
  contexts := network.contexts
  truthful := network.truthful

/-- Turns of the senders that keep the items queued. -/
theorem Coherent.turn (coherent : Coherent placement written m) (pinned : PinnedState next)
    (store : next.store = m.store) (conns : next.conns = m.conns)
    (bitmap : next.bitmap = m.bitmap) (ended : next.ended = m.ended)
    (pending : ∀ index, next.pending index = m.pending index)
    (items : ∀ item ∈ next.unposted, item.WellFormed) : Coherent placement written next where
  pinned := pinned
  mirrors := by
    rw [store]
    exact coherent.mirrors
  recorded := by
    rw [store, bitmap]
    exact coherent.recorded
  network := by
    rw [conns]
    apply coherent.network.mono
    intro index waits
    have same := pending index
    have posted : next.posted = m.posted := by rw [posted, conns, posted]
    rw [pending_eq, pending_eq, posted] at same
    unfold Queued at waits ⊢
    omega
  items := items
  answered := by
    rw [ended]
    exact coherent.answered

theorem Takes.wellFormed {tmpFirst : Option LocalPageList} {mustGo : Bool}
    {item other : LocalPageList} {sender : Sender} (takes : Takes tmpFirst mustGo item sender)
    (wellFormed : item.WellFormed) (first : ∀ held ∈ tmpFirst, held.WellFormed)
    (member : other ∈ sender.items) : other.WellFormed := by
  cases takes with
  | first =>
      rw [List.mem_singleton.mp member]
      exact wellFormed
  | only =>
      rw [List.mem_singleton.mp member]
      exact wellFormed
  | merged contiguous fits =>
      rw [List.mem_singleton.mp member]
      exact LocalPageList.merged_wellFormed (first _ rfl) wellFormed contiguous fits
  | apart =>
      rcases List.mem_cons.mp member with rfl | last
      · exact first _ rfl
      · rw [List.mem_singleton.mp last]
        exact wellFormed

/-- The items once one sender holds other items. -/
theorem mem_unposted_update {queue : AlfQueue LocalPageList} {cpu : Fin cpus} {sender : Sender}
    {item : LocalPageList} (member : item ∈ unposted { m with
      sendingList := queue, senders := Function.update m.senders cpu sender }) :
    item ∈ queue.contents ∨ item ∈ sender.items ∨ ∃ other, item ∈ (m.senders other).items := by
  rcases mem_unposted.mp member with queued | ⟨other, held⟩
  · exact Or.inl queued
  · by_cases same : other = cpu
    · subst same
      simp only [Function.update_self] at held
      exact Or.inr (Or.inl held)
    · simp only [Function.update_of_ne same] at held
      exact Or.inr (Or.inr ⟨other, held⟩)

theorem Coherent.fetch {cpu : Fin cpus} {tmpFirst : Option LocalPageList} {mustGo : Bool}
    (coherent : Coherent placement written m) (holds : m.senders cpu = .fetch tmpFirst mustGo)
    (pinned : PinnedState next) (fetches : Fetches m cpu tmpFirst mustGo next) :
    Coherent placement written next := by
  obtain ⟨_, store, pending⟩ := fetches.effect coherent.pinned.ready holds
  have first : ∀ held ∈ tmpFirst, held.WellFormed := by
    intro held member
    refine coherent.items held (mem_unposted.mpr (Or.inr ⟨cpu, ?_⟩))
    rw [holds]
    exact Option.mem_toList.mpr member
  have others : ∀ item, (∃ other, item ∈ (m.senders other).items) → item.WellFormed :=
    fun item held => coherent.items item (mem_unposted.mpr (Or.inr held))
  cases fetches with
  | ended =>
      refine coherent.turn pinned store rfl rfl rfl pending fun item member => ?_
      rcases mem_unposted_update member with queued | held | held
      · exact coherent.items item (mem_unposted.mpr (Or.inl queued))
      · rw [items_afterEmpty, Option.mem_toList] at held
        exact first item held
      · exact others item held
  | took ready contents takes =>
      have queuedWell : ∀ item ∈ m.sendingList.contents, item.WellFormed :=
        fun item queued => coherent.items item (mem_unposted.mpr (Or.inl queued))
      rw [contents] at queuedWell
      refine coherent.turn pinned store rfl rfl rfl pending fun item member => ?_
      rcases mem_unposted_update member with queued | held | held
      · exact queuedWell item (List.mem_cons_of_mem _ queued)
      · exact takes.wellFormed (queuedWell _ List.mem_cons_self) first held
      · exact others item held

theorem Coherent.call {cpu : Fin cpus} (coherent : Coherent placement written m)
    (pinned : PinnedState
      { m with senders := Function.update m.senders cpu (.fetch none false) })
    (pending : ∀ index, pending
      { m with senders := Function.update m.senders cpu (.fetch none false) } index =
        m.pending index) :
    Coherent placement written
      { m with senders := Function.update m.senders cpu (.fetch none false) } := by
  refine coherent.turn pinned rfl rfl rfl rfl pending fun item member => ?_
  rcases mem_unposted_update member with queued | held | held
  · exact coherent.items item (mem_unposted.mpr (Or.inl queued))
  · cases held
  · exact coherent.items item (mem_unposted.mpr (Or.inr held))

theorem Coherent.land {cb : Fin servers}
    {conn : Channel (Nat × Nat) Data (RdmaCtx servers Data) (ReadRequest Data)}
    (coherent : Coherent placement written m)
    (pinned : PinnedState { m with conns := Function.update m.conns cb conn })
    (lands : (m.conns cb).land = some conn) :
    Coherent placement written { m with conns := Function.update m.conns cb conn } where
  pinned := pinned
  mirrors := coherent.mirrors
  recorded := coherent.recorded
  network := by
    apply coherent.network.conn (Channel.settled_land lands)
    · intro ctx member
      rw [Channel.writes_land lands] at member
      exact member
    · exact (coherent.network.truthful cb).land lands
  items := coherent.items
  answered := coherent.answered

/-- The completion of an item sets the bits of its pages and clears none. -/
theorem CarriesItem.bits {ctx : RdmaCtx servers Data} {item : LocalPageList}
    {bitmap : Fin servers → Nat → Nat → Bool} (carries : CarriesItem placement ctx item)
    (index : Nat) (set : index ∈ item.batchList ∨ BitSet placement bitmap index) :
    BitSet placement (Function.update bitmap (placement.block item.swapspaceIndex).1
      (Function.update (bitmap (placement.block item.swapspaceIndex).1)
        (placement.block item.swapspaceIndex).2
        (bitmapGroupSet (bitmap (placement.block item.swapspaceIndex).1
          (placement.block item.swapspaceIndex).2) ctx.offset ctx.len))) index := by
  unfold BitSet at set ⊢
  rcases set with listed | before
  · obtain ⟨k, less, rfl⟩ := carries.wellFormed.mem.mp listed
    obtain ⟨cb, addr⟩ := itemCtx_addr placement carries.inside less
    have pages : ctx.len / valetPageSize = item.len := by
      rw [carries.len]
      exact Nat.mul_div_cancel _ (by decide)
    rw [cb, addr, Function.update_self, Function.update_self, carries.offset]
    unfold bitmapGroupSet
    rw [pages]
    simp [less]
  · by_cases sameCb : placement.cbOf index = (placement.block item.swapspaceIndex).1
    · rw [sameCb] at before ⊢
      rw [Function.update_self]
      by_cases sameBlock : (placement.addrOf index).1 = (placement.block item.swapspaceIndex).2
      · rw [sameBlock] at before ⊢
        rw [Function.update_self]
        simp [bitmapGroupSet, before]
      · rw [Function.update_of_ne sameBlock]
        exact before
    · rw [Function.update_of_ne sameCb]
      exact before

theorem Coherent.complete {cb : Fin servers} (coherent : Coherent placement written m)
    (pinned : PinnedState next) (handles : Handles m cb next) :
    Coherent placement written next := by
  cases handles with
  | @wrote ctx item block conn store completes sendingItem rb all =>
      have writes := Channel.writes_complete_wrote completes
      have isCtx : ctx ∈ (m.conns cb).writes := by
        rw [writes]
        exact List.mem_cons_self
      obtain ⟨same, carries⟩ := coherent.network.contexts cb ctx isCtx
      have sameItem := carries.sendingItem
      rw [sendingItem, Option.some.injEq] at sameItem
      subst sameItem
      have sameBlock := carries.rb
      rw [rb, Option.some.injEq] at sameBlock
      subst sameBlock
      refine ⟨pinned, coherent.mirrors.finishesAll all, ?_, ?_, coherent.items,
        coherent.answered⟩
      · have more := coherent.recorded.mono fun index before => carries.bits index (Or.inr before)
        exact more.finishesAll coherent.pinned.pinned.listSound
          (fun index listed => carries.bits index (Or.inl listed)) all
      · apply coherent.network.conn (Channel.settled_complete completes)
        · intro other member
          rw [writes]
          exact List.mem_cons_of_mem _ member
        · exact (coherent.network.truthful cb).complete completes
  | @fetched req value conn completes =>
      refine ⟨pinned, coherent.mirrors, coherent.recorded, ?_, coherent.items, ?_⟩
      · apply coherent.network.conn (Channel.settled_complete completes)
        · intro other member
          rw [Channel.writes_complete_fetched completes]
          exact member
        · exact (coherent.network.truthful cb).complete completes
      · intro other answer member data want
        rcases List.mem_append.mp member with old | new
        · exact coherent.answered other answer old data want
        · cases List.mem_singleton.mp new
          have right := (coherent.network.truthful cb).answer completes
          rw [right data want]

theorem Coherent.read {index : Nat} (coherent : Coherent placement written m)
    (pinned : PinnedState next)
    (reads : Reads m placement.targets index ⟨index, written index⟩ next) :
    Coherent placement written next := by
  have block : startOf index >>> oneGbShift = index / swapspacePages := startOf_swapspace index
  have offset : (startOf index &&& oneGbMask) / valetPageSize = index % swapspacePages :=
    startOf_offset index
  have bit (gone : m.store.pageOf (some index) = none) {data : Data}
      (last : written index = some data) : BitSet placement m.bitmap index := by
    obtain ⟨_, present⟩ := coherent.mirrors.known index data last
    obtain ⟨entry, found⟩ := Option.isSome_iff_exists.mp present
    rw [PageStore.pageOf_eq found] at gone
    exact coherent.recorded.gone index entry found gone
  cases reads with
  | @«local» page here =>
      refine ⟨pinned, coherent.mirrors, coherent.recorded, coherent.network, coherent.items, ?_⟩
      intro other value member data want
      rcases List.mem_append.mp member with old | new
      · exact coherent.answered other value old data want
      · cases List.mem_singleton.mp new
        have holds := coherent.mirrors.holds index page here
        exact holds.symm.trans want
  | @remote target gone found recorded ok =>
      rw [block, placement.targets_eq, Option.some.injEq] at found
      subst found
      refine ⟨pinned, coherent.mirrors, coherent.recorded, ?_, coherent.items, coherent.answered⟩
      apply coherent.network.conn
      · rw [Channel.settled_post]
        rfl
      · intro ctx member
        rw [Channel.writes_post_read] at member
        exact member
      · apply (coherent.network.truthful _).post_read
        intro data last
        rw [offset]
        refine coherent.network.remote index data last fun queued => ?_
        have positive : 0 < m.pending index := Nat.lt_of_lt_of_le queued (queued_le_pending index)
        obtain ⟨page, safe⟩ := coherent.pinned.pinned.safe positive
        rw [safe.pageOf] at gone
        cases gone
  | nowhere gone missed =>
      refine ⟨pinned, coherent.mirrors, coherent.recorded, coherent.network, coherent.items, ?_⟩
      intro other value member data want
      rcases List.mem_append.mp member with old | new
      · exact coherent.answered other value old data want
      · cases List.mem_singleton.mp new
        have set := bit gone want
        have clear := missed _ (by rw [block]; exact placement.targets_eq _) rfl rfl
        rw [offset] at clear
        have conflict : false = true := clear.symm.trans set
        cases conflict

variable [Inhabited Data]

theorem Coherent.write {env : Nat → AllocEnv} {req : WriteRequest Data}
    (coherent : Coherent placement written m)
    (room : m.sendingList.alfQueueCount < AlfQueue.ringReach) (pinned : PinnedState next)
    (writes : Writes m env req next) : Coherent placement (Client.record written req) next := by
  cases writes with
  | @queued middle pages queue inserted located put =>
      have sound := coherent.pinned.pinned.listSound
      have all := PageStore.insertsAll_of_some sound inserted
      have contents := coherent.pinned.ready.contents_enqueue room put
      have after := coherent.recorded.insertsAll sound all
      refine ⟨pinned, coherent.mirrors.write sound all located, ⟨after.listed, after.gone⟩,
        coherent.network.record ?_ ?_, ?_, coherent.answered⟩
      · intro index member
        have mentioned : 0 < LocalPageList.mentions index ⟨req.startIndex, req.indices, 0⟩ :=
          List.count_pos_iff.mpr member
        simp only [Queued, unposted, contents, tally_append, tally_cons, tally_nil]
        omega
      · intro index waits
        simp only [Queued, unposted, contents, tally_append, tally_cons, tally_nil] at waits ⊢
        omega
      · intro item member
        simp only [unposted, contents, List.mem_append, List.mem_singleton, or_assoc] at member
        rcases member with old | rfl | held
        · exact coherent.items item (List.mem_append_left _ old)
        · have len : LocalPageList.len ⟨req.startIndex, req.indices, 0⟩ = req.buffers.length :=
            List.length_range'
          refine ⟨?_, ?_, ?_, ?_⟩
          · rw [len]
            rfl
          · rw [len]
            exact req.nonempty
          · rw [len]
            exact req.fits
          · rw [len]
            exact req.inDevice
        · exact coherent.items item (List.mem_append_right _ held)

theorem Coherent.send {cpu : Fin cpus} {tmpFirst : LocalPageList} {tmp : Option LocalPageList}
    (coherent : Coherent placement written m) (holds : m.senders cpu = .send tmpFirst tmp)
    (pinned : PinnedState next) (sends : Sends m cpu placement.targets tmpFirst tmp next) :
    Coherent placement written next := by
  have held (item : LocalPageList) (member : item ∈ (m.senders cpu).items) : item ∈ m.unposted :=
    mem_unposted.mpr (Or.inr ⟨cpu, member⟩)
  have isFirst : tmpFirst ∈ (m.senders cpu).items := by
    rw [holds]
    exact List.mem_cons_self
  have here : ∀ index ∈ tmpFirst.batchList, (m.store.pageOf (some index)).isSome := by
    intro index listed
    exact coherent.pinned.pagesStay.1 tmpFirst (List.mem_append_left _ (held _ isFirst)) index listed
  have wellFormed := coherent.items tmpFirst (held _ isFirst)
  cases sends with
  | again writes put =>
      obtain ⟨succeeds, _⟩ := writes.posts coherent.network coherent.mirrors wellFormed here
      cases succeeds
  | @sent item middle writes =>
      obtain ⟨_, frame, network⟩ :=
        writes.posts coherent.network coherent.mirrors wellFormed here
      refine ⟨pinned, ?_, ?_, ?_, ?_, ?_⟩
      · show middle.store.Mirrors written
        rw [frame.store]
        exact coherent.mirrors
      · show middle.store.Recorded (BitSet placement middle.bitmap)
        rw [frame.store, frame.bitmap]
        exact coherent.recorded
      · apply network.mono
        rintro index ⟨waits, unlisted⟩
        have moved := heldBySenders_update m cpu (afterSend tmp) index
        rw [items_afterSend, holds, Sender.items, tally_cons] at moved
        have none : tmpFirst.mentions index = 0 := List.count_eq_zero.mpr unlisted
        simp only [Queued, unposted, tally_append, frame.sendingList, frame.senders] at waits ⊢
        simp only [heldBySenders] at moved
        omega
      · intro other member
        have place := mem_unposted_update (m := middle) member
        rw [frame.sendingList, frame.senders] at place
        rcases place with queued | mine | others
        · exact coherent.items other (mem_unposted.mpr (Or.inl queued))
        · refine coherent.items other (held _ ?_)
          rw [holds, Sender.items]
          rw [items_afterSend] at mine
          exact List.mem_cons_of_mem _ mine
        · exact coherent.items other (mem_unposted.mpr (Or.inr others))
      · show ∀ req value, (req, value) ∈ middle.ended → _
        rw [frame.ended]
        exact coherent.answered

theorem Coherent.reclaim {element : Option Nat} {middle : PageStore Data}
    (coherent : Coherent placement written m)
    (pinned : PinnedState { m with store := element.elim middle middle.valetMempoolFree })
    (reclaims : PageStore.Reclaims m.store element middle) :
    Coherent placement written
      { m with store := element.elim middle middle.valetMempoolFree } where
  pinned := pinned
  mirrors := by
    apply coherent.mirrors.shrinks (reclaims.freed coherent.mirrors.owned)
    have keeps := reclaims.drains.keeps
    cases element <;> exact keeps
  recorded := by
    have after := coherent.recorded.drains reclaims.drains
    cases element with
    | none => exact after
    | some page => exact ⟨after.listed, after.gone⟩
  network := coherent.network
  items := coherent.items
  answered := coherent.answered

theorem coherent_init {minPoolPages writeCapNr readCapNr : Nat} :
    Coherent placement (fun _ => none) (init minPoolPages AlfQueue.maxPoolPages writeCapNr
      readCapNr : Machine cpus servers Data (ReadRequest Data)) where
  pinned := pinnedState_init minPoolPages writeCapNr readCapNr
  mirrors :=
    { owned := ⟨Mempool.nodup_allocatedPages minPoolPages, fun _ _ here => (nomatch here),
        fun _ _ _ here => (nomatch here)⟩
      holds := fun _ _ here => nomatch here
      known := fun _ _ last => nomatch last }
  recorded :=
    { listed := by
        intro index member
        simp [init] at member
      gone := fun _ _ found => nomatch found }
  network :=
    { remote := fun _ _ last => nomatch last
      contexts := by
        intro cb ctx member
        simp [init, Channel.writes] at member
      truthful := fun _ => ⟨trivial, fun _ _ member => nomatch member⟩ }
  items := by
    intro item member
    simp [init, unposted, Sender.items] at member
  answered := fun _ _ member => nomatch member

end Machine

namespace Client

variable {cpus servers : Nat} {Data : Type} [Inhabited Data] {placement : Placement servers}

theorem coherent_step {c next : Client cpus servers Data} {label : ClientLabel cpus servers Data}
    (coherent : Machine.Coherent placement c.written c.machine)
    (guard : CountedStep placement c label) (edge : c.step placement label = some next) :
    Machine.Coherent placement next.written next.machine := by
  obtain ⟨machine, ran, rfl⟩ := Option.map_eq_some_iff.mp edge
  have pinned := coherent.pinned.step guard ran
  have outcome :=
    Machine.outcome_of_step coherent.pinned.ready coherent.pinned.pinned.listSound ran
  obtain ⟨_, effect⟩ := outcome.effect coherent.pinned.ready guard.2
  cases label with
  | write env req =>
      cases outcome with
      | write writes => exact coherent.write guard.2 pinned writes
  | call cpu =>
      cases outcome with
      | call idle =>
          cases effect with
          | moved _ pending => exact coherent.call pinned pending
  | fetch cpu =>
      cases outcome with
      | fetch holds fetches => exact coherent.fetch holds pinned fetches
  | send cpu =>
      cases outcome with
      | send holds sends => exact coherent.send holds pinned sends
  | land cb =>
      cases outcome with
      | land lands => exact coherent.land pinned lands
  | complete cb =>
      cases outcome with
      | complete handles => exact coherent.complete pinned handles
  | reclaim =>
      cases outcome with
      | reclaim reclaims => exact coherent.reclaim pinned reclaims
  | read index =>
      cases outcome with
      | read reads => exact coherent.read pinned reads

/-- From an empty page table, as long as no write overwrites an entry whose creating write is
outstanding and the sending list stays within the reach of its ring, reads are up to date. -/
theorem reads_latest {minPoolPages writeCapNr readCapNr : Nat}
    {labels : List (ClientLabel cpus servers Data)} {last : Client cpus servers Data}
    (run : Run (step placement) (CountedStep placement)
      (init minPoolPages AlfQueue.maxPoolPages writeCapNr readCapNr) labels last) :
    ReadsLatest last := by
  have coherent : Machine.Coherent placement last.written last.machine :=
    run.preserves (fun coherent guard edge => coherent_step coherent guard edge)
      Machine.coherent_init
  exact coherent.answered

/-- Each swapspace on the block of its own number. -/
def inOrder : Placement 1 where
  block := fun swapspaceIndex => (0, swapspaceIndex)
  distinct := fun _ _ _ _ same => congrArg Prod.snd same

/-- Write page 0 and let the write complete; with the pool exhausted write page 1, which takes
the page of page 0; then read page 0 from its block. -/
def calmRead : List (ClientLabel 2 1 Nat) :=
  [.write allocated (pageRequest 0 7 zero_inside), .call 0, .fetch 0, .fetch 0, .send 0,
    .land 0, .complete 0, .write allocated (pageRequest 1 9 one_inside), .read 0, .land 0,
    .complete 0]

theorem reads_latest_calm : ∃ last : Client 2 1 Nat,
    exec (step inOrder) (init 1 AlfQueue.maxPoolPages 4 4) calmRead = some last ∧
      ReadsLatest last := by
  have ran : (exec (guardedStep (step inOrder) (CountedStep inOrder))
      (init 1 AlfQueue.maxPoolPages 4 4) calmRead).isSome = true := by
    decide +kernel
  obtain ⟨last, guarded⟩ := Option.isSome_iff_exists.mp ran
  have run := run_of_guarded guarded
  exact ⟨last, run.exec_eq, reads_latest run⟩

/-- `Machine.overwriteRace`, and a read of page 0 while its second write is still queued. -/
def staleRead : List (ClientLabel 2 1 Nat) :=
  [.write allocated (pageRequest 0 7 zero_inside), .call 0, .fetch 0, .fetch 0, .send 0,
    .write allocated (pageRequest 0 8 zero_inside), .land 0, .complete 0,
    .write allocated (pageRequest 1 9 one_inside), .read 0, .land 0, .complete 0]

/-- Some read of a written page ended with other data. -/
def readStale (c : Client cpus servers Nat) : Bool :=
  c.machine.ended.any fun answer => answer.1.want.isSome && answer.1.want != answer.2

/-- The read gets 7, what the first write put on the block, although 8 was written last. -/
theorem staleRead_returns_old : ¬ ∀ (labels : List (ClientLabel 2 1 Nat))
    (last : Client 2 1 Nat),
    Run (step inOrder) always (init 1 AlfQueue.maxPoolPages 4 4) labels last →
      ReadsLatest last := by
  intro claim
  have stale : ((exec (step inOrder) (init 1 AlfQueue.maxPoolPages 4 4) staleRead).map
      readStale) = some true := by
    decide +kernel
  obtain ⟨last, ran, stale⟩ := Option.map_eq_some_iff.mp stale
  obtain ⟨⟨req, value⟩, member, differs⟩ := List.any_eq_true.mp stale
  rw [Bool.and_eq_true, bne_iff_ne] at differs
  obtain ⟨wanted, other⟩ := differs
  obtain ⟨data, want⟩ := Option.isSome_iff_exists.mp wanted
  have latest := claim staleRead last (run_of_exec ran) req value member data want
  exact other (want.trans latest.symm)

end Client

end Valet.Bd
