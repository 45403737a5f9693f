import Valet.Library.Sizes
import Valet.Bd.PageStore
import Valet.Library.Tally

/-!
# The data path

Writes are stored in the page store and queued as items of consecutive pages;
senders on the CPUs take items off the sending list, merge what is contiguous,
split what crosses a swapspace border and post the pages to the server; the
completions release the pages for reclaim.  Reads are served from the local
page or from the remote block.

This is the configuration of the source: one replica and no disk backup.  An
item has one owner at a time, so it is passed by value.  What `get_cb` and the
block tables answer, and whether a post succeeds, is supplied with each step.
-/

namespace Valet.Bd

open Valet.Library

def valetPageSize : Nat := 4096

def sectorShift : Nat := 9

def sectorsPerPageShift : Nat := 3

def oneGbShift : Nat := 30

def oneGbMask : Nat := 0x3fffffff

def rdmaWrBufLen : Nat := 128

def swapspaceSizeG : Nat := 40

/-- The pages of a device of `SWAPSPACE_SIZE_G` gigabytes. -/
def devicePages : Nat := 10485760

def numReplica : Nat := 1

/-- A write request of the block layer: whole pages, as many as an item can list. -/
structure WriteRequest (Data : Type) where
  startIndex : Nat
  buffers : List Data
  nonempty : 0 < buffers.length
  fits : buffers.length ≤ rdmaWrBufLen
  inDevice : startIndex + buffers.length ≤ devicePages

/-- The pages that a request writes. -/
def WriteRequest.indices {Data : Type} (req : WriteRequest Data) : List Nat :=
  List.range' req.startIndex req.buffers.length

/-- `struct local_page_list`; `len` is the length of the batch list. -/
structure LocalPageList where
  startIndex : Nat
  batchList : List Nat
  refCount : Nat

/-- The byte position of a page. -/
def startOf (index : Nat) : Nat := index <<< (sectorsPerPageShift + sectorShift)

/-- The search of `request_write` for the first page beyond the swapspace. -/
def borderIndex (swapspaceIndex start : Nat) : Nat → Nat → Nat
  | 0, border => border
  | left + 1, border =>
      if swapspaceIndex ≠ (start + border * valetPageSize) >>> oneGbShift then
        border
      else
        borderIndex swapspaceIndex start left (border + 1)

namespace LocalPageList

def len (item : LocalPageList) : Nat := item.batchList.length

def swapspaceIndex (item : LocalPageList) : Nat := startOf item.startIndex >>> oneGbShift

def rbOffset (item : LocalPageList) : Nat := startOf item.startIndex &&& oneGbMask

def boundaryIndex (item : LocalPageList) : Nat :=
  (startOf item.startIndex + item.len * valetPageSize - valetPageSize) >>> oneGbShift

def crossesBorder (item : LocalPageList) : Bool := item.swapspaceIndex != item.boundaryIndex

def border (item : LocalPageList) : Nat :=
  borderIndex item.swapspaceIndex (startOf item.startIndex) item.len 0

/-- What is left of an item that is split at the border. -/
def firstHalf (item : LocalPageList) : LocalPageList :=
  { item with batchList := item.batchList.take item.border }

/-- `sec_tmp` of `request_write`. -/
def secondHalf (item : LocalPageList) : LocalPageList :=
  ⟨item.startIndex + item.border, item.batchList.drop item.border, 0⟩

end LocalPageList

inductive RemoteBlockState where
  | active
  | readonly
  | noneAllowed
  | inactive
  deriving DecidableEq

/-- The values of `enum remote_block_state`. -/
def RemoteBlockState.code : RemoteBlockState → Nat
  | active => 1
  | readonly => 2
  | noneAllowed => 3
  | inactive => 4

/-- What a swapspace resolves to, and whether posting there succeeds. -/
structure Target (servers : Nat) where
  cb : Fin servers
  rbIndex : Nat
  rbState : RemoteBlockState
  postOk : Bool

/-- `struct rdma_ctx` of a write; `rb` is the block with the server it is on. -/
structure RdmaCtx (servers : Nat) (Data : Type) where
  rdmaBuf : Nat → Data
  sendingItem : Option LocalPageList
  rb : Option (Fin servers × Nat)
  offset : Nat
  len : Nat

/-- `remote_sender_fn`: not running, about to take an item, or about to send one. -/
inductive Sender where
  | idle
  | fetch (tmpFirst : Option LocalPageList) (mustGo : Bool)
  | send (tmpFirst : LocalPageList) (tmp : Option LocalPageList)

/-- The client with its connections; `ended` lists the read requests that were ended, with what
was copied into their buffers. -/
structure Machine (cpus servers : Nat) (Data Req : Type) where
  store : PageStore Data
  sendingList : AlfQueue LocalPageList
  senders : Fin cpus → Sender
  writeFreepool : List (RdmaCtx servers Data)
  writeCapNr : Nat
  readFreepool : Nat
  readCapNr : Nat
  conns : Fin servers → Channel (Nat × Nat) Data (RdmaCtx servers Data) Req
  bitmap : Fin servers → Nat → Nat → Bool
  ended : List (Req × Option Data)

namespace Machine

variable {cpus servers : Nat} {Data Req : Type}

/-- The callers repeat `put_sending_index` until it succeeds. -/
def putSendingIndex (m : Machine cpus servers Data Req) (item : LocalPageList) :
    Except Halt (Machine cpus servers Data Req) :=
  match m.sendingList.alfMpEnqueue item with
  | none => .error .spin
  | some queue => .ok { m with sendingList := queue }

def getSendingIndex (m : Machine cpus servers Data Req) :
    Option (Option LocalPageList × Machine cpus servers Data Req) :=
  if m.sendingList.alfQueueEmpty then
    none
  else
    match m.sendingList.alfMcDequeue with
    | none => none
    | some (ptr, queue) => some (ptr, { m with sendingList := queue })

def writeToBrd [Inhabited Data] (env : Nat → AllocEnv) (m : Machine cpus servers Data Req)
    (req : WriteRequest Data) : Except Halt (Machine cpus servers Data Req) := do
  let (entries, store) ← m.store.insertPages env req.indices
  let store ← store.copyPages entries req.buffers
  putSendingIndex { m with store := store } ⟨req.startIndex, entries.reduceOption, 0⟩

/-- One turn of the loop of `remote_sender_fn` up to the label `send`. -/
def senderFetch (m : Machine cpus servers Data Req) (cpu : Fin cpus)
    (tmpFirst : Option LocalPageList) (mustGo : Bool) :
    Except Halt (Machine cpus servers Data Req) :=
  let become (m : Machine cpus servers Data Req) (sender : Sender) :=
    { m with senders := Function.update m.senders cpu sender }
  match m.getSendingIndex with
  | none =>
      match tmpFirst with
      | none => .ok (become m .idle)
      | some first => .ok (become m (.send first none))
  | some (none, _) => .error .oops
  | some (some tmp, m) =>
      match tmpFirst with
      | none =>
          if mustGo then
            .ok (become m (.send tmp none))
          else
            .ok (become m (.fetch (some tmp) mustGo))
      | some first =>
          if tmp.startIndex = first.startIndex + first.len ∧
              first.len + tmp.len ≤ rdmaWrBufLen then
            .ok (become m
              (.fetch (some { first with batchList := first.batchList ++ tmp.batchList }) mustGo))
          else
            .ok (become m (.send first (some tmp)))

/-- The copy loop of `rdma_write`; an entry without a page leaves the buffer as it was. -/
def fillBuf (store : PageStore Data) : (Nat → Data) → Nat → List Nat → Nat → Data
  | buf, _, [] => buf
  | buf, i, entry :: rest =>
      match store.pageOf (some entry) with
      | none => fillBuf store buf (i + 1) rest
      | some page => fillBuf store (Function.update buf i (store.memory page)) (i + 1) rest

/-- The pages of the buffer with their places in the block. -/
def cells (ctx : RdmaCtx servers Data) (rbIndex : Nat) : List ((Nat × Nat) × Data) :=
  (List.range (ctx.len / valetPageSize)).map fun i =>
    ((rbIndex, ctx.offset / valetPageSize + i), ctx.rdmaBuf i)

/-- The context as `rdma_write` and `__rdma_write` fill it. -/
def loadCtx (store : PageStore Data) (ctx : RdmaCtx servers Data) (target : Target servers)
    (offset : Nat) (tmp : LocalPageList) : RdmaCtx servers Data where
  rdmaBuf := fillBuf store ctx.rdmaBuf 0 tmp.batchList
  sendingItem := some { tmp with refCount := 0 }
  rb := some (target.cb, target.rbIndex)
  offset := offset
  len := tmp.len * valetPageSize

/-- `rdma_write` with `__rdma_write`; the flag is the error return. -/
def rdmaWrite (m : Machine cpus servers Data Req) (target : Option (Target servers))
    (offset : Nat) (tmp : LocalPageList) :
    Except Halt (Bool × Machine cpus servers Data Req) :=
  match target with
  | none => .ok (true, m)
  | some target =>
      if target.rbState.code ≥ RemoteBlockState.readonly.code then do
        let m ← m.putSendingIndex tmp
        return (false, m)
      else
        match m.writeFreepool with
        | [] => .error .spin
        | ctx :: rest =>
            let m := { m with writeFreepool := rest }
            let ctx := loadCtx m.store ctx target offset tmp
            if target.postOk then
              .ok (false, { m with
                conns := Function.update m.conns target.cb
                  ((m.conns target.cb).post (.write (cells ctx target.rbIndex) ctx)) })
            else
              .ok (true, m)

/-- `request_write`: the error return, and the item as the call leaves it. -/
def requestWrite (m : Machine cpus servers Data Req) (targets : Nat → Option (Target servers))
    (tmp : LocalPageList) : Except Halt (Bool × LocalPageList × Machine cpus servers Data Req) :=
  if tmp.crossesBorder then do
    let secTmp := tmp.secondHalf
    let (failed, m) ← m.rdmaWrite (targets secTmp.swapspaceIndex) secTmp.rbOffset secTmp
    if failed then
      return (true, tmp.firstHalf, m)
    else do
      let (failed, m) ← m.rdmaWrite (targets tmp.swapspaceIndex) tmp.rbOffset tmp.firstHalf
      return (failed, tmp.firstHalf, m)
  else do
    let (failed, m) ← m.rdmaWrite (targets tmp.swapspaceIndex) tmp.rbOffset tmp
    return (failed, tmp, m)

/-- `remote_sender_fn` from the label `send` to the end of the turn. -/
def senderSend (m : Machine cpus servers Data Req) (cpu : Fin cpus)
    (targets : Nat → Option (Target servers)) (tmpFirst : LocalPageList)
    (tmp : Option LocalPageList) : Except Halt (Machine cpus servers Data Req) := do
  let (failed, tmpFirst, m) ← m.requestWrite targets tmpFirst
  let m ← if failed then m.putSendingIndex tmpFirst else pure m
  let sender : Sender := match tmp with
    | none => .idle
    | some tmp => .fetch (some tmp) true
  return { m with senders := Function.update m.senders cpu sender }

/-- `valet_bitmap_group_set`. -/
def bitmapGroupSet (bitmap : Nat → Bool) (offset len : Nat) (page : Nat) : Bool :=
  (decide (offset / valetPageSize ≤ page) &&
    decide (page < offset / valetPageSize + len / valetPageSize)) || bitmap page

/-- `BUG_ON` guards the capacity of the pool. -/
def putWriteFreepool (m : Machine cpus servers Data Req) (ctx : RdmaCtx servers Data) :
    Except Halt (Machine cpus servers Data Req) :=
  if m.writeFreepool.length ≥ m.writeCapNr then
    .error .bugOn
  else
    .ok { m with writeFreepool := ctx :: m.writeFreepool }

/-- `write_done_postwork`.  A context without block or item never comes back from a
connection; the handler would give the connection up. -/
def writeDonePostwork (m : Machine cpus servers Data Req) (ctx : RdmaCtx servers Data) :
    Except Halt (Machine cpus servers Data Req) :=
  match ctx.rb, ctx.sendingItem with
  | some (cb, rbIndex), some item => do
      let item := { item with refCount := item.refCount + 1 }
      let blocks := Function.update (m.bitmap cb) rbIndex
        (bitmapGroupSet (m.bitmap cb rbIndex) ctx.offset ctx.len)
      let m := { m with bitmap := Function.update m.bitmap cb blocks }
      if item.refCount < numReplica then
        return m
      else do
        let store ← m.store.writeDoneEntries item.batchList
        putWriteFreepool { m with store := store } { ctx with sendingItem := none, rb := none }
  | _, _ => .error .oops

/-- `read_done_postwork`. -/
def readDonePostwork (m : Machine cpus servers Data Req) (req : Req) (value : Data) :
    Except Halt (Machine cpus servers Data Req) :=
  if m.readFreepool ≥ m.readCapNr then
    .error .bugOn
  else
    .ok { m with readFreepool := m.readFreepool + 1, ended := m.ended ++ [(req, some value)] }

/-- `rdma_cq_event_handler` for one completion of the connection. -/
def handleCompletion (m : Machine cpus servers Data Req) (cb : Fin servers) :
    Option (Except Halt (Machine cpus servers Data Req)) :=
  match (m.conns cb).complete with
  | none => none
  | some (first, conn) =>
      let m := { m with conns := Function.update m.conns cb conn }
      match first with
      | .wrote ctx => some (m.writeDonePostwork ctx)
      | .fetched req value => some (m.readDonePostwork req value)

/-- `request_read`; the flag tells that a remote read was posted. -/
def requestRead (m : Machine cpus servers Data Req) (targets : Nat → Option (Target servers))
    (index : Nat) (req : Req) : Except Halt (Bool × Machine cpus servers Data Req) :=
  let start := startOf index
  let rbOffset := start &&& oneGbMask
  match targets (start >>> oneGbShift) with
  | none => .ok (false, m)
  | some target =>
      if target.rbState = .readonly ∨ target.rbState = .noneAllowed then
        .ok (false, m)
      else if m.bitmap target.cb target.rbIndex (rbOffset / valetPageSize) then
        if m.readFreepool = 0 then
          .error .spin
        else
          let m := { m with readFreepool := m.readFreepool - 1 }
          if target.postOk then
            .ok (true, { m with
              conns := Function.update m.conns target.cb ((m.conns target.cb).post
                (.read (target.rbIndex, rbOffset / valetPageSize) req)) })
          else
            .ok (false, m)
      else
        .ok (false, m)

/-- A request that neither the page store nor a remote block serves ends as it is. -/
def readFromBrd (m : Machine cpus servers Data Req) (targets : Nat → Option (Target servers))
    (index : Nat) (req : Req) : Except Halt (Machine cpus servers Data Req) :=
  match m.store.pageOf (some index) with
  | some page => .ok { m with ended := m.ended ++ [(req, some (m.store.memory page))] }
  | none => do
      let (posted, m) ← m.requestRead targets index req
      if posted then
        return m
      else
        return { m with ended := m.ended ++ [(req, none)] }

/-- One turn of the reclaim loop of `valet_mempool_shrink`. -/
def shrinkOnce [Inhabited Data] (m : Machine cpus servers Data Req) :
    Except Halt (Machine cpus servers Data Req) := do
  let (element, store) ← m.store.valetMempoolReclaim
  match element with
  | none => return { m with store := store }
  | some page => return { m with store := store.valetMempoolFree page }

end Machine

/-- The steps of the client, and of the network for it. -/
inductive DataLabel (cpus servers : Nat) (Data Req : Type) where
  | write (env : Nat → AllocEnv) (req : WriteRequest Data)
  | call (cpu : Fin cpus)
  | fetch (cpu : Fin cpus)
  | send (cpu : Fin cpus) (targets : Nat → Option (Target servers))
  | land (cb : Fin servers)
  | complete (cb : Fin servers)
  | reclaim
  | read (targets : Nat → Option (Target servers)) (index : Nat) (req : Req)

namespace Machine

variable {cpus servers : Nat} {Data Req : Type} [Inhabited Data]

def step (m : Machine cpus servers Data Req) :
    DataLabel cpus servers Data Req → Option (Machine cpus servers Data Req)
  | .write env req => (m.writeToBrd env req).toOption
  | .call cpu =>
      match m.senders cpu with
      | .idle => some { m with senders := Function.update m.senders cpu (.fetch none false) }
      | _ => none
  | .fetch cpu =>
      match m.senders cpu with
      | .fetch tmpFirst mustGo => (m.senderFetch cpu tmpFirst mustGo).toOption
      | _ => none
  | .send cpu targets =>
      match m.senders cpu with
      | .send tmpFirst tmp => (m.senderSend cpu targets tmpFirst tmp).toOption
      | _ => none
  | .land cb =>
      (m.conns cb).land.map fun conn => { m with conns := Function.update m.conns cb conn }
  | .complete cb => (m.handleCompletion cb).bind Except.toOption
  | .reclaim => m.shrinkOnce.toOption
  | .read targets index req => (m.readFromBrd targets index req).toOption

/-- `mempool_init` with the two sizes that it hands to `set_mempool_size`, and free pools of
`writeCapNr` and `readCapNr` contexts. -/
def init (minPoolPages maxPoolPages writeCapNr readCapNr : Nat) :
    Machine cpus servers Data Req where
  store :=
    { pool := .valetMempoolCreate minPoolPages
      gptPages := fun _ => none
      reclaimList := alfQueueAlloc maxPoolPages
      memory := fun _ => default }
  sendingList := alfQueueAlloc maxPoolPages
  senders := fun _ => .idle
  writeFreepool := List.replicate writeCapNr ⟨fun _ => default, none, none, 0, 0⟩
  writeCapNr := writeCapNr
  readFreepool := readCapNr
  readCapNr := readCapNr
  conns := fun _ => ⟨fun _ => default, [], []⟩
  bitmap := fun _ _ _ => false
  ended := []

end Machine

end Valet.Bd
