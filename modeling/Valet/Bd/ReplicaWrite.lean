import Valet.Bd.DataPath

/-!
# Writes to several replicas

`rdma_write` takes one context for every replica from the pool, fills them in,
hands the data to the disk where the disk backup is compiled in, and posts the
contexts one after the other.  All replicas send from the buffer of the primary
context, and the completions, in any order, decide between them who returns
which context and who frees the item.  Every post succeeds here.

There are `replicas + 1` replicas, and `diskbackup` tells whether `DISKBACKUP` is
defined.  A context is named by its number, an item by the number of the call
of `rdma_write` it was given to; the address of a freed item is not used again.
-/

namespace Valet.Bd

open Valet.Library

/-- `struct rdma_ctx` of a write; `buffer` is the context whose buffer it sends from, and `rb` is
the block with the server it is on. -/
structure WriteCtx where
  replicaIndex : Nat
  primeCtx : Option Nat
  sendingItem : Option Nat
  rb : Option (Nat × Nat)
  offset : Nat
  len : Nat
  buffer : Nat
  inFlight : Bool

/-- The variables of a call of `rdma_write`: where the replicas are, the contexts taken so far,
and how far the call is. -/
structure WriteCall (replicas : Nat) where
  blocks : Fin (replicas + 1) → Nat × Nat
  offset : Nat
  ctx : Fin (replicas + 1) → Nat
  loaded : Nat
  diskQueued : Bool
  posted : Nat

/-- A write under way, with the replica and the call it belongs to. -/
@[ext]
structure PostedWrite (replicas : Nat) where
  ctx : Nat
  item : Nat
  replica : Fin (replicas + 1)
  deriving DecidableEq

/-- A bio under way, with the call it belongs to. -/
@[ext]
structure QueuedBio where
  ctx : Nat
  item : Nat
  deriving DecidableEq

/-- What has happened to an item; no function reads it. -/
structure Flight (replicas : Nat) where
  handled : Fin (replicas + 1) → Bool
  diskHandled : Bool
  freed : Nat
  marked : Nat
  putBack : Fin (replicas + 1) → Nat
  dropped : Nat

structure ReplicaWriter (replicas : Nat) (diskbackup : Bool) (Data : Type) where
  ctxs : Nat → WriteCtx
  freepool : List Nat
  capNr : Nat
  items : Nat → Option LocalPageList
  calls : Nat → WriteCall replicas
  nextItem : Nat
  posted : List (PostedWrite replicas)
  bios : List QueuedBio
  store : PageStore Data
  bitmap : Nat → Nat → Nat → Bool
  flights : Nat → Flight replicas
  takenBy : Nat → Nat × Fin (replicas + 1)

/-- The completions that `num_replica` waits for. -/
def completionsNeeded (replicas : Nat) (diskbackup : Bool) : Nat :=
  replicas + 1 + if diskbackup then 1 else 0

namespace ReplicaWriter

variable {replicas : Nat} {diskbackup : Bool} {Data : Type}

def modifyCtx (s : ReplicaWriter replicas diskbackup Data) (ctx : Nat)
    (change : WriteCtx → WriteCtx) : ReplicaWriter replicas diskbackup Data :=
  { s with ctxs := Function.update s.ctxs ctx (change (s.ctxs ctx)) }

def modifyCall (s : ReplicaWriter replicas diskbackup Data) (item : Nat)
    (change : WriteCall replicas → WriteCall replicas) : ReplicaWriter replicas diskbackup Data :=
  { s with calls := Function.update s.calls item (change (s.calls item)) }

def modifyFlight (s : ReplicaWriter replicas diskbackup Data) (item : Nat)
    (change : Flight replicas → Flight replicas) : ReplicaWriter replicas diskbackup Data :=
  { s with flights := Function.update s.flights item (change (s.flights item)) }

/-! ## `rdma_write` -/

/-- The call up to the loop over the replicas, with the answers of `get_cb` and of the tables. -/
def start (s : ReplicaWriter replicas diskbackup Data) (tmp : LocalPageList)
    (blocks : Fin (replicas + 1) → Nat × Nat) (offset : Nat) :
    ReplicaWriter replicas diskbackup Data :=
  { s with
    items := Function.update s.items s.nextItem (some { tmp with refCount := 0 })
    calls := Function.update s.calls s.nextItem ⟨blocks, offset, fun _ => 0, 0, false, 0⟩
    nextItem := s.nextItem + 1 }

/-- The loop over the replicas for one of them; without a free context it tries again. -/
def load (s : ReplicaWriter replicas diskbackup Data) (item : Nat) (j : Fin (replicas + 1)) :
    Option (ReplicaWriter replicas diskbackup Data) :=
  match s.freepool, s.items item with
  | ctx :: rest, some tmp =>
      let s := { s with
        freepool := rest
        takenBy := Function.update s.takenBy ctx (item, j) }
      let s := s.modifyCall item fun call =>
        { call with ctx := Function.update call.ctx j ctx, loaded := call.loaded + 1 }
      let first := (s.calls item).ctx 0
      some (s.modifyCtx ctx fun c => { c with
        inFlight := true
        replicaIndex := j.val
        buffer := first
        primeCtx := if j.val = 0 then c.primeCtx else some first
        len := tmp.len * valetPageSize
        sendingItem := some item })
  | _, _ => none

/-- `disk_write` up to the queue of the disk thread. -/
def diskWrite (s : ReplicaWriter replicas diskbackup Data) (item : Nat) :
    ReplicaWriter replicas diskbackup Data :=
  { s.modifyCall item fun call => { call with diskQueued := true } with
    bios := s.bios ++ [⟨(s.calls item).ctx 0, item⟩] }

/-- `__rdma_write` for one replica. -/
def postReplica (s : ReplicaWriter replicas diskbackup Data) (item : Nat)
    (j : Fin (replicas + 1)) : ReplicaWriter replicas diskbackup Data :=
  let call := s.calls item
  let ctx := call.ctx j
  let s := s.modifyCtx ctx fun c => { c with offset := call.offset, rb := some (call.blocks j) }
  let s := s.modifyCall item fun call => { call with posted := call.posted + 1 }
  { s with posted := s.posted ++ [⟨ctx, item, j⟩] }

/-! ## The completions -/

def putFreeItem (s : ReplicaWriter replicas diskbackup Data) (item : Nat) :
    ReplicaWriter replicas diskbackup Data :=
  { s with items := Function.update s.items item none }.modifyFlight item fun flight =>
    { flight with freed := flight.freed + 1 }

/-- `BUG_ON` guards the capacity of the pool. -/
def putRdmaFreepool (s : ReplicaWriter replicas diskbackup Data) (ctx : Nat) :
    Except Halt (ReplicaWriter replicas diskbackup Data) :=
  if s.freepool.length ≥ s.capNr then
    .error .bugOn
  else
    let (item, j) := s.takenBy ctx
    .ok ({ s with freepool := ctx :: s.freepool }.modifyFlight item fun flight =>
      { flight with putBack := Function.update flight.putBack j (flight.putBack j + 1) })

/-- A context is cleared and put back. -/
def releaseCtx (s : ReplicaWriter replicas diskbackup Data) (ctx : Nat) :
    Except Halt (ReplicaWriter replicas diskbackup Data) :=
  (s.modifyCtx ctx fun c => { c with sendingItem := none, rb := none, inFlight := false })
    |>.putRdmaFreepool ctx

/-- The last completion of an item: its pages are marked and the item is freed. -/
def finishItem (s : ReplicaWriter replicas diskbackup Data) (item : Nat)
    (sendingItem : LocalPageList) : Except Halt (ReplicaWriter replicas diskbackup Data) := do
  let store ← s.store.writeDoneEntries sendingItem.batchList
  let s := { s with store := store }.modifyFlight item fun flight =>
    { flight with marked := flight.marked + 1 }
  return s.putFreeItem item

def countUp (s : ReplicaWriter replicas diskbackup Data) (item : Nat)
    (sendingItem : LocalPageList) : ReplicaWriter replicas diskbackup Data :=
  let counted := { sendingItem with refCount := sendingItem.refCount + 1 }
  { s with items := Function.update s.items item (some counted) }

/-- `valet_bitmap_group_set` on the block of a context. -/
def setBitmap (s : ReplicaWriter replicas diskbackup Data) (ctx : WriteCtx) (rb : Nat × Nat) :
    ReplicaWriter replicas diskbackup Data :=
  let blocks := Function.update (s.bitmap rb.1) rb.2
    (Machine.bitmapGroupSet (s.bitmap rb.1 rb.2) ctx.offset ctx.len)
  { s with bitmap := Function.update s.bitmap rb.1 blocks }

/-- The completion is given up; this is noted for the call it belongs to. -/
def drop (s : ReplicaWriter replicas diskbackup Data) (item : Nat) :
    ReplicaWriter replicas diskbackup Data :=
  s.modifyFlight item fun flight => { flight with dropped := flight.dropped + 1 }

/-- `write_done_postwork`.  A write never comes back without its block; the handler would give the
connection up. -/
def writeDonePostwork (s : ReplicaWriter replicas diskbackup Data)
    (write : PostedWrite replicas) : Except Halt (ReplicaWriter replicas diskbackup Data) :=
  let ctx := s.ctxs write.ctx
  match ctx.rb, ctx.sendingItem with
  | some rb, some item =>
      match s.items item with
      | none => .error .oops
      | some sendingItem =>
          let s := (s.countUp item sendingItem).setBitmap ctx rb
          let refCount := sendingItem.refCount + 1
          if ctx.replicaIndex = 0 ∧ refCount < completionsNeeded replicas diskbackup then
            .ok s
          else if refCount ≥ completionsNeeded replicas diskbackup then do
            let s ← s.finishItem item sendingItem
            if ctx.replicaIndex ≠ 0 then
              match ctx.primeCtx with
              | none => .error .oops
              | some prime => do
                  let s ← s.releaseCtx prime
                  s.releaseCtx write.ctx
            else
              s.releaseCtx write.ctx
          else
            s.releaseCtx write.ctx
  | _, _ => .ok (s.drop write.item)

/-- `valet_stackbd_end_io_postwork`. -/
def stackbdEndIoPostwork (s : ReplicaWriter replicas diskbackup Data) (bio : QueuedBio) :
    Except Halt (ReplicaWriter replicas diskbackup Data) :=
  let ctx := s.ctxs bio.ctx
  match ctx.rb, ctx.sendingItem with
  | some _, some item =>
      match s.items item with
      | none => .error .oops
      | some sendingItem =>
          let s := s.countUp item sendingItem
          let refCount := sendingItem.refCount + 1
          if refCount < completionsNeeded replicas diskbackup then
            .ok s
          else do
            let s ← s.finishItem item sendingItem
            s.releaseCtx bio.ctx
  | _, _ => .ok (s.drop bio.item)

/-! ## The steps -/

/-- A call goes on, or a completion is handled. -/
inductive WriterLabel (replicas : Nat) where
  | start (tmp : LocalPageList) (blocks : Fin (replicas + 1) → Nat × Nat) (offset : Nat)
  | load (item : Nat) (j : Fin (replicas + 1))
  | diskWrite (item : Nat)
  | post (item : Nat) (j : Fin (replicas + 1))
  | writeDone (write : PostedWrite replicas)
  | diskDone (bio : QueuedBio)

/-- The completion of a write is noted for the call it belongs to. -/
def noteWrite (s : ReplicaWriter replicas diskbackup Data) (write : PostedWrite replicas) :
    ReplicaWriter replicas diskbackup Data :=
  { s with posted := s.posted.erase write }.modifyFlight write.item fun flight =>
    { flight with handled := Function.update flight.handled write.replica true }

def noteBio (s : ReplicaWriter replicas diskbackup Data) (bio : QueuedBio) :
    ReplicaWriter replicas diskbackup Data :=
  { s with bios := s.bios.erase bio }.modifyFlight bio.item fun flight =>
    { flight with diskHandled := true }

/-- An item lists entries of the tree; they stay in it. -/
def step (s : ReplicaWriter replicas diskbackup Data) :
    WriterLabel replicas → Option (ReplicaWriter replicas diskbackup Data)
  | .start tmp blocks offset =>
      if tmp.batchList.all fun index => (s.store.gptPages index).isSome then
        some (s.start tmp blocks offset)
      else
        none
  | .load item j =>
      if item < s.nextItem ∧ (s.calls item).loaded = j.val then s.load item j else none
  | .diskWrite item =>
      if item < s.nextItem ∧ diskbackup = true ∧ (s.calls item).loaded = replicas + 1 ∧
          (s.calls item).diskQueued = false then
        some (s.diskWrite item)
      else
        none
  | .post item j =>
      if item < s.nextItem ∧ (s.calls item).loaded = replicas + 1 ∧
          (s.calls item).diskQueued = diskbackup ∧ (s.calls item).posted = j.val then
        some (s.postReplica item j)
      else
        none
  | .writeDone write =>
      if write ∈ s.posted then ((s.noteWrite write).writeDonePostwork write).toOption else none
  | .diskDone bio =>
      if bio ∈ s.bios then ((s.noteBio bio).stackbdEndIoPostwork bio).toOption else none

/-- All contexts are in the pool. -/
def init (store : PageStore Data) (capNr : Nat) : ReplicaWriter replicas diskbackup Data where
  ctxs := fun _ => ⟨0, none, none, none, 0, 0, 0, false⟩
  freepool := List.range capNr
  capNr := capNr
  items := fun _ => none
  calls := fun _ => ⟨fun _ => (0, 0), 0, fun _ => 0, 0, false, 0⟩
  nextItem := 0
  posted := []
  bios := []
  store := store
  bitmap := fun _ _ _ => false
  flights := fun _ => ⟨fun _ => false, false, 0, 0, fun _ => 0, 0⟩
  takenBy := fun _ => (0, 0)

end ReplicaWriter

end Valet.Bd
