import Valet.Bd.BlockBitmap
import Valet.Bd.RemoteKeys
import Valet.Daemon.MigrationStart
import Valet.Daemon.RegionLives
import Valet.System.Tables

/-!
# The memory of the servers

Clients write and read the regions of the servers past their processors: an
operation carries a key and an address, and the adapter of the server lets it
through if a region is registered under this key there.  Operations are under
way while messages are handled, so a region may have been given back, or may be
someone else's, when one arrives.  In a migration the source writes its region
to the destination in the same way.
-/

namespace Valet.System

open Valet.Wire Valet.Library Valet.Bd Valet.Daemon

/-- `sizeof(struct remote_block_header)`. -/
def remoteBlockHeaderSize : Nat := 4096

/-- `HALF_ONE_GB`. -/
def halfOneGb : Nat := 536870912

/-- A byte with the client that wrote it; `none` is a zero of `memset`. -/
abbrev Byte (clients : Nat) := Option (Fin clients × UInt8)

inductive Transfer where
  | write (bytes : List UInt8)
  | read (length : Nat)

def Transfer.length : Transfer → Nat
  | .write bytes => bytes.length
  | .read length => length

/-- What `ib_post_send` passes on of a work request. -/
structure RdmaOp where
  rkey : UInt32
  remoteAddr : UInt64
  transfer : Transfer

/-- The bytes of a transfer, each with its place. -/
def placed {clients : Nat} (client : Fin clients) (start : Nat) (bytes : List UInt8) :
    List (Nat × Byte clients) :=
  bytes.zipIdx.map fun byte => (start + byte.2, some (client, byte.1))

/-- `__rdma_write`: the pages and then the header, with the stamp of the time. -/
def rdmaWriteOps (rb : RemoteBlock) (offset : Nat) (data stamp : List UInt8) : List RdmaOp :=
  [⟨rb.remoteRkey, rb.remoteAddr + UInt64.ofNat (remoteBlockHeaderSize + offset), .write data⟩,
    ⟨rb.remoteRkey, rb.remoteAddr, .write stamp⟩]

/-- `rdma_read`, of one page. -/
def rdmaReadOp (rb : RemoteBlock) (offset : Nat) : RdmaOp :=
  ⟨rb.remoteRkey, rb.remoteAddr + UInt64.ofNat (remoteBlockHeaderSize + offset),
    .read valetPageSize⟩

/-- Where in a registered region an access starts, if it does not leave the region. -/
def position (mr : IbvMr) (remoteAddr : UInt64) (length : Nat) : Option Nat :=
  if mr.addr.toNat ≤ remoteAddr.toNat ∧
      remoteAddr.toNat + length ≤ mr.addr.toNat + (remoteBlockHeaderSize + oneGb) then
    some (remoteAddr.toNat - mr.addr.toNat)
  else
    none

/-- The region that an adapter opens to an access, and the place in it. -/
def opens (mrh : RdmaMrHandler) (rkey : UInt32) (remoteAddr : UInt64) (length : Nat) :
    Option (Region × Nat) :=
  (List.finRange maxMrSizeGb).findSome? fun i =>
    match mrh.life i with
    | .held _ key =>
        if key = rkey then
          (position (mrh.mrList i) remoteAddr length).map fun start => (i, start)
        else
          none
    | _ => none

/-- One of the two writes of `post_write`.  The local key, like the remote one, is that of the
registration of the region; `client` is the one for whom the block is moved. -/
structure RegionCopy where
  client : Nat
  region : Region
  lkey : UInt32
  offset : Nat
  length : Nat
  rkey : UInt32
  remoteAddr : UInt64

/-- The writes that a post of a server to another stands for. -/
def copiesOf (mrh : RdmaMrHandler) (client : Nat) : Post → Option (List RegionCopy)
  | .write rkey addr localRbIndex =>
      (index maxMrSizeGb localRbIndex).toOption.map fun i =>
        [⟨client, i, (mrh.mrList i).rkey, 0, remoteBlockHeaderSize + halfOneGb, rkey, addr⟩,
          ⟨client, i, (mrh.mrList i).rkey, remoteBlockHeaderSize + halfOneGb, halfOneGb, rkey,
            addr + UInt64.ofNat (remoteBlockHeaderSize + halfOneGb)⟩]
  | .message _ | .query _ => some []

/-- The cluster with the memory of each server and the operations under way; `asked` holds the
requests of a destination to a source, with the client that each of them is for. -/
structure RemoteMemory (clients servers replicas : Nat) where
  cluster : Cluster clients servers replicas
  memory : Fin servers → Guarded Region Nat UInt32 Nat (Byte clients)
  posted : Fin clients → Fin servers → List RdmaOp
  asked : Fin servers → Fin servers → List (Nat × Message)
  copies : Fin servers → Fin servers → List RegionCopy

inductive MemoryLabel (clients servers replicas : Nat) where
  | system (label : ClusterLabel clients servers replicas)
  | write (c : Fin clients) (cb : Fin servers) (rb : Block) (offset : Nat)
      (data stamp : List UInt8)
  | read (c : Fin clients) (cb : Fin servers) (rb : Block) (offset : Nat)
  | land (c : Fin clients) (cb : Fin servers)
  | request (cb src : Fin servers) (client : Nat) (sendBuf : Message) (localRbIndex : Region)
      (srcRbIndex : Int)
  | migrate (src cb : Fin servers) (mr : IbvMr) (stamps : Region → Timeval)
  | copy (src cb : Fin servers)

/-- The server that handles a message, and what registering a region answers there. -/
def ClusterLabel.registration {clients servers replicas : Nat} :
    ClusterLabel clients servers replicas → Option (Fin servers × IbvMr)
  | .serve _ cb mr _ => some (cb, mr)
  | .turn cb (.daemon (.recv _ _ mr _)) => some (cb, mr)
  | _ => none

/-- The sender of a message that no queue of the cluster holds. -/
def ClusterLabel.outsider {clients servers replicas : Nat} :
    ClusterLabel clients servers replicas → Option (Fin servers × Nat)
  | .turn cb label => (sender label).map fun number => (cb, number)
  | _ => none

namespace RemoteMemory

variable {clients servers replicas : Nat} (slot : Fin servers → Fin clients ↪ Nat)
  (peer : Fin servers → Fin servers → Nat) (s : RemoteMemory clients servers replicas)

/-- A step of the cluster; regions that are allocated are set to zero. -/
def advance (next : Cluster clients servers replicas) : RemoteMemory clients servers replicas :=
  { s with
    cluster := next
    memory := fun cb => (s.memory cb).turn (fun _ => none) (next.daemon cb).mrh.life
      ((s.cluster.daemon cb).mrh.grants (next.daemon cb).mrh) }

/-- The block in the tables of a client to which it posts. -/
def block (c : Fin clients) (cb : Fin servers) (rb : Block) : RemoteBlock :=
  ((s.cluster.client c).session.rbh cb).remoteBlock rb

def post (c : Fin clients) (cb : Fin servers) (ops : List RdmaOp) :
    RemoteMemory clients servers replicas :=
  { s with
    posted := Function.update s.posted c
      (Function.update (s.posted c) cb (s.posted c cb ++ ops)) }

def writeMemory (cb : Fin servers) (i : Region) (owner : Nat) (cells : List (Nat × Byte clients)) :
    RemoteMemory clients servers replicas :=
  { s with memory := Function.update s.memory cb ((s.memory cb).write i owner cells) }

/-- An operation of a client reaches the adapter; what is not let through has no effect. -/
def land (c : Fin clients) (cb : Fin servers) (op : RdmaOp) :
    RemoteMemory clients servers replicas :=
  match op.transfer, opens (s.cluster.daemon cb).mrh op.rkey op.remoteAddr op.transfer.length with
  | .write bytes, some (i, start) => s.writeMemory cb i (slot cb c) (placed c start bytes)
  | _, _ => s

/-- A write of the source reaches the destination, if the source still has the region. -/
def landCopy (src cb : Fin servers) (copy : RegionCopy) : RemoteMemory clients servers replicas :=
  match (s.cluster.daemon src).mrh.life copy.region,
      opens (s.cluster.daemon cb).mrh copy.rkey copy.remoteAddr copy.length with
  | .held _ key, some (i, start) =>
      if key = copy.lkey then
        s.writeMemory cb i copy.client ((List.range copy.length).map fun k =>
          (start + k, (s.memory src).content copy.region (copy.offset + k)))
      else
        s
  | _, _ => s

/-- A source handles the request of a destination, which has the number `peer` there. -/
def migrate (weigh : Int → Int → Int) (src cb : Fin servers) (client : Nat) (msg : Message)
    (mr : IbvMr) (stamps : Region → Timeval) : Option (RemoteMemory clients servers replicas) := do
  let next ← Cluster.step slot weigh s.cluster
    (.turn src (.daemon (.recv (peer src cb) msg mr stamps)))
  let posts := (next.daemon src).sent.drop (s.cluster.daemon src).sent.length
  let copies ← (addressed (peer src cb) posts).mapM (copiesOf (s.cluster.daemon src).mrh client)
  return { s.advance next with
    copies := Function.update s.copies src
      (Function.update (s.copies src) cb (s.copies src cb ++ copies.flatten)) }

def step (weigh : Int → Int → Int) (s : RemoteMemory clients servers replicas) :
    MemoryLabel clients servers replicas → Option (RemoteMemory clients servers replicas)
  | .system label =>
      if ∀ from_ ∈ label.outsider, ∀ cb, peer from_.1 cb ≠ from_.2 then
        (Cluster.step slot weigh s.cluster label).map s.advance
      else
        none
  | .write c cb rb offset data stamp =>
      some (s.post c cb (rdmaWriteOps (s.block c cb rb) offset data stamp))
  | .read c cb rb offset => some (s.post c cb [rdmaReadOp (s.block c cb rb) offset])
  | .land c cb =>
      match s.posted c cb with
      | [] => none
      | op :: rest => some ({ s with
          posted := Function.update s.posted c
            (Function.update (s.posted c) cb rest) }.land slot c cb op)
  | .request cb src client sendBuf localRbIndex srcRbIndex =>
      let msg := (s.cluster.daemon cb).mrh.requestMessage sendBuf localRbIndex.val srcRbIndex
      some { s with
        asked := Function.update s.asked cb
          (Function.update (s.asked cb) src (s.asked cb src ++ [(client, msg)])) }
  | .migrate src cb mr stamps =>
      match s.asked cb src with
      | [] => none
      | (client, msg) :: rest => { s with
          asked := Function.update s.asked cb
            (Function.update (s.asked cb) src rest) }.migrate slot peer weigh src cb client msg mr
              stamps
  | .copy src cb =>
      match s.copies src cb with
      | [] => none
      | copy :: rest => some ({ s with
          copies := Function.update s.copies src
            (Function.update (s.copies src) cb rest) }.landCopy src cb copy)

def init (cluster : Cluster clients servers replicas) : RemoteMemory clients servers replicas where
  cluster := cluster
  memory := fun cb => ⟨(cluster.daemon cb).mrh.life, fun _ _ => none, fun _ => [], []⟩
  posted := fun _ _ => []
  asked := fun _ _ => []
  copies := fun _ _ => []

/-- A key that the server has not given out. -/
def Fresh (cb : Fin servers) (mr : IbvMr) : Prop :=
  mr.rkey ≠ 0 ∧ ∀ issued ∈ (s.memory cb).issued, issued.1 ≠ mr.rkey

/-- Adapters give out a key once, and the two regions of a migration are with the client when the
one is asked for and the other is posted. -/
def Timely : MemoryLabel clients servers replicas → Prop
  | .system label => ∀ registered ∈ label.registration, s.Fresh registered.1 registered.2
  | .request cb _ client _ localRbIndex _ =>
      (s.cluster.daemon cb).mrh.cbIndexMap localRbIndex = some client
  | .migrate src cb mr _ => s.Fresh src mr ∧ ∀ ask ∈ (s.asked cb src).head?, ∀ c,
      ask.1 = slot cb c → ∀ i : Region, ask.2.sizeGb = i.val →
        (s.cluster.daemon src).mrh.cbIndexMap i = some (slot src c)
  | _ => True

instance (cb : Fin servers) (mr : IbvMr) : Decidable (s.Fresh cb mr) :=
  inferInstanceAs (Decidable (_ ∧ _))

instance (label : MemoryLabel clients servers replicas) : Decidable (s.Timely slot label) :=
  match label with
  | .system label =>
      inferInstanceAs (Decidable (∀ registered ∈ label.registration,
        s.Fresh registered.1 registered.2))
  | .request cb _ client _ localRbIndex _ =>
      inferInstanceAs (Decidable ((s.cluster.daemon cb).mrh.cbIndexMap localRbIndex = some client))
  | .migrate src cb mr _ =>
      inferInstanceAs (Decidable (s.Fresh src mr ∧ ∀ ask ∈ (s.asked cb src).head?, ∀ c,
        ask.1 = slot cb c → ∀ i : Region, ask.2.sizeGb = i.val →
          (s.cluster.daemon src).mrh.cbIndexMap i = some (slot src c)))
  | .write .. | .read .. | .land .. | .copy .. => isTrue trivial

end RemoteMemory

end Valet.System
