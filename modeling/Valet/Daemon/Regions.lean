import Valet.Wire.Message
import Valet.Library.Halt
import Mathlib.Algebra.Order.Ring.Int

/-!
# The regions of a memory server

The daemon offers up to `MAX_FREE_MEM_GB` regions of a gigabyte.  Requests of
the clients map regions and give them back; a monitor frees regions when memory
gets short and allocates new ones when there is plenty.  A handler and one turn
of the monitor are steps; the monitor also stops while it waits for a client.

Registering a region answers key and address, which the step supplies, and so it
does the time stamps that the clients keep in the regions.  The weighing of the
readings is floating-point arithmetic and is a parameter.
-/

namespace Valet.Daemon

open Valet.Wire Valet.Library

/-- `MAX_FREE_MEM_GB` regions, as many as a message has keys. -/
abbrev Region := Fin maxMrSizeGb

def freeMemEvictThreshold : Int := 10

def freeMemExpandThreshold : Int := 20

def memEvictHitThreshold : Int := 1

def memExpandHitThreshold : Int := 20

/-- `struct ibv_mr`, as far as the clients are told. -/
structure IbvMr where
  addr : UInt64
  rkey : UInt32

structure Timeval where
  tvSec : Int
  tvUsec : Int

def Timeval.micros (tv : Timeval) : Int := tv.tvSec * 1000000 + tv.tvUsec

/-- `struct rdma_mr_handler`.  `none` stands for `-1`, and `mallocMap` is set for
`RB_MALLOCED`. -/
structure RdmaMrHandler where
  mrList : Region → IbvMr
  sizeGb : Int
  mappedSize : Int
  cbIndexMap : Region → Option Nat
  clientRbIdx : Region → Int
  mallocMap : Region → Bool
  replicaIndex : Region → Int

/-- `struct migration_remote_block_handler`. -/
structure MigrationRemoteBlockHandler where
  buf : Region → UInt64
  rkey : Region → UInt32
  clientRbIndex : Int
  srcRbIndex : Int
  srcCbIndex : Int
  localRbIndex : Int

/-- `struct rping_cb` of a client. -/
structure RpingCb where
  sendBuf : Message
  rbIdxMap : Region → Option Region
  migrbh : MigrationRemoteBlockHandler
  evictSem : Nat

/-- What a connection is handed for sending, by message or by writing a region. -/
inductive Post where
  | message (msg : Message)
  | query (qmsg : QueryMessage)
  | write (rkey : UInt32) (addr : UInt64) (localRbIndex : Int)

/-- Where `free_mem_monitor_fn` is: asleep, at the head of the loop of `do_evict`, or waiting
for the client that it sent an `EVICT` to. -/
inductive MonitorPc where
  | sleeping
  | evicting (evictSize : Int) (oldestRbIndex : Option Region) (stopSizeG : Int)
  | waiting (client : Nat) (evictSize : Int) (oldestRbIndex : Option Region) (stopSizeG : Int)

structure Monitor where
  lastFreeMemG : Int
  evictHitCount : Int
  expandHitCount : Int
  pc : MonitorPc

structure Session where
  myIndex : Int
  mrh : RdmaMrHandler
  cbList : Nat → RpingCb
  monitor : Monitor
  sent : List (Nat × Post)

namespace RdmaMrHandler

/-- The region is allocated and nobody has it. -/
def isFree (mrh : RdmaMrHandler) (i : Region) : Bool :=
  mrh.mallocMap i && (mrh.cbIndexMap i).isNone

/-- The first loop of `do_evict` from a region on, with `freed_g`. -/
def freeUnmapped (evictSize : Int) :
    List Region → Int → RdmaMrHandler → Int × RdmaMrHandler
  | [], freedG, mrh => (freedG, mrh)
  | i :: rest, freedG, mrh =>
      if mrh.isFree i then
        let mrh := { mrh with mallocMap := Function.update mrh.mallocMap i false }
        if freedG + 1 = evictSize then
          (freedG + 1, mrh)
        else
          freeUnmapped evictSize rest (freedG + 1) mrh
      else
        freeUnmapped evictSize rest freedG mrh

/-- The loop of `free_mem_monitor_fn` over the empty regions, with `j`. -/
def mallocEmpty (expandSizeG : Int) : List Region → Int → RdmaMrHandler → RdmaMrHandler
  | [], _, mrh => mrh
  | i :: rest, j, mrh =>
      if mrh.mallocMap i then
        mallocEmpty expandSizeG rest j mrh
      else
        let mrh := { mrh with mallocMap := Function.update mrh.mallocMap i true }
        if j + 1 = expandSizeG then
          mrh
        else
          mallocEmpty expandSizeG rest (j + 1) mrh

/-- The search of `do_evict` for the oldest mapped region from a region on. -/
def pickOldest (mrh : RdmaMrHandler) (stamps : Region → Timeval) :
    List Region → Timeval → Option Region → Option Region
  | [], _, oldestRbIndex => oldestRbIndex
  | i :: rest, oldest, oldestRbIndex =>
      if (mrh.cbIndexMap i).isNone then
        pickOldest mrh stamps rest oldest oldestRbIndex
      else if oldest.tvSec = 0 ∧ oldest.tvUsec = 0 then
        pickOldest mrh stamps rest (stamps i) (some i)
      else if oldest.micros > (stamps i).micros then
        pickOldest mrh stamps rest (stamps i) (some i)
      else
        pickOldest mrh stamps rest oldest oldestRbIndex

/-- The part of `do_evict` before its loop, with the `evict_size` that is left to evict. -/
def doEvict (mrh : RdmaMrHandler) (evictSize : Int) : Int × RdmaMrHandler :=
  let (freedG, mrh) := mrh.freeUnmapped evictSize (List.finRange maxMrSizeGb) 0
  if freedG = evictSize then
    (0, { mrh with sizeGb := mrh.sizeGb - evictSize })
  else
    let mrh := { mrh with sizeGb := mrh.sizeGb - freedG }
    let evictSize := evictSize - freedG
    (if mrh.mappedSize < evictSize then mrh.mappedSize else evictSize, mrh)

/-- How far `free_mem_monitor_fn` expands. -/
def expandSize (mrh : RdmaMrHandler) (lastFreeMemG : Int) : Int :=
  let expandSizeG := lastFreeMemG - freeMemExpandThreshold
  if expandSizeG + mrh.sizeGb > maxMrSizeGb then maxMrSizeGb - mrh.sizeGb else expandSizeG

def expand (mrh : RdmaMrHandler) (expandSizeG : Int) : RdmaMrHandler :=
  let mrh := mrh.mallocEmpty expandSizeG (List.finRange maxMrSizeGb) 0
  { mrh with sizeGb := mrh.sizeGb + expandSizeG }

/-- The message of `reply_query`; `unsigned long` has 64 bits. -/
def replyQuery (mrh : RdmaMrHandler) (stamps : Region → Timeval) : QueryMessage :=
  let freeMem := mrh.sizeGb - mrh.mappedSize
  let mapped := (List.finRange maxMrSizeGb).filter fun i => (mrh.cbIndexMap i).isSome
  { sizeGb := if freeMem < 0 then 0 else freeMem
    sum := ((mapped.map fun i => (stamps i).micros).sum % 2 ^ 64).toNat }

/-- `rdma_session_init` for a first reading of the free memory. -/
def init (mrList : Region → IbvMr) (freeMemG : Int) : RdmaMrHandler :=
  let freeMemG :=
    if freeMemG > freeMemExpandThreshold then
      freeMemG - (freeMemEvictThreshold + freeMemExpandThreshold) / 2
    else if freeMemG > freeMemEvictThreshold then
      freeMemG - freeMemEvictThreshold
    else
      0
  let freeMemG := if freeMemG > maxMrSizeGb then (maxMrSizeGb : Int) else freeMemG
  { mrList := mrList
    sizeGb := freeMemG
    mappedSize := 0
    cbIndexMap := fun _ => none
    clientRbIdx := fun _ => 0
    mallocMap := fun i => decide ((i.val : Int) < freeMemG)
    replicaIndex := fun _ => 0 }

end RdmaMrHandler

namespace Session

variable (s : Session)

def setCb (client : Nat) (cb : RpingCb) : Session :=
  { s with cbList := Function.update s.cbList client cb }

/-- `post_send` of the client's `send_buf`. -/
def postSend (client : Nat) : Session :=
  { s with sent := s.sent ++ [(client, .message (s.cbList client).sendBuf)] }

/-- `prepare_single_mr`, with what it returns; `mr` is what registering the region answers. -/
def prepareSingleMr (client : Nat) (recv : Message) (isMigration : Bool) (mr : IbvMr) :
    Int × Session :=
  let cb := s.cbList client
  let found := (List.finRange maxMrSizeGb).find? s.mrh.isFree
  let index : Int := match found with
    | some i => i.val
    | none => maxMrSizeGb
  let cleared : Message := { cb.sendBuf with rkey := fun _ => 0 }
  let (mrh, rbIdxMap, sendBuf) := match found with
    | some i =>
        ({ s.mrh with
            replicaIndex := Function.update s.mrh.replicaIndex i recv.replicaIndex
            cbIndexMap := Function.update s.mrh.cbIndexMap i (some client)
            clientRbIdx := Function.update s.mrh.clientRbIdx i recv.sizeGb
            mrList := Function.update s.mrh.mrList i mr },
          Function.update cb.rbIdxMap i (some i),
          { cleared with
            buf := Function.update cleared.buf i mr.addr
            rkey := Function.update cleared.rkey i mr.rkey })
    | none => (s.mrh, cb.rbIdxMap, cleared)
  let mrh := { mrh with mappedSize := mrh.mappedSize + 1 }
  let sendBuf := { sendBuf with sizeGb := recv.sizeGb, replicaIndex := recv.replicaIndex }
  let sendBuf :=
    if isMigration then
      { sendBuf with type := .respMigMap, cbIndex := s.myIndex, rbIndex := index }
    else
      { sendBuf with type := .respMrMap }
  (index, { s with mrh := mrh }.setCb client { cb with rbIdxMap := rbIdxMap, sendBuf := sendBuf })

/-- `recv_delete_rb`; a key for a region that the client does not have leads to the index `-1`. -/
def recvDeleteRb (client : Nat) (recv : Message) : Except Halt Session :=
  let cb := s.cbList client
  let finish (mrh : RdmaMrHandler) (cb : RpingCb) : Session :=
    { s with mrh := { mrh with sizeGb := mrh.sizeGb - 1, mappedSize := mrh.mappedSize - 1 } }.setCb
      client { cb with evictSem := cb.evictSem + 1 }
  match recv.firstRkey with
  | none => .ok (finish s.mrh cb)
  | some i =>
      match cb.rbIdxMap i with
      | none => .error .oops
      | some index =>
          .ok (finish
            { s.mrh with
              cbIndexMap := Function.update s.mrh.cbIndexMap index none
              mallocMap := Function.update s.mrh.mallocMap index false }
            { cb with rbIdxMap := Function.update cb.rbIdxMap i none })

def modifyMigrbh (client : Nat)
    (change : MigrationRemoteBlockHandler → MigrationRemoteBlockHandler) : Session :=
  let cb := s.cbList client
  s.setCb client { cb with migrbh := change cb.migrbh }

/-- `post_write` of the client's connection. -/
def postWrite (client : Nat) (rkey : UInt32) (addr : UInt64) (localRbIndex : Int) : Session :=
  { s with sent := s.sent ++ [(client, .write rkey addr localRbIndex)] }

/-- `do_migration`; without a key it posts to whatever is on its stack. -/
def doMigration (client : Nat) (recv : Message) : Except Halt Session :=
  match recv.firstRkey with
  | none => .error .oops
  | some i =>
      .ok ((s.modifyMigrbh client fun migrbh => { migrbh with localRbIndex := recv.sizeGb }).postWrite
        client (recv.rkey i) (recv.buf i) recv.sizeGb)

/-- What the case `REQ_MIG_MAP` of `handle_recv` notes about the source. -/
def noteSource (recv : Message) (migrbh : MigrationRemoteBlockHandler) :
    MigrationRemoteBlockHandler :=
  let migrbh := { migrbh with
    clientRbIndex := recv.sizeGb
    srcRbIndex := recv.rbIndex
    srcCbIndex := recv.cbIndex }
  match recv.firstRkey with
  | none => migrbh
  | some i =>
      { migrbh with
        rkey := Function.update migrbh.rkey i (recv.rkey i)
        buf := Function.update migrbh.buf i (recv.buf i) }

/-- The case `REQ_MIG_MAP` of `handle_recv`. -/
def recvReqMigMap (client : Nat) (recv : Message) (mr : IbvMr) : Session :=
  let (index, s) :=
    (s.modifyMigrbh client (noteSource recv)).prepareSingleMr client recv true mr
  (s.modifyMigrbh client fun migrbh => { migrbh with localRbIndex := index }).postSend client

/-- `handle_recv`.  An unknown type is only reported. -/
def handleRecv (client : Nat) (recv : Message) (mr : IbvMr) (stamps : Region → Timeval) :
    Except Halt Session :=
  match recv.type with
  | .reqQuery => .ok { s with sent := s.sent ++ [(client, .query (s.mrh.replyQuery stamps))] }
  | .reqMigMap => .ok (s.recvReqMigMap client recv mr)
  | .reqMrMap => .ok ((s.prepareSingleMr client recv false mr).2.postSend client)
  | .deleteRb => s.recvDeleteRb client recv
  | .reqMigration => s.doMigration client recv
  | _ => .ok s

/-- The message of `send_evict`, with one key. -/
def evictMessage (client : Nat) (evictIndex : Region) (clientRbIndex srcCbIndex : Int) : Message :=
  let mr := s.mrh.mrList evictIndex
  { type := .evict
    sizeGb := clientRbIndex
    cbIndex := srcCbIndex
    rbIndex := evictIndex.val
    replicaIndex := s.mrh.replicaIndex evictIndex
    rkey := Function.update (fun _ => 0) evictIndex mr.rkey
    buf := Function.update (s.cbList client).sendBuf.buf evictIndex mr.addr }

/-- `send_evict`. -/
def sendEvict (client : Nat) (evictIndex : Region) (clientRbIndex srcCbIndex : Int) : Session :=
  (s.setCb client { s.cbList client with
    sendBuf := s.evictMessage client evictIndex clientRbIndex srcCbIndex }).postSend client

/-- The end of `do_evict` in `free_mem_monitor_fn`, before the sleep. -/
def endEvict (stopSizeG : Int) : Session :=
  { s with monitor := { s.monitor with
      lastFreeMemG := s.monitor.lastFreeMemG + stopSizeG
      pc := .sleeping } }

/-- The head of the loop of `do_evict`. -/
def continueEvict (evictSize : Int) (oldestRbIndex : Option Region) (stopSizeG : Int) : Session :=
  if evictSize > 0 then
    { s with monitor := { s.monitor with pc := .evicting evictSize oldestRbIndex stopSizeG } }
  else
    s.endEvict stopSizeG

/-- The eviction of `free_mem_monitor_fn`, up to the loop of `do_evict`. -/
def monitorEvict : Session :=
  let stopSizeG := freeMemEvictThreshold - s.monitor.lastFreeMemG
  let stopSizeG := if s.mrh.sizeGb < stopSizeG then s.mrh.sizeGb else stopSizeG
  if stopSizeG > 0 then
    let (evictSize, mrh) := s.mrh.doEvict stopSizeG
    { s with mrh := mrh }.continueEvict evictSize none stopSizeG
  else
    s.endEvict stopSizeG

/-- The expansion of `free_mem_monitor_fn`. -/
def monitorExpand : Session :=
  let expandSizeG := s.mrh.expandSize s.monitor.lastFreeMemG
  { s with
    mrh := s.mrh.expand expandSizeG
    monitor := { s.monitor with lastFreeMemG := s.monitor.lastFreeMemG - expandSizeG } }

/-- One turn of `free_mem_monitor_fn` on a reading, up to the sleep or to the loop of
`do_evict`. -/
def monitorTurn (weigh : Int → Int → Int) (freeMemG : Int) : Session :=
  let filteredFreeMemG := weigh freeMemG s.monitor.lastFreeMemG
  let monitor := { s.monitor with lastFreeMemG := filteredFreeMemG }
  if filteredFreeMemG < freeMemEvictThreshold then
    let evictHitCount := monitor.evictHitCount + 1
    let monitor := { monitor with expandHitCount := 0 }
    if evictHitCount ≥ memEvictHitThreshold then
      { s with monitor := { monitor with evictHitCount := 0 } }.monitorEvict
    else
      { s with monitor := { monitor with evictHitCount := evictHitCount } }
  else if filteredFreeMemG > freeMemExpandThreshold then
    let expandHitCount := monitor.expandHitCount + 1
    let monitor := { monitor with evictHitCount := 0 }
    if expandHitCount ≥ memExpandHitThreshold then
      { s with monitor := { monitor with expandHitCount := 0 } }.monitorExpand
    else
      { s with monitor := { monitor with expandHitCount := expandHitCount } }
  else
    { s with monitor := monitor }

/-- One pass of the loop of `do_evict` up to its wait.  Without a mapped region it would look
up the client `-1`. -/
def evictTurn (stamps : Region → Timeval) (evictSize : Int) (oldestRbIndex : Option Region)
    (stopSizeG : Int) : Except Halt Session :=
  match s.mrh.pickOldest stamps (List.finRange maxMrSizeGb) ⟨0, 0⟩ oldestRbIndex with
  | none => .error .oops
  | some index =>
      match s.mrh.cbIndexMap index with
      | none => .error .oops
      | some client =>
          let s := s.sendEvict client index (s.mrh.clientRbIdx index) s.myIndex
          .ok { s with monitor := { s.monitor with
            pc := .waiting client evictSize (some index) stopSizeG } }

/-- `sem_wait` returns. -/
def evictDone (client : Nat) (evictSize : Int) (oldestRbIndex : Option Region)
    (stopSizeG : Int) : Option Session :=
  let cb := s.cbList client
  if cb.evictSem = 0 then
    none
  else
    some ((s.setCb client { cb with evictSem := cb.evictSem - 1 }).continueEvict (evictSize - 1)
      oldestRbIndex stopSizeG)

end Session

inductive DaemonLabel where
  | recv (client : Nat) (msg : Message) (mr : IbvMr) (stamps : Region → Timeval)
  | monitor (freeMemG : Int)
  | evict (stamps : Region → Timeval)
  | evictDone

namespace Session

def step (weigh : Int → Int → Int) (s : Session) : DaemonLabel → Option Session
  | .recv client msg mr stamps => (s.handleRecv client msg mr stamps).toOption
  | .monitor freeMemG =>
      match s.monitor.pc with
      | .sleeping => some (s.monitorTurn weigh freeMemG)
      | _ => none
  | .evict stamps =>
      match s.monitor.pc with
      | .evicting evictSize oldestRbIndex stopSizeG =>
          (s.evictTurn stamps evictSize oldestRbIndex stopSizeG).toOption
      | _ => none
  | .evictDone =>
      match s.monitor.pc with
      | .waiting client evictSize oldestRbIndex stopSizeG =>
          s.evictDone client evictSize oldestRbIndex stopSizeG
      | _ => none

def init (myIndex : Int) (mrList : Region → IbvMr) (freeMemG lastFreeMemG : Int) : Session where
  myIndex := myIndex
  mrh := .init mrList freeMemG
  cbList := fun _ => ⟨.empty, fun _ => none, ⟨fun _ => 0, fun _ => 0, 0, 0, 0, 0⟩, 0⟩
  monitor := ⟨lastFreeMemG, 0, 0, .sleeping⟩
  sent := []

end Session

end Valet.Daemon
