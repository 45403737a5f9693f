import Valet.Library.ByteSwap
import Valet.Daemon.MigrationStart
import Valet.Bd.Migration

/-!
# Block descriptors in byte order

A message that names a block has its key and its address at the place of the block, in the
byte order of the network.  The daemon converts with a function and reads with a macro, the
client reads with the same macro and has no conversion where it writes.  Here a message is
what lies in the buffer; elsewhere it is what the receiver makes of it.
-/

namespace Valet.Wire

open Valet.Library

/-- `htonl` and `ntohl` on a little-endian host. -/
def htonl (x : UInt32) : UInt32 := swab32 x

def ntohl (x : UInt32) : UInt32 := swab32 x

/-- The macro `ntohll` of both sides; a cast to `int` keeps the low half. -/
def ntohll (x : UInt64) : UInt64 :=
  ((ntohl ((x <<< 32) >>> 32).toUInt32).toUInt64 <<< 32) ||| (ntohl (x >>> 32).toUInt32).toUInt64

/-- The function `htonll` of the daemon. -/
def htonll (value : UInt64) : UInt64 :=
  ((htonl (value &&& 0xFFFFFFFF).toUInt32).toUInt64 <<< 32) |||
    (htonl (value >>> 32).toUInt32).toUInt64

@[simp] theorem ntohl_htonl (x : UInt32) : ntohl (htonl x) = x := swab32_swab32 x

theorem ntohll_eq (x : UInt64) :
    ntohll x = join (swab32 x.toUInt32) (swab32 (x >>> 32).toUInt32) := by
  rw [ntohll, low_shifts]
  rfl

theorem htonll_eq (x : UInt64) :
    htonll x = join (swab32 x.toUInt32) (swab32 (x >>> 32).toUInt32) := by
  rw [htonll, low_and]
  rfl

@[simp] theorem ntohll_htonll (x : UInt64) : ntohll (htonll x) = x := by
  rw [ntohll_eq, htonll_eq, low_join, high_join, swab32_swab32, swab32_swab32, join_halves]

namespace Message

/-- What the receiver of a message reads: each key through `ntohl` and each address through
`ntohll`.  Its loops test a key as it lies in the buffer, which is zero if the converted one is. -/
def host (raw : Message) : Message :=
  { raw with
    buf := fun i => ntohll (raw.buf i)
    rkey := fun i => ntohl (raw.rkey i) }

theorem rkey_host (raw : Message) (i : Fin maxMrSizeGb) :
    raw.host.rkey i = ntohl (raw.rkey i) := rfl

theorem buf_host (raw : Message) (i : Fin maxMrSizeGb) :
    raw.host.buf i = ntohll (raw.buf i) := rfl

/-- The loops over `rkey` stop at the least block with a key. -/
theorem firstRkey_least {msg : Message} {i : Fin maxMrSizeGb} (key : msg.rkey i ≠ 0)
    (below : ∀ j < i, msg.rkey j = 0) : msg.firstRkey = some i := by
  unfold firstRkey
  rw [List.find?_eq_some_iff_getElem]
  refine ⟨by simpa using key, i.val, by simp, by simp, ?_⟩
  intro j before
  have clear := below ⟨j, by omega⟩ (Fin.mk_lt_of_lt_val before)
  simp [clear]

theorem firstRkey_host (raw : Message) : raw.host.firstRkey = raw.firstRkey := by
  unfold firstRkey host
  congr 1
  funext i
  have same : ntohl (raw.rkey i) = 0 ↔ raw.rkey i = 0 := swab32_eq_zero
  simp [bne, same]

end Message

end Valet.Wire

namespace Valet.Daemon

open Valet.Wire Valet.Library

/-- What `prepare_single_mr` writes to `send_buf` for the region that it finds. -/
def prepareBuf (sendBuf recv : Message) (found : Option Region) (mr : IbvMr) (isMigration : Bool)
    (myIndex : Int) : Message :=
  let index : Int := match found with
    | some i => i.val
    | none => maxMrSizeGb
  let cleared : Message := { sendBuf with rkey := fun _ => 0 }
  let sendBuf := match found with
    | some i =>
        { cleared with
          buf := Function.update cleared.buf i (htonll mr.addr)
          rkey := Function.update cleared.rkey i (htonl mr.rkey) }
    | none => cleared
  let sendBuf := { sendBuf with sizeGb := recv.sizeGb, replicaIndex := recv.replicaIndex }
  if isMigration then
    { sendBuf with type := .respMigMap, cbIndex := myIndex, rbIndex := index }
  else
    { sendBuf with type := .respMrMap }

/-- What `request_migration` writes to `send_buf`. -/
def requestBuf (sendBuf : Message) (mrList : Region → IbvMr) (localRbIndex srcRbIndex : Int) :
    Message :=
  { sendBuf with
    sizeGb := srcRbIndex
    type := .reqMigration
    rkey := fun i => if (i.val : Int) = localRbIndex then htonl (mrList i).rkey else 0
    buf := fun i => if (i.val : Int) = localRbIndex then htonll (mrList i).addr else sendBuf.buf i }

theorem ntohl_update {keys : Region → UInt32} (i : Region) (rkey : UInt32) :
    (fun j => ntohl (Function.update keys i (htonl rkey) j)) =
      Function.update (fun j => ntohl (keys j)) i rkey := by
  funext j
  by_cases same : j = i
  · subst same
    simp
  · simp [same]

theorem ntohll_update {bufs : Region → UInt64} (i : Region) (addr : UInt64) :
    (fun j => ntohll (Function.update bufs i (htonll addr) j)) =
      Function.update (fun j => ntohll (bufs j)) i addr := by
  funext j
  by_cases same : j = i
  · subst same
    simp
  · simp [same]

/-- The message of `prepare_single_mr` is the one in the buffer, as its receiver reads it. -/
theorem host_prepareBuf {s : Session} {client : Nat} {recv sendBuf : Message} {isMigration : Bool}
    {mr : IbvMr} (same : sendBuf.host = (s.cbList client).sendBuf) :
    (prepareBuf sendBuf recv ((List.finRange maxMrSizeGb).find? s.mrh.isFree) mr isMigration
      s.myIndex).host = ((s.prepareSingleMr client recv isMigration mr).2.cbList client).sendBuf := by
  have none : (fun _ : Region => ntohl 0) = fun _ => (0 : UInt32) := rfl
  unfold prepareBuf Session.prepareSingleMr Session.setCb
  cases (List.finRange maxMrSizeGb).find? s.mrh.isFree with
  | none => cases isMigration <;> simp [← same, Message.host, none]
  | some i =>
      cases isMigration <;>
        simp [← same, Message.host, ntohl_update, ntohll_update, none]

/-- The message of `request_migration` is the one in the buffer, as its receiver reads it. -/
theorem host_requestBuf {s next : MigrationCb} {localRbIndex srcRbIndex srcCbIndex : Int}
    {sendBuf : Message} (same : sendBuf.host = s.migSendBuf srcCbIndex)
    (ran : s.requestMigration localRbIndex srcRbIndex srcCbIndex = .ok next) :
    (requestBuf sendBuf s.session.mrh.mrList localRbIndex srcRbIndex).host =
      next.migSendBuf srcCbIndex := by
  rw [(MigrationCb.requestMigration_ok ran).2, ← same]
  unfold requestBuf RdmaMrHandler.requestMessage
  have zero : ntohl 0 = 0 := rfl
  unfold Message.host
  congr 1
  · funext i
    by_cases here : (i.val : Int) = localRbIndex
    · simp [here]
    · simp [here]
  · funext i
    by_cases here : (i.val : Int) = localRbIndex
    · simp [here]
    · simp [here, zero]

end Valet.Daemon

namespace Valet.Wire

open Valet.Library Valet.Daemon Valet.Bd

/-- A block that a message is about: its number and what registering its memory answered. -/
structure Descriptor where
  index : Region
  mr : IbvMr
  key : mr.rkey ≠ 0

/-- A message about a block on its way: what its sender had at hand, with whatever lay in its send
buffer, and its receiver. -/
inductive Transfer (servers replicas : Nat) where
  /-- From `prepare_single_mr` to `valet_remote_block_init`. -/
  | respMrMap (block : Descriptor) (sendBuf : Message) (myIndex : Int)
      (row : Fin (replicas + 1)) (select : Swapspace) (receiver : ValetSession servers replicas)
      (cb : Fin servers)
  /-- From `prepare_single_mr` to `valet_migration_block_init`. -/
  | respMigMap (block : Descriptor) (sendBuf recv : Message) (myIndex : Int)
      (receiver : RemoteBlockHandler)
  /-- From `request_migration` to `do_migration`. -/
  | reqMigration (block : Descriptor) (sendBuf : Message) (mrList : Region → IbvMr)
      (held : mrList block.index = block.mr) (srcRbIndex : Int) (receiver : Session) (client : Nat)
  /-- From `valet_migration_block_map` to the case `REQ_MIG_MAP` of `handle_recv`. -/
  | reqMigMap (block : Descriptor) (sender next : ValetSession servers replicas)
      (oldCb newCb : Fin servers) (round : Round)
      (marked : (List.finRange maxMrSizeGb).find? (sender.rbh oldCb).migRbIdx = some block.index)
      (rkey : ((sender.rbh oldCb).remoteBlock block.index).remoteRkey = block.mr.rkey)
      (addr : ((sender.rbh oldCb).remoteBlock block.index).remoteAddr = block.mr.addr)
      (sent : sender.requestMigMap oldCb newCb round = .ok next)
      (receiver : MigrationRemoteBlockHandler)

namespace Transfer

variable {servers replicas : Nat}

/-- The message as it lies in the buffer. -/
def message : Transfer servers replicas → Message
  | respMrMap block sendBuf myIndex row select _ _ =>
      let recv : Message :=
        { Message.empty with type := .reqMrMap, sizeGb := select.val, replicaIndex := row.val }
      prepareBuf sendBuf recv (some block.index) block.mr false myIndex
  | respMigMap block sendBuf recv myIndex _ =>
      prepareBuf sendBuf recv (some block.index) block.mr true myIndex
  | reqMigration block sendBuf mrList _ srcRbIndex _ _ =>
      requestBuf sendBuf mrList block.index.val srcRbIndex
  | reqMigMap _ _ next _ newCb _ _ _ _ _ _ => (next.cbList newCb).sendBuf

/-- A receiver that reads the message has the number, the key and the address of the block. -/
def Recovers (msg : Message) : Transfer servers replicas → Prop
  | respMrMap block _ _ row select receiver cb =>
      ∃ next, receiver.valetRemoteBlockInit cb msg = .ok next ∧
        next.mappingSwapspaceToRb row select = block.index.val ∧
        ((next.rbh cb).remoteBlock block.index).remoteRkey = block.mr.rkey ∧
        ((next.rbh cb).remoteBlock block.index).remoteAddr = block.mr.addr
  | respMigMap block _ _ _ receiver =>
      (receiver.valetMigrationBlockInit msg).destRbIndex = block.index.val ∧
        (∀ i, (receiver.valetMigrationBlockInit msg).migRbIdx i = true ↔ i = block.index) ∧
        ((receiver.valetMigrationBlockInit msg).remoteBlock block.index).remoteRkey =
          block.mr.rkey ∧
        ((receiver.valetMigrationBlockInit msg).remoteBlock block.index).remoteAddr =
          block.mr.addr
  | reqMigration block _ _ _ srcRbIndex receiver client =>
      msg.firstRkey = some block.index ∧
        ∃ next, receiver.doMigration client msg = .ok next ∧
          next.sent = receiver.sent ++ [(client, .write block.mr.rkey block.mr.addr srcRbIndex)]
  | reqMigMap block _ _ _ _ _ _ _ _ _ receiver =>
      msg.firstRkey = some block.index ∧
        (Session.noteSource msg receiver).rkey block.index = block.mr.rkey ∧
        (Session.noteSource msg receiver).buf block.index = block.mr.addr

/-- What the sender put in arrives. -/
def Recovered (transfer : Transfer servers replicas) : Prop :=
  Recovers transfer.message.host transfer

/-- The message is converted, or conversion does not change it. -/
def Converted : Transfer servers replicas → Prop
  | reqMigMap block _ _ _ _ _ _ _ _ _ _ =>
      ntohl block.mr.rkey = block.mr.rkey ∧ ntohll block.mr.addr = block.mr.addr
  | respMrMap _ _ _ _ _ _ _ | respMigMap _ _ _ _ _ | reqMigration _ _ _ _ _ _ _ => True

end Transfer

section Replies

variable {block : Descriptor} {sendBuf recv : Message} {isMigration : Bool} {myIndex : Int}

/-- A reply names its region only. -/
theorem rkey_prepareBuf (i : Region) :
    (prepareBuf sendBuf recv (some block.index) block.mr isMigration myIndex).host.rkey i =
      if i = block.index then block.mr.rkey else 0 := by
  have zero : ntohl 0 = 0 := rfl
  unfold prepareBuf
  by_cases same : i = block.index
  · cases isMigration <;> simp [Message.host, same]
  · cases isMigration <;> simp [Message.host, same, zero]

theorem buf_prepareBuf :
    (prepareBuf sendBuf recv (some block.index) block.mr isMigration myIndex).host.buf block.index =
      block.mr.addr := by
  unfold prepareBuf
  cases isMigration <;> simp [Message.host]

theorem sizeGb_prepareBuf :
    (prepareBuf sendBuf recv (some block.index) block.mr isMigration myIndex).host.sizeGb =
      recv.sizeGb := by
  unfold prepareBuf Message.host
  cases isMigration <;> rfl

theorem replicaIndex_prepareBuf :
    (prepareBuf sendBuf recv (some block.index) block.mr isMigration myIndex).host.replicaIndex =
      recv.replicaIndex := by
  unfold prepareBuf Message.host
  cases isMigration <;> rfl

/-- A message that names a block only is read as one about it. -/
theorem firstRkey_of_rkey {msg : Message}
    (keys : ∀ i, msg.rkey i = if i = block.index then block.mr.rkey else 0) :
    msg.firstRkey = some block.index := by
  apply Message.firstRkey_eq_some
  intro i
  rw [keys]
  by_cases same : i = block.index
  · simp [same, block.key]
  · simp [same]

theorem rkey_requestBuf {mrList : Region → IbvMr} (sendBuf : Message)
    (held : mrList block.index = block.mr) (srcRbIndex : Int) (i : Region) :
    (requestBuf sendBuf mrList block.index.val srcRbIndex).host.rkey i =
      if i = block.index then block.mr.rkey else 0 := by
  have zero : ntohl 0 = 0 := rfl
  by_cases same : i = block.index
  · subst same
    simp [requestBuf, Message.host, held]
  · have other : i.val ≠ block.index.val := fun equal => same (Fin.ext equal)
    simp [requestBuf, Message.host, same, other, zero]

theorem buf_requestBuf {mrList : Region → IbvMr} (held : mrList block.index = block.mr)
    (srcRbIndex : Int) :
    (requestBuf sendBuf mrList block.index.val srcRbIndex).host.buf block.index = block.mr.addr := by
  simp [requestBuf, Message.host, held]

end Replies

section Receivers

variable {servers replicas : Nat} {msg : Message} {i : Block}

/-- `valet_remote_block_init` maps the block that the message names. -/
theorem valetRemoteBlockInit_maps (receiver : ValetSession servers replicas) (cb : Fin servers)
    {row : Fin (replicas + 1)} {select : Swapspace} (first : msg.firstRkey = some i)
    (replica : msg.replicaIndex = row.val) (size : msg.sizeGb = select.val) :
    ∃ next, receiver.valetRemoteBlockInit cb msg = .ok next ∧
      next.mappingSwapspaceToRb row select = i.val ∧
      ((next.rbh cb).remoteBlock i).remoteRkey = msg.rkey i ∧
      ((next.rbh cb).remoteBlock i).remoteAddr = msg.buf i := by
  refine ⟨((receiver.modifyRbh cb fun rbh => rbh.mapBlock msg i).setRb row select
    i.val).setCbIndex row select cb.val, ?_, ?_, ?_⟩
  · unfold ValetSession.valetRemoteBlockInit
    rw [first]
    dsimp only
    rw [index_eq_ok.mpr replica, index_eq_ok.mpr size]
    rfl
  · simp [ValetSession.setCbIndex, ValetSession.setRb]
  · rw [ValetSession.rbh_setCbIndex, ValetSession.rbh_setRb, ValetSession.rbh_modifyRbh]
    unfold RemoteBlockHandler.mapBlock
    dsimp only
    rw [Function.update_self]
    exact ⟨rfl, rfl⟩

/-- `valet_migration_block_init` marks and fills the blocks that the message names. -/
theorem valetMigrationBlockInit_maps (receiver : RemoteBlockHandler) (named : msg.rkey i ≠ 0) :
    ((receiver.valetMigrationBlockInit msg).remoteBlock i).remoteRkey = msg.rkey i ∧
      ((receiver.valetMigrationBlockInit msg).remoteBlock i).remoteAddr = msg.buf i := by
  have key : (msg.rkey i != 0) = true := by simpa using named
  unfold RemoteBlockHandler.valetMigrationBlockInit
  dsimp only
  rw [if_pos key]
  exact ⟨rfl, rfl⟩

/-- `do_migration` writes the region to where the message says. -/
theorem doMigration_writes (receiver : Session) (client : Nat) (first : msg.firstRkey = some i) :
    ∃ next, receiver.doMigration client msg = .ok next ∧
      next.sent = receiver.sent ++ [(client, .write (msg.rkey i) (msg.buf i) msg.sizeGb)] := by
  unfold Session.doMigration
  rw [first]
  exact ⟨_, rfl, rfl⟩

/-- The case `REQ_MIG_MAP` of `handle_recv` notes the block that the message names. -/
theorem noteSource_notes (receiver : MigrationRemoteBlockHandler)
    (first : msg.firstRkey = some i) :
    (Session.noteSource msg receiver).rkey i = msg.rkey i ∧
      (Session.noteSource msg receiver).buf i = msg.buf i := by
  unfold Session.noteSource
  rw [first]
  dsimp only
  rw [Function.update_self, Function.update_self]
  exact ⟨rfl, rfl⟩

/-- `valet_migration_block_map` puts the marked block into the message as it has it. -/
theorem requestMigMap_sends {sender next : ValetSession servers replicas} {oldCb newCb : Fin servers}
    {round : Round} (marked : (List.finRange maxMrSizeGb).find? (sender.rbh oldCb).migRbIdx = some i)
    (key : ((sender.rbh oldCb).remoteBlock i).remoteRkey ≠ 0)
    (sent : sender.requestMigMap oldCb newCb round = .ok next) :
    (next.cbList newCb).sendBuf.firstRkey = some i ∧
      (next.cbList newCb).sendBuf.rkey i = ((sender.rbh oldCb).remoteBlock i).remoteRkey ∧
      (next.cbList newCb).sendBuf.buf i = ((sender.rbh oldCb).remoteBlock i).remoteAddr := by
  unfold ValetSession.requestMigMap at sent
  obtain ⟨row, _, sent⟩ := bind_eq_ok.mp sent
  obtain ⟨swapspace, _, sent⟩ := bind_eq_ok.mp sent
  dsimp only at sent
  rw [marked] at sent
  cases sent
  have filled : ∀ change : Message → Message,
      ((sender.modifySendBuf newCb change).cbList newCb).sendBuf =
        change (sender.cbList newCb).sendBuf := by
    intro change
    simp [ValetSession.modifySendBuf, ValetSession.setCb]
  rw [filled]
  refine ⟨Message.firstRkey_least ?_ ?_, ?_, ?_⟩
  · simpa using key
  · intro j below
    simp [below]
  · simp
  · simp

end Receivers

namespace Transfer

variable {servers replicas : Nat} {block : Descriptor} {sendBuf recv : Message} {myIndex : Int}

theorem respMrMap_recovered (row : Fin (replicas + 1)) (select : Swapspace)
    (receiver : ValetSession servers replicas) (cb : Fin servers) :
    (respMrMap block sendBuf myIndex row select receiver cb).Recovered := by
  have first : (respMrMap block sendBuf myIndex row select receiver cb).message.host.firstRkey =
      some block.index := firstRkey_of_rkey rkey_prepareBuf
  obtain ⟨next, ran, maps, rkey, addr⟩ := valetRemoteBlockInit_maps receiver cb first
    replicaIndex_prepareBuf sizeGb_prepareBuf
  refine ⟨next, ran, maps, rkey.trans ?_, addr.trans buf_prepareBuf⟩
  exact (rkey_prepareBuf _).trans (if_pos rfl)

theorem respMigMap_recovered (receiver : RemoteBlockHandler) :
    (respMigMap block sendBuf recv myIndex receiver : Transfer servers replicas).Recovered := by
  have keys : ∀ i, (respMigMap block sendBuf recv myIndex receiver :
      Transfer servers replicas).message.host.rkey i =
        if i = block.index then block.mr.rkey else 0 := rkey_prepareBuf
  have own := (keys block.index).trans (if_pos rfl)
  obtain ⟨rkey, addr⟩ := valetMigrationBlockInit_maps receiver
    (own.trans_ne block.key)
  refine ⟨rfl, fun i => ?_, rkey.trans own, addr.trans buf_prepareBuf⟩
  show (Message.rkey _ i != 0) = true ↔ i = block.index
  rw [keys]
  by_cases same : i = block.index
  · simp [same, block.key]
  · simp [same]

theorem reqMigration_recovered {mrList : Region → IbvMr} (held : mrList block.index = block.mr)
    (srcRbIndex : Int) (receiver : Session) (client : Nat) :
    (reqMigration block sendBuf mrList held srcRbIndex receiver client :
      Transfer servers replicas).Recovered := by
  have keys := rkey_requestBuf sendBuf held srcRbIndex
  have first := firstRkey_of_rkey keys
  obtain ⟨next, ran, sent⟩ := doMigration_writes receiver client first
  refine ⟨first, next, ran, ?_⟩
  rw [sent, keys, if_pos rfl, buf_requestBuf held]
  rfl

/-- The client does not convert what it writes, and the daemon converts what it reads. -/
theorem reqMigMap_recovered_iff {sender next : ValetSession servers replicas}
    {oldCb newCb : Fin servers} {round : Round}
    (marked : (List.finRange maxMrSizeGb).find? (sender.rbh oldCb).migRbIdx = some block.index)
    (rkey : ((sender.rbh oldCb).remoteBlock block.index).remoteRkey = block.mr.rkey)
    (addr : ((sender.rbh oldCb).remoteBlock block.index).remoteAddr = block.mr.addr)
    (sent : sender.requestMigMap oldCb newCb round = .ok next)
    (receiver : MigrationRemoteBlockHandler) :
    (reqMigMap block sender next oldCb newCb round marked rkey addr sent receiver).Recovered ↔
      ntohl block.mr.rkey = block.mr.rkey ∧ ntohll block.mr.addr = block.mr.addr := by
  obtain ⟨first, key, buf⟩ := requestMigMap_sends marked (rkey.trans_ne block.key) sent
  rw [← Message.firstRkey_host] at first
  obtain ⟨notedKey, notedBuf⟩ := noteSource_notes receiver first
  rw [Message.rkey_host, key, rkey] at notedKey
  rw [Message.buf_host, buf, addr] at notedBuf
  unfold Recovered Recovers message
  dsimp only
  rw [notedKey, notedBuf]
  exact ⟨fun both => both.2, fun both => ⟨first, both⟩⟩

/-- What the sender of a message about a block puts in arrives exactly if the message is converted
or the bytes of key and address read the same in both orders. -/
theorem recovered_iff (transfer : Transfer servers replicas) :
    transfer.Recovered ↔ transfer.Converted := by
  cases transfer with
  | respMrMap block sendBuf myIndex row select receiver cb =>
      exact iff_of_true (respMrMap_recovered row select receiver cb) trivial
  | respMigMap block sendBuf recv myIndex receiver =>
      exact iff_of_true (respMigMap_recovered receiver) trivial
  | reqMigration block sendBuf mrList held srcRbIndex receiver client =>
      exact iff_of_true (reqMigration_recovered held srcRbIndex receiver client) trivial
  | reqMigMap block sender next oldCb newCb round marked rkey addr sent receiver =>
      exact reqMigMap_recovered_iff marked rkey addr sent receiver

theorem one_ne_zero_key : (1 : UInt32) ≠ 0 := by decide

/-- Block 0, of which the client has this key and address. -/
def plainBlock : Descriptor := ⟨firstBlock, ⟨4096, 1⟩, one_ne_zero_key⟩

/-- A client of two servers; the first has said that it evicts block 0. -/
def evictedBlock : ValetSession 2 0 :=
  ValetSession.init.modifyRbh 0 fun rbh => { rbh with
    remoteBlock := fun _ => ⟨1, 4096, .readonly, none, 0⟩
    migRbIdx := fun i => i = firstBlock }

/-- The key 1 reaches the daemon as 2 ^ 24. -/
theorem reqMigMap_unconverted :
    ¬ ∀ (servers replicas : Nat) (transfer : Transfer servers replicas), transfer.Recovered := by
  intro claim
  obtain ⟨next, sent⟩ : ∃ next, evictedBlock.requestMigMap 0 1 ⟨0, 0, 0, 0⟩ = .ok next := ⟨_, rfl⟩
  have marked : (List.finRange maxMrSizeGb).find? (evictedBlock.rbh 0).migRbIdx =
      some plainBlock.index := by decide
  have rkey : ((evictedBlock.rbh 0).remoteBlock plainBlock.index).remoteRkey =
      plainBlock.mr.rkey := rfl
  have addr : ((evictedBlock.rbh 0).remoteBlock plainBlock.index).remoteAddr =
      plainBlock.mr.addr := rfl
  have recovered := claim 2 0 (reqMigMap plainBlock evictedBlock next 0 1 ⟨0, 0, 0, 0⟩ marked rkey
    addr sent ⟨fun _ => 0, fun _ => 0, 0, 0, 0, 0⟩)
  have same : ntohl 1 = 1 := ((reqMigMap_recovered_iff marked rkey addr sent _).mp recovered).1
  revert same
  decide

end Transfer

end Valet.Wire
