import Valet.Wire.Message
import Valet.Bd.DataPath

/-!
# The control blocks of the client

A client has one control block for each server, with a table of the blocks it
has there, and the tables that lead from a swapspace to server and block, one
row for each replica.  The handlers of received messages and of send
completions work on them.

Tables have the sizes of the source, and an index from a message or from a table
is checked where it is used; a read or write outside of the table halts.  The
size of a message is right, and a message of the type `RESP_QUERY` is a
`QueryMessage`.
-/

namespace Valet.Bd

open Valet.Wire Valet.Library

abbrev Block := Fin maxMrSizeGb

abbrev Swapspace := Fin swapspaceSizeG

def firstSwapspace : Swapspace := ⟨0, by decide⟩

def firstBlock : Block := ⟨0, by decide⟩

def noCbMapped : Int := -1

/-- `enum remote_block_handler_state`. -/
inductive RbhState where
  | idle
  | ready
  | evict
  | migrationReady
  | migrationDone
  | deleteRb
  deriving DecidableEq

/-- `enum test_state`. -/
inductive TestState where
  | idle
  | connectRequest
  | addrResolved
  | routeResolved
  | connected
  | recvQueryRepl
  | recvMrMap
  | recvEvict
  | recvMigMap
  | recvMigrationDone
  | cmDisconnect
  | error
  deriving DecidableEq

/-- `state < CONNECTED`. -/
def TestState.unconnected : TestState → Bool
  | idle | connectRequest | addrResolved | routeResolved => true
  | _ => false

/-- `enum cb_state`. -/
inductive CbState where
  | idle
  | connected
  | mapped
  | migrating
  | evicting
  | fail
  deriving DecidableEq

/-- `struct remote_block`; `none` is the bitmap that was never allocated. -/
structure RemoteBlock where
  remoteRkey : UInt32
  remoteAddr : UInt64
  rbState : RemoteBlockState
  bitmapG : Option (Nat → Bool)
  replicaIndex : Int

/-- `struct remote_block_handler`; `migRbIdx` is set for `'m'`. -/
structure RemoteBlockHandler where
  remoteBlock : Block → RemoteBlock
  remoteMapped : Block → Bool
  blockSizeGb : Int
  targetSizeGb : Int
  sum : Nat
  rbIdxMap : Block → Int
  migRbIdx : Block → Bool
  cState : RbhState
  destRbIndex : Int
  destCbIndex : Int
  srcRbIndex : Int
  srcCbIndex : Int
  clientSwapspaceIndex : Int
  replicaIndex : Int

/-- `struct kernel_cb`. -/
structure KernelCb where
  sendBuf : Message
  rbh : RemoteBlockHandler
  state : TestState

/-- `struct valet_session` with `NUM_REPLICA` one more than `replicas`. -/
structure ValetSession (servers replicas : Nat) where
  cbList : Fin servers → KernelCb
  cbStateList : Fin servers → CbState
  cbIndexMap : Fin (replicas + 1) → Swapspace → Int
  mappingSwapspaceToRb : Fin (replicas + 1) → Swapspace → Int
  mappedCbNum : Int
  rdmaOn : Bool

/-- What a client receives. -/
inductive Received where
  | message (msg : Message)
  | query (qmsg : QueryMessage)

/-- The entry of a table with `size` entries at a C index. -/
def index (size : Nat) (i : Int) : Except Halt (Fin size) :=
  if inside : 0 ≤ i ∧ i < size then
    .ok ⟨i.toNat, by omega⟩
  else
    .error .oops

theorem index_eq_ok {size : Nat} {i : Int} {entry : Fin size} :
    index size i = .ok entry ↔ i = entry.val := by
  unfold index
  constructor
  · intro found
    split at found
    · cases found
      dsimp only
      omega
    · cases found
  · rintro rfl
    have inside : 0 ≤ (entry.val : Int) ∧ (entry.val : Int) < size := by omega
    rw [dif_pos inside]
    congr

/-- The table of a server at the beginning. -/
def RemoteBlockHandler.init : RemoteBlockHandler where
  remoteBlock := fun _ => ⟨0, 0, .active, none, 0⟩
  remoteMapped := fun _ => false
  blockSizeGb := 0
  targetSizeGb := 0
  sum := 0
  rbIdxMap := fun _ => -1
  migRbIdx := fun _ => false
  cState := .idle
  destRbIndex := 0
  destCbIndex := 0
  srcRbIndex := 0
  srcCbIndex := 0
  clientSwapspaceIndex := 0
  replicaIndex := 0

namespace RemoteBlockHandler

/-- The number of keys in a message. -/
def keys (recv : Message) : Nat := (List.finRange maxMrSizeGb).countP fun i => recv.rkey i != 0

/-- A block as a map reply leaves it. -/
def RemoteBlock.mapped (rb : RemoteBlock) (recv : Message) (i : Block) : RemoteBlock :=
  { rb with
    remoteRkey := recv.rkey i
    remoteAddr := recv.buf i
    bitmapG := some fun _ => false
    replicaIndex := recv.replicaIndex }

/-- `evict_handler_prep`. -/
def evictHandlerPrep (rbh : RemoteBlockHandler) (recv : Message) : RemoteBlockHandler :=
  { rbh with
    clientSwapspaceIndex := recv.sizeGb
    srcCbIndex := recv.cbIndex
    srcRbIndex := recv.rbIndex
    replicaIndex := recv.replicaIndex
    migRbIdx := fun i => recv.rkey i != 0 }

/-- `valet_migration_block_init`.  Its loop goes over all keys and treats the blocks one by
one. -/
def valetMigrationBlockInit (rbh : RemoteBlockHandler) (recv : Message) : RemoteBlockHandler :=
  { rbh with
    clientSwapspaceIndex := recv.sizeGb
    destCbIndex := recv.cbIndex
    destRbIndex := recv.rbIndex
    migRbIdx := fun i => recv.rkey i != 0
    remoteBlock := fun i =>
      if recv.rkey i != 0 then RemoteBlock.mapped (rbh.remoteBlock i) recv i
      else rbh.remoteBlock i
    rbIdxMap := fun i => if recv.rkey i != 0 then recv.sizeGb else rbh.rbIdxMap i
    blockSizeGb := rbh.blockSizeGb + keys recv
    remoteMapped := fun i => recv.rkey i != 0 || rbh.remoteMapped i
    cState := if recv.firstRkey.isSome then .migrationReady else rbh.cState }

/-- What `valet_remote_block_init` does to the table of the server for the first key. -/
def mapBlock (rbh : RemoteBlockHandler) (recv : Message) (i : Block) : RemoteBlockHandler :=
  { rbh with
    remoteBlock := Function.update rbh.remoteBlock i
      { RemoteBlock.mapped (rbh.remoteBlock i) recv i with rbState := .active }
    rbIdxMap := Function.update rbh.rbIdxMap i recv.sizeGb
    blockSizeGb := rbh.blockSizeGb + 1
    cState := .ready
    remoteMapped := Function.update rbh.remoteMapped i true }

def withRbState (rbh : RemoteBlockHandler) (rb : Block) (state : RemoteBlockState) :
    RemoteBlockHandler :=
  { rbh with
    remoteBlock := Function.update rbh.remoteBlock rb
      { rbh.remoteBlock rb with rbState := state } }

def withBitmap (rbh : RemoteBlockHandler) (rb : Block) (bitmap : Nat → Bool) :
    RemoteBlockHandler :=
  { rbh with
    remoteBlock := Function.update rbh.remoteBlock rb
      { rbh.remoteBlock rb with bitmapG := some bitmap } }

/-- The blocks marked for migration; `reset_migration_info` clears them. -/
def clearMarked (rbh : RemoteBlockHandler) : RemoteBlockHandler :=
  { rbh with
    remoteBlock := fun i =>
      if rbh.migRbIdx i then
        { rbh.remoteBlock i with
          remoteRkey := 0
          remoteAddr := 0
          bitmapG := (rbh.remoteBlock i).bitmapG.map fun _ _ => false }
      else
        rbh.remoteBlock i
    rbIdxMap := fun i => if rbh.migRbIdx i then -1 else rbh.rbIdxMap i
    blockSizeGb := rbh.blockSizeGb - ((List.finRange maxMrSizeGb).countP rbh.migRbIdx : Nat)
    cState := if (List.finRange maxMrSizeGb).any rbh.migRbIdx then .idle else rbh.cState
    remoteMapped := fun i => rbh.remoteMapped i && !rbh.migRbIdx i
    migRbIdx := fun _ => false }

end RemoteBlockHandler

namespace ValetSession

variable {servers replicas : Nat} (s : ValetSession servers replicas)

def setCb (cb : Fin servers) (value : KernelCb) : ValetSession servers replicas :=
  { s with cbList := Function.update s.cbList cb value }

def modifyRbh (cb : Fin servers) (change : RemoteBlockHandler → RemoteBlockHandler) :
    ValetSession servers replicas :=
  s.setCb cb { s.cbList cb with rbh := change (s.cbList cb).rbh }

def setState (cb : Fin servers) (state : TestState) : ValetSession servers replicas :=
  s.setCb cb { s.cbList cb with state := state }

def setCbState (cb : Fin servers) (state : CbState) : ValetSession servers replicas :=
  { s with cbStateList := Function.update s.cbStateList cb state }

def setCbIndex (row : Fin (replicas + 1)) (swapspace : Swapspace) (cbIndex : Int) :
    ValetSession servers replicas :=
  { s with
    cbIndexMap := Function.update s.cbIndexMap row
      (Function.update (s.cbIndexMap row) swapspace cbIndex) }

def setRb (row : Fin (replicas + 1)) (swapspace : Swapspace) (rbIndex : Int) :
    ValetSession servers replicas :=
  { s with
    mappingSwapspaceToRb := Function.update s.mappingSwapspaceToRb row
      (Function.update (s.mappingSwapspaceToRb row) swapspace rbIndex) }

def rbh (cb : Fin servers) : RemoteBlockHandler := (s.cbList cb).rbh

@[simp] theorem rbh_setState (cb other : Fin servers) (state : TestState) :
    (s.setState cb state).rbh other = s.rbh other := by
  by_cases same : other = cb
  · subst same
    simp [rbh, setState, setCb]
  · simp [rbh, setState, setCb, same]

@[simp] theorem rbh_setCbState (cb other : Fin servers) (state : CbState) :
    (s.setCbState cb state).rbh other = s.rbh other := rfl

@[simp] theorem rbh_setCbIndex (row : Fin (replicas + 1)) (swapspace : Swapspace) (cbIndex : Int)
    (cb : Fin servers) : (s.setCbIndex row swapspace cbIndex).rbh cb = s.rbh cb := rfl

@[simp] theorem rbh_setRb (row : Fin (replicas + 1)) (swapspace : Swapspace) (rbIndex : Int)
    (cb : Fin servers) : (s.setRb row swapspace rbIndex).rbh cb = s.rbh cb := rfl

@[simp] theorem rbh_modifyRbh (cb : Fin servers)
    (change : RemoteBlockHandler → RemoteBlockHandler) :
    (s.modifyRbh cb change).rbh cb = change (s.rbh cb) := by
  simp [rbh, modifyRbh, setCb]

theorem rbh_modifyRbh_of_ne {cb other : Fin servers} (different : other ≠ cb)
    (change : RemoteBlockHandler → RemoteBlockHandler) :
    (s.modifyRbh cb change).rbh other = s.rbh other := by
  simp [rbh, modifyRbh, setCb, different]

@[simp] theorem state_setState (cb : Fin servers) (state : TestState) :
    ((s.setState cb state).cbList cb).state = state := by
  simp [setState, setCb]

@[simp] theorem state_modifyRbh (cb other : Fin servers)
    (change : RemoteBlockHandler → RemoteBlockHandler) :
    ((s.modifyRbh cb change).cbList other).state = (s.cbList other).state := by
  by_cases same : other = cb
  · subst same
    simp [modifyRbh, setCb]
  · simp [modifyRbh, setCb, same]

/-- The tables that lead from a swapspace to server and block. -/
def SameMaps (next : ValetSession servers replicas) : Prop :=
  next.cbIndexMap = s.cbIndexMap ∧ next.mappingSwapspaceToRb = s.mappingSwapspaceToRb

/-- `valet_remote_block_init`. -/
def valetRemoteBlockInit (cb : Fin servers) (recv : Message) :
    Except Halt (ValetSession servers replicas) :=
  match recv.firstRkey with
  | none => .ok s
  | some i => do
      let row ← index (replicas + 1) recv.replicaIndex
      let select ← index swapspaceSizeG recv.sizeGb
      return ((s.modifyRbh cb fun rbh => rbh.mapBlock recv i).setRb row select i.val).setCbIndex
        row select cb.val

/-- `recv_msg_handler`; `none` is the error return. -/
def recvMsgHandler (cb : Fin servers) (recv : Received) :
    Except Halt (Option (ValetSession servers replicas)) :=
  if (s.cbList cb).state.unconnected then
    .ok none
  else
    match recv with
    | .query qmsg =>
        .ok (some ((s.modifyRbh cb fun rbh =>
          { rbh with targetSizeGb := qmsg.sizeGb, sum := qmsg.sum }).setState cb .recvQueryRepl))
    | .message recv =>
        match recv.type with
        | .respMigMap =>
            .ok (some ((s.setState cb .recvMigMap).modifyRbh cb
              fun rbh => rbh.valetMigrationBlockInit recv))
        | .respMrMap => do
            let s ← ((s.setCbState cb .mapped).setState cb .recvMrMap).valetRemoteBlockInit cb recv
            return some s
        | .doneMigration =>
            .ok (some ((s.setState cb .recvMigrationDone).modifyRbh cb
              fun rbh => { rbh with cState := .migrationDone }))
        | .evict =>
            .ok (some ((s.setState cb .recvEvict).modifyRbh cb
              fun rbh => { rbh.evictHandlerPrep recv with cState := .evict }))
        | _ => .ok none

/-- `rdma_cq_event_handler` for a received message. -/
def recvDone (cb : Fin servers) (recv : Received) :
    Except Halt (ValetSession servers replicas) :=
  if (s.cbList cb).state = .error then
    .ok s
  else do
    match ← s.recvMsgHandler cb recv with
    | none => return s.setState cb .error
    | some s => return s

/-- `rdma_cq_event_handler` with `send_done_postwork` for the completion of a send; the type
is that of the buffer as it is by then. -/
def sendDone (cb : Fin servers) : ValetSession servers replicas :=
  if (s.cbList cb).state = .error then
    s
  else if (s.cbList cb).state.unconnected then
    s.setState cb .error
  else if (s.cbList cb).sendBuf.type = .deleteRb then
    s.modifyRbh cb fun rbh => { rbh with cState := .deleteRb }
  else
    s

/-- `set_rb_state`. -/
def setRbState (cb : Fin servers) (selectIdx : Swapspace) (state : RemoteBlockState) :
    Except Halt (ValetSession servers replicas) := do
  let rb ← index maxMrSizeGb (s.mappingSwapspaceToRb 0 selectIdx)
  return s.modifyRbh cb fun rbh => rbh.withRbState rb state

/-- What `reset_migration_info` does to the new server. -/
def clearNew (newCb : Option (Fin servers)) : ValetSession servers replicas :=
  match newCb with
  | none => s
  | some newCb => s.modifyRbh newCb fun rbh => { rbh with migRbIdx := fun _ => false }

/-- `reset_migration_info`; clearing a bitmap that was never allocated halts. -/
def resetMigrationInfo (oldCb : Fin servers) (newCb : Option (Fin servers))
    (replicaIndex clientEvictRbIndex : Int) : Except Halt (ValetSession servers replicas) :=
  let rbh := s.rbh oldCb
  if ∀ i, rbh.migRbIdx i = false then
    .ok (s.clearNew newCb)
  else if ∃ i, rbh.migRbIdx i = true ∧ (rbh.remoteBlock i).bitmapG = none then
    .error .oops
  else do
    let row ← index (replicas + 1) replicaIndex
    let swapspace ← index swapspaceSizeG clientEvictRbIndex
    return ((s.modifyRbh oldCb RemoteBlockHandler.clearMarked).setCbIndex row swapspace
      noCbMapped).clearNew newCb

/-- The connection takes messages. -/
def Alive (cb : Fin servers) : Prop :=
  (s.cbList cb).state ≠ .error ∧ (s.cbList cb).state.unconnected = false

/-- The outcomes of `valet_remote_block_init`. -/
inductive InitsBlock (cb : Fin servers) (recv : Message) :
    ValetSession servers replicas → Prop where
  | nothing (empty : recv.firstRkey = none) : InitsBlock cb recv s
  | mapped {i : Block} {row : Fin (replicas + 1)} {select : Swapspace}
      (first : recv.firstRkey = some i) (isRow : recv.replicaIndex = row.val)
      (isSelect : recv.sizeGb = select.val) :
      InitsBlock cb recv
        (((s.modifyRbh cb fun rbh => rbh.mapBlock recv i).setRb row select i.val).setCbIndex
          row select cb.val)

variable {s} {next : ValetSession servers replicas}

theorem initsBlock_of_ok {cb : Fin servers} {recv : Message}
    (ran : s.valetRemoteBlockInit cb recv = .ok next) : InitsBlock s cb recv next := by
  unfold valetRemoteBlockInit at ran
  cases first : recv.firstRkey with
  | none =>
      rw [first] at ran
      cases ran
      exact .nothing first
  | some i =>
      rw [first] at ran
      obtain ⟨row, isRow, rest⟩ := bind_eq_ok.mp ran
      obtain ⟨select, isSelect, last⟩ := bind_eq_ok.mp rest
      cases last
      exact .mapped first (index_eq_ok.mp isRow) (index_eq_ok.mp isSelect)

/-- The types that `recv_msg_handler` knows, but for `RESP_QUERY`. -/
def known : MsgOpcode → Bool
  | .respMigMap | .respMrMap | .doneMigration | .evict => true
  | _ => false

/-- The outcomes of a received message. -/
inductive Receives (s : ValetSession servers replicas) (cb : Fin servers) :
    Received → ValetSession servers replicas → Prop where
  | ignored {recv : Received} (error : (s.cbList cb).state = .error) : Receives s cb recv s
  | refused {recv : Received} (reason : (s.cbList cb).state.unconnected = true ∨
        ∃ msg, recv = .message msg ∧ known msg.type = false) :
      Receives s cb recv (s.setState cb .error)
  | query {qmsg : QueryMessage} (alive : s.Alive cb) :
      Receives s cb (.query qmsg) ((s.modifyRbh cb fun rbh =>
        { rbh with targetSizeGb := qmsg.sizeGb, sum := qmsg.sum }).setState cb .recvQueryRepl)
  | migMap {msg : Message} (alive : s.Alive cb) (type : msg.type = .respMigMap) :
      Receives s cb (.message msg) ((s.setState cb .recvMigMap).modifyRbh cb
        fun rbh => rbh.valetMigrationBlockInit msg)
  | mrMap {msg : Message} {next : ValetSession servers replicas} (alive : s.Alive cb)
      (type : msg.type = .respMrMap)
      (inits : InitsBlock ((s.setCbState cb .mapped).setState cb .recvMrMap) cb msg next) :
      Receives s cb (.message msg) next
  | done {msg : Message} (alive : s.Alive cb) (type : msg.type = .doneMigration) :
      Receives s cb (.message msg) ((s.setState cb .recvMigrationDone).modifyRbh cb
        fun rbh => { rbh with cState := .migrationDone })
  | evict {msg : Message} (alive : s.Alive cb) (type : msg.type = .evict) :
      Receives s cb (.message msg) ((s.setState cb .recvEvict).modifyRbh cb
        fun rbh => { rbh.evictHandlerPrep msg with cState := .evict })

theorem receives_of_ok {cb : Fin servers} {recv : Received}
    (ran : s.recvDone cb recv = .ok next) : Receives s cb recv next := by
  unfold recvDone at ran
  split at ran
  · rename_i error
    cases ran
    exact .ignored error
  · rename_i works
    obtain ⟨handled, attempt, rest⟩ := bind_eq_ok.mp ran
    unfold recvMsgHandler at attempt
    cases connected : (s.cbList cb).state.unconnected with
    | true =>
        rw [connected] at attempt
        cases attempt
        cases rest
        exact .refused (Or.inl connected)
    | false =>
        rw [connected] at attempt
        cases recv with
        | query qmsg =>
            cases attempt
            cases rest
            exact .query ⟨works, connected⟩
        | message msg =>
            simp only [Bool.false_eq_true, if_false] at attempt
            cases type : msg.type with
            | respMigMap =>
                rw [type] at attempt
                cases attempt
                cases rest
                exact .migMap ⟨works, connected⟩ type
            | respMrMap =>
                rw [type] at attempt
                obtain ⟨middle, inits, last⟩ := bind_eq_ok.mp attempt
                cases last
                cases rest
                exact .mrMap ⟨works, connected⟩ type (initsBlock_of_ok inits)
            | doneMigration =>
                rw [type] at attempt
                cases attempt
                cases rest
                exact .done ⟨works, connected⟩ type
            | evict =>
                rw [type] at attempt
                cases attempt
                cases rest
                exact .evict ⟨works, connected⟩ type
            | done | reqQuery | respQuery | reqMrMap | reqMigMap | reqMigration | deleteRb =>
                rw [type] at attempt
                cases attempt
                cases rest
                exact .refused (Or.inr ⟨msg, rfl, by rw [type]; rfl⟩)

/-- What is known is not refused. -/
theorem Alive.accepts {cb : Fin servers} {msg : Message} (alive : s.Alive cb)
    (isKnown : known msg.type = true) : ¬ ((s.cbList cb).state.unconnected = true ∨
      ∃ other, Received.message msg = .message other ∧ known other.type = false) := by
  rintro (unconnected | ⟨other, same, unknown⟩)
  · rw [alive.2] at unconnected
    cases unconnected
  · cases same
    rw [isKnown] at unknown
    cases unknown

/-- A message changes the table of its server only. -/
theorem Receives.rbh_of_ne {cb other : Fin servers} {recv : Received}
    (receives : Receives s cb recv next) (different : other ≠ cb) :
    next.rbh other = s.rbh other := by
  cases receives with
  | ignored => rfl
  | refused => rw [rbh_setState]
  | query => rw [rbh_setState, rbh_modifyRbh_of_ne _ different]
  | migMap | done | evict => rw [rbh_modifyRbh_of_ne _ different, rbh_setState]
  | mrMap _ _ inits =>
      cases inits with
      | nothing => rw [rbh_setState, rbh_setCbState]
      | mapped =>
          rw [rbh_setCbIndex, rbh_setRb, rbh_modifyRbh_of_ne _ different, rbh_setState,
            rbh_setCbState]

theorem setRbState_ok {cb : Fin servers} {selectIdx : Swapspace} {state : RemoteBlockState}
    (ran : s.setRbState cb selectIdx state = .ok next) :
    ∃ rb : Block, s.mappingSwapspaceToRb 0 selectIdx = rb.val ∧
      next = s.modifyRbh cb fun rbh => rbh.withRbState rb state := by
  obtain ⟨rb, isRb, last⟩ := bind_eq_ok.mp ran
  cases last
  exact ⟨rb, index_eq_ok.mp isRb, rfl⟩

/-- The outcomes of `reset_migration_info`. -/
inductive Resets (s : ValetSession servers replicas) (oldCb : Fin servers)
    (newCb : Option (Fin servers)) (replicaIndex clientEvictRbIndex : Int) :
    ValetSession servers replicas → Prop where
  | unmarked (clear : ∀ i, (s.rbh oldCb).migRbIdx i = false) :
      Resets s oldCb newCb replicaIndex clientEvictRbIndex (s.clearNew newCb)
  | cleared {i : Block} {row : Fin (replicas + 1)} {swapspace : Swapspace}
      (marked : (s.rbh oldCb).migRbIdx i = true) (isRow : replicaIndex = row.val)
      (isSwapspace : clientEvictRbIndex = swapspace.val) :
      Resets s oldCb newCb replicaIndex clientEvictRbIndex
        (((s.modifyRbh oldCb RemoteBlockHandler.clearMarked).setCbIndex row swapspace
          noCbMapped).clearNew newCb)

theorem resets_of_ok {oldCb : Fin servers} {newCb : Option (Fin servers)}
    {replicaIndex clientEvictRbIndex : Int}
    (ran : s.resetMigrationInfo oldCb newCb replicaIndex clientEvictRbIndex = .ok next) :
    Resets s oldCb newCb replicaIndex clientEvictRbIndex next := by
  unfold resetMigrationInfo at ran
  dsimp only at ran
  split at ran
  · rename_i clear
    cases ran
    exact .unmarked clear
  · rename_i marked
    split at ran
    · cases ran
    · obtain ⟨i, mark⟩ := not_forall.mp marked
      obtain ⟨row, isRow, rest⟩ := bind_eq_ok.mp ran
      obtain ⟨swapspace, isSwapspace, last⟩ := bind_eq_ok.mp rest
      cases last
      exact .cleared (Bool.not_eq_false _ ▸ mark) (index_eq_ok.mp isRow)
        (index_eq_ok.mp isSwapspace)

/-- `valet_session_create`. -/
def init : ValetSession servers replicas where
  cbList := fun _ => ⟨.empty, .init, .idle⟩
  cbStateList := fun _ => .idle
  cbIndexMap := fun _ _ => noCbMapped
  mappingSwapspaceToRb := fun _ _ => -1
  mappedCbNum := 0
  rdmaOn := false

end ValetSession

end Valet.Bd
