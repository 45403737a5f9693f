import Valet.Bd.ControlBlock

/-!
# Mapping and migration

`valet_remote_block_map` maps a swapspace to a block in every row; a round of
`migration_handler` moves a block that its server evicts.  Both are cut into
pieces at their waits.  `find_the_best_node` is not modelled: which server it
answers is supplied, and only its effect on that server is here.  Waiting for
requests in flight is left out, and the migration threads run from the start.
-/

namespace Valet.Bd

open Valet.Wire Valet.Library

/-- What `migration_handler` reads when it takes up an `EVICT`. -/
structure Round where
  replicaIndex : Int
  clientEvictRbIndex : Int
  srcCbIndex : Int
  srcRbIndex : Int
  deriving DecidableEq

/-- `dest_cb_index` and `dest_rb_index` of `migration_handler`. -/
structure Dest where
  cbIndex : Int
  rbIndex : Int
  deriving DecidableEq

/-- The round that an `EVICT` asks for. -/
def Round.ofEvict (msg : Message) : Round :=
  ⟨msg.replicaIndex, msg.sizeGb, msg.cbIndex, msg.rbIndex⟩

/-- The round that the slots of a server name. -/
def RemoteBlockHandler.round (rbh : RemoteBlockHandler) : Round :=
  ⟨rbh.replicaIndex, rbh.clientSwapspaceIndex, rbh.srcCbIndex, rbh.srcRbIndex⟩

def RemoteBlockHandler.dest (rbh : RemoteBlockHandler) : Dest :=
  ⟨rbh.destCbIndex, rbh.destRbIndex⟩

namespace ValetSession

variable {servers replicas : Nat} (s : ValetSession servers replicas)

def modifySendBuf (cb : Fin servers) (change : Message → Message) :
    ValetSession servers replicas :=
  s.setCb cb { s.cbList cb with sendBuf := change (s.cbList cb).sendBuf }

/-- `find_the_best_node` has connected or queried the server and got its answer.  Its waits are
left out: where another thread may come between, the search has steps of its own. -/
def queried (cb : Fin servers) : ValetSession servers replicas :=
  let s :=
    if s.cbStateList cb = .idle then
      s.setCbState cb .connected
    else
      s.modifySendBuf cb fun msg => { msg with type := .reqQuery }
  s.setState cb .recvQueryRepl

/-- The request of `valet_remote_block_map` for one row. -/
def requestMrMap (cb : Fin servers) (row : Fin (replicas + 1)) (selectIdx : Swapspace) :
    ValetSession servers replicas :=
  { s with mappedCbNum := s.mappedCbNum + 1 }.modifySendBuf cb fun msg =>
    { msg with type := .reqMrMap, sizeGb := selectIdx.val, replicaIndex := row.val }

/-- `migration_handler` takes up an `EVICT` and stops the writes to the block. -/
def takeEvict (oldCb : Fin servers) : Except Halt (Round × ValetSession servers replicas) :=
  if (s.rbh oldCb).cState ≠ .evict then
    .error .spin
  else do
    let round := (s.rbh oldCb).round
    let src ← index servers round.srcCbIndex
    let swapspace ← index swapspaceSizeG round.clientEvictRbIndex
    let s ← (s.setCbState src .migrating).setRbState oldCb swapspace .readonly
    return (round, s)

/-- The request of `valet_migration_block_map`; its loop ends at the first marked block. -/
def requestMigMap (oldCb newCb : Fin servers) (round : Round) :
    Except Halt (ValetSession servers replicas) := do
  let row ← index (replicas + 1) round.replicaIndex
  let swapspace ← index swapspaceSizeG round.clientEvictRbIndex
  let rbh := s.rbh oldCb
  let marked := (List.finRange maxMrSizeGb).find? rbh.migRbIdx
  return s.modifySendBuf newCb fun msg =>
    { type := .reqMigMap
      sizeGb := round.clientEvictRbIndex
      rbIndex := s.mappingSwapspaceToRb row swapspace
      cbIndex := round.srcCbIndex
      replicaIndex := round.replicaIndex
      rkey := fun i => match marked with
        | none => 0
        | some m =>
            if i < m then 0
            else if i = m then (rbh.remoteBlock m).remoteRkey
            else msg.rkey i
      buf := match marked with
        | none => msg.buf
        | some m => Function.update msg.buf m (rbh.remoteBlock m).remoteAddr }

/-- The wait of `valet_migration_block_map`, and the destination as it is found then. -/
def readSlot (newCb : Fin servers) : Except Halt Dest :=
  if (s.cbList newCb).state ≠ .recvMigMap then
    .error .spin
  else
    .ok (s.rbh newCb).dest

/-- The tables point to the new block once `DONE_MIGRATION` is there. -/
def remap (oldCb newCb : Fin servers) (round : Round) (dest : Dest) :
    Except Halt (ValetSession servers replicas) :=
  if (s.rbh oldCb).cState ≠ .migrationDone then
    .error .spin
  else do
    let swapspace ← index swapspaceSizeG round.clientEvictRbIndex
    return ((s.setCbIndex 0 swapspace dest.cbIndex).setRb 0 swapspace dest.rbIndex).modifyRbh newCb
      fun rbh => { rbh with cState := .ready }

/-- The `memcpy` of the bitmap. -/
def copyBitmap (oldCb newCb : Fin servers) (round : Round) (dest : Dest) :
    Except Halt (ValetSession servers replicas) := do
  let destRb ← index maxMrSizeGb dest.rbIndex
  let srcRb ← index maxMrSizeGb round.srcRbIndex
  match ((s.rbh newCb).remoteBlock destRb).bitmapG, ((s.rbh oldCb).remoteBlock srcRb).bitmapG with
  | some _, some bitmap =>
      return s.modifyRbh newCb fun rbh => rbh.withBitmap destRb bitmap
  | _, _ => .error .oops

/-- `DELETE_RB` is posted for the marked blocks. -/
def sendDeleteRb (oldCb : Fin servers) : ValetSession servers replicas :=
  let rbh := s.rbh oldCb
  s.modifySendBuf oldCb fun msg =>
    { msg with type := .deleteRb, rkey := fun i => if rbh.migRbIdx i then 1 else 0 }

/-- The end of a round once `DELETE_RB` is sent; without a destination the server stays
`CB_MIGRATING`. -/
def cleanRound (oldCb : Fin servers) (newCb : Option (Fin servers)) (round : Round) :
    Except Halt (ValetSession servers replicas) :=
  if (s.rbh oldCb).cState ≠ .deleteRb then
    .error .spin
  else do
    let s ← s.resetMigrationInfo oldCb newCb round.replicaIndex round.clientEvictRbIndex
    let src ← index servers round.srcCbIndex
    let s := if newCb.isSome then s.setCbState src .mapped else s
    let swapspace ← index swapspaceSizeG round.clientEvictRbIndex
    s.setRbState oldCb swapspace .inactive

@[simp] theorem rbh_modifySendBuf (cb other : Fin servers) (change : Message → Message) :
    (s.modifySendBuf cb change).rbh other = s.rbh other := by
  by_cases same : other = cb
  · subst same
    simp [rbh, modifySendBuf, setCb]
  · simp [rbh, modifySendBuf, setCb, same]

@[simp] theorem rbh_queried (cb other : Fin servers) : (s.queried cb).rbh other = s.rbh other := by
  unfold queried
  split <;> simp

/-- A server that is in use keeps its state when it is asked. -/
theorem cbStateList_queried {cb : Fin servers} (used : s.cbStateList cb ≠ .idle) :
    (s.queried cb).cbStateList = s.cbStateList := by
  unfold queried
  dsimp only
  rw [if_neg used]
  rfl

@[simp] theorem rbh_sendDeleteRb (cb other : Fin servers) :
    (s.sendDeleteRb cb).rbh other = s.rbh other := by
  unfold sendDeleteRb
  exact rbh_modifySendBuf s cb other _

@[simp] theorem rbh_foldl_queried (cbs : List (Fin servers)) (other : Fin servers) :
    (cbs.foldl queried s).rbh other = s.rbh other := by
  induction cbs generalizing s with
  | nil => rfl
  | cons first rest ih => rw [List.foldl_cons, ih, rbh_queried]

@[simp] theorem rbh_requestMrMap (cb other : Fin servers) (row : Fin (replicas + 1))
    (selectIdx : Swapspace) : (s.requestMrMap cb row selectIdx).rbh other = s.rbh other := by
  unfold requestMrMap
  rw [rbh_modifySendBuf]
  rfl

variable {s} {next : ValetSession servers replicas} {oldCb newCb : Fin servers}

/-- What taking up an `EVICT` does. -/
inductive TakesEvict (s : ValetSession servers replicas) (oldCb : Fin servers) :
    Round → ValetSession servers replicas → Prop where
  | taken {src : Fin servers} {swapspace : Swapspace} {rb : Block}
      (evict : (s.rbh oldCb).cState = .evict)
      (isSrc : (s.rbh oldCb).srcCbIndex = src.val)
      (isSwapspace : (s.rbh oldCb).clientSwapspaceIndex = swapspace.val)
      (isRb : s.mappingSwapspaceToRb 0 swapspace = rb.val) :
      TakesEvict s oldCb (s.rbh oldCb).round
        ((s.setCbState src .migrating).modifyRbh oldCb fun rbh => rbh.withRbState rb .readonly)

theorem takesEvict_of_ok {round : Round} (ran : s.takeEvict oldCb = .ok (round, next)) :
    TakesEvict s oldCb round next := by
  unfold takeEvict at ran
  split at ran
  · cases ran
  · rename_i evict
    obtain ⟨src, isSrc, rest⟩ := bind_eq_ok.mp ran
    obtain ⟨swapspace, isSwapspace, more⟩ := bind_eq_ok.mp rest
    obtain ⟨middle, stopped, last⟩ := bind_eq_ok.mp more
    cases last
    obtain ⟨rb, isRb, rfl⟩ := setRbState_ok stopped
    exact .taken (not_not.mp evict) (index_eq_ok.mp isSrc) (index_eq_ok.mp isSwapspace) isRb

theorem requestMigMap_ok {round : Round}
    (ran : s.requestMigMap oldCb newCb round = .ok next) :
    ∃ change, next = s.modifySendBuf newCb change := by
  obtain ⟨row, _, rest⟩ := bind_eq_ok.mp ran
  obtain ⟨swapspace, _, last⟩ := bind_eq_ok.mp rest
  cases last
  exact ⟨_, rfl⟩

theorem readSlot_ok {dest : Dest} (ran : s.readSlot newCb = .ok dest) :
    (s.cbList newCb).state = .recvMigMap ∧ dest = (s.rbh newCb).dest := by
  unfold readSlot at ran
  split at ran
  · cases ran
  · rename_i arrived
    cases ran
    exact ⟨not_not.mp arrived, rfl⟩

/-- What the update of the tables does. -/
inductive Remaps (s : ValetSession servers replicas) (oldCb newCb : Fin servers) (round : Round)
    (dest : Dest) : ValetSession servers replicas → Prop where
  | moved {swapspace : Swapspace} (done : (s.rbh oldCb).cState = .migrationDone)
      (isSwapspace : round.clientEvictRbIndex = swapspace.val) :
      Remaps s oldCb newCb round dest
        (((s.setCbIndex 0 swapspace dest.cbIndex).setRb 0 swapspace dest.rbIndex).modifyRbh newCb
          fun rbh => { rbh with cState := .ready })

theorem remaps_of_ok {round : Round} {dest : Dest}
    (ran : s.remap oldCb newCb round dest = .ok next) : Remaps s oldCb newCb round dest next := by
  unfold remap at ran
  split at ran
  · cases ran
  · rename_i done
    obtain ⟨swapspace, isSwapspace, last⟩ := bind_eq_ok.mp ran
    cases last
    exact .moved (not_not.mp done) (index_eq_ok.mp isSwapspace)

/-- What the copy of the bitmap does. -/
inductive Copies (s : ValetSession servers replicas) (oldCb newCb : Fin servers) (round : Round)
    (dest : Dest) : ValetSession servers replicas → Prop where
  | copied {destRb srcRb : Block} {bitmap : Nat → Bool} (isDest : dest.rbIndex = destRb.val)
      (isSrc : round.srcRbIndex = srcRb.val)
      (source : ((s.rbh oldCb).remoteBlock srcRb).bitmapG = some bitmap) :
      Copies s oldCb newCb round dest
        (s.modifyRbh newCb fun rbh => rbh.withBitmap destRb bitmap)

theorem copies_of_ok {round : Round} {dest : Dest}
    (ran : s.copyBitmap oldCb newCb round dest = .ok next) :
    Copies s oldCb newCb round dest next := by
  obtain ⟨destRb, isDest, rest⟩ := bind_eq_ok.mp ran
  obtain ⟨srcRb, isSrc, last⟩ := bind_eq_ok.mp rest
  split at last
  · rename_i source
    cases last
    exact .copied (index_eq_ok.mp isDest) (index_eq_ok.mp isSrc) source
  · cases last

/-- What the end of a round does. -/
inductive Cleans (s : ValetSession servers replicas) (oldCb : Fin servers)
    (newCb : Option (Fin servers)) (round : Round) : ValetSession servers replicas → Prop where
  | cleaned {middle : ValetSession servers replicas} {src : Fin servers} {swapspace : Swapspace}
      {rb : Block} (deleted : (s.rbh oldCb).cState = .deleteRb)
      (resets : Resets s oldCb newCb round.replicaIndex round.clientEvictRbIndex middle)
      (isSrc : round.srcCbIndex = src.val)
      (isSwapspace : round.clientEvictRbIndex = swapspace.val)
      (isRb : middle.mappingSwapspaceToRb 0 swapspace = rb.val) :
      Cleans s oldCb newCb round
        ((if newCb.isSome then middle.setCbState src .mapped else middle).modifyRbh oldCb
          fun rbh => rbh.withRbState rb .inactive)

theorem cleans_of_ok {newCb : Option (Fin servers)} {round : Round}
    (ran : s.cleanRound oldCb newCb round = .ok next) : Cleans s oldCb newCb round next := by
  unfold cleanRound at ran
  split at ran
  · cases ran
  · rename_i deleted
    obtain ⟨middle, reset, rest⟩ := bind_eq_ok.mp ran
    obtain ⟨src, isSrc, more⟩ := bind_eq_ok.mp rest
    obtain ⟨swapspace, isSwapspace, last⟩ := bind_eq_ok.mp more
    obtain ⟨rb, isRb, rfl⟩ := setRbState_ok last
    have same : (if newCb.isSome then middle.setCbState src .mapped
        else middle).mappingSwapspaceToRb = middle.mappingSwapspaceToRb := by
      split <;> rfl
    rw [same] at isRb
    exact .cleaned (not_not.mp deleted) (resets_of_ok reset) (index_eq_ok.mp isSrc)
      (index_eq_ok.mp isSwapspace) isRb

end ValetSession

end Valet.Bd
