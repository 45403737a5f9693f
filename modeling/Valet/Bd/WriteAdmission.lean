import Valet.Bd.Aliasing

/-!
# Which blocks take writes

`rdma_write` puts the items of a swapspace back when its block in row 0 is not
`ACTIVE`.  `set_rb_state` looks the number of the block up in row 0 at the time
of the call and takes it for a block of the evicting server: after a remap it is
the number of the destination, and for another row it never was the block.  In
the runs in which the number hits no block that another swapspace uses, and in
which a round leaves its swapspace unmapped or with an `ACTIVE` block, and in no
others, every swapspace out of a round takes writes.
-/

namespace Valet.Bd

open Valet.Wire Valet.Library

variable {servers replicas : Nat}

namespace ValetSession

variable {s middle next : ValetSession servers replicas} {cb other : Fin servers}
  {swapspace : Swapspace}

/-- The rows lead where they did, and the blocks are the same. -/
structure SameBlocks (s next : ValetSession servers replicas) : Prop where
  servers : next.cbIndexMap = s.cbIndexMap
  blocks : next.mappingSwapspaceToRb = s.mappingSwapspaceToRb
  remote : ∀ cb, (next.rbh cb).remoteBlock = (s.rbh cb).remoteBlock
  on : s.rdmaOn = true → next.rdmaOn = true

theorem SameBlocks.refl : SameBlocks s s := ⟨rfl, rfl, fun _ => rfl, id⟩

theorem SameBlocks.trans (first : SameBlocks s middle) (second : SameBlocks middle next) :
    SameBlocks s next :=
  ⟨second.servers.trans first.servers, second.blocks.trans first.blocks,
    fun cb => (second.remote cb).trans (first.remote cb), fun on => second.on (first.on on)⟩

theorem sameBlocks_modifyRbh {change : RemoteBlockHandler → RemoteBlockHandler}
    (keeps : (change (s.rbh cb)).remoteBlock = (s.rbh cb).remoteBlock) :
    SameBlocks s (s.modifyRbh cb change) := by
  refine ⟨rfl, rfl, fun other => ?_, id⟩
  rcases eq_or_ne other cb with rfl | different
  · rw [rbh_modifyRbh, keeps]
  · rw [rbh_modifyRbh_of_ne _ different]

theorem sameBlocks_setState {state : TestState} : SameBlocks s (s.setState cb state) :=
  ⟨rfl, rfl, fun _ => by rw [rbh_setState], id⟩

theorem sameBlocks_setCbState {state : CbState} : SameBlocks s (s.setCbState cb state) :=
  ⟨rfl, rfl, fun _ => rfl, id⟩

theorem sameBlocks_modifySendBuf {change : Message → Message} :
    SameBlocks s (s.modifySendBuf cb change) :=
  ⟨rfl, rfl, fun _ => by rw [rbh_modifySendBuf], id⟩

theorem sameBlocks_queried : SameBlocks s (s.queried cb) := by
  unfold queried
  dsimp only
  split
  · exact sameBlocks_setCbState.trans sameBlocks_setState
  · exact sameBlocks_modifySendBuf.trans sameBlocks_setState

theorem sameBlocks_foldl_queried (cbs : List (Fin servers)) :
    SameBlocks s (cbs.foldl queried s) := by
  induction cbs generalizing s with
  | nil => exact .refl
  | cons first rest ih => exact sameBlocks_queried.trans ih

theorem sameBlocks_requestMrMap {row : Fin (replicas + 1)} {selectIdx : Swapspace} :
    SameBlocks s (s.requestMrMap cb row selectIdx) :=
  ⟨rfl, rfl, fun _ => by rw [rbh_requestMrMap], id⟩

theorem sameBlocks_sendDone : SameBlocks s (s.sendDone cb) := by
  unfold sendDone
  split
  · exact .refl
  · split
    · exact sameBlocks_setState
    · split
      · exact sameBlocks_modifyRbh rfl
      · exact .refl

theorem sameBlocks_sendDeleteRb : SameBlocks s (s.sendDeleteRb cb) := by
  unfold sendDeleteRb
  exact sameBlocks_modifySendBuf

theorem sameBlocks_clearNew {newCb : Option (Fin servers)} : SameBlocks s (s.clearNew newCb) := by
  cases newCb with
  | none => exact .refl
  | some newCb =>
      unfold clearNew
      exact sameBlocks_modifyRbh rfl

theorem sameBlocks_query {qmsg : QueryMessage} : SameBlocks s
    ((s.modifyRbh cb fun rbh => { rbh with targetSizeGb := qmsg.sizeGb, sum := qmsg.sum }).setState
      cb .recvQueryRepl) := by
  refine SameBlocks.trans ?_ sameBlocks_setState
  exact sameBlocks_modifyRbh rfl

theorem sameBlocks_evict {msg : Message} : SameBlocks s ((s.setState cb .recvEvict).modifyRbh cb
    fun rbh => { rbh.evictHandlerPrep msg with cState := .evict }) := by
  have arrived : SameBlocks s (s.setState cb .recvEvict) := sameBlocks_setState
  refine arrived.trans ?_
  exact sameBlocks_modifyRbh rfl

theorem sameBlocks_done : SameBlocks s ((s.setState cb .recvMigrationDone).modifyRbh cb
    fun rbh => { rbh with cState := .migrationDone }) := by
  have arrived : SameBlocks s (s.setState cb .recvMigrationDone) := sameBlocks_setState
  refine arrived.trans ?_
  exact sameBlocks_modifyRbh rfl

/-- The changes that a handler for `RESP_MR_MAP` makes before it looks at the keys. -/
theorem sameBlocks_mrMap : SameBlocks s ((s.setCbState cb .mapped).setState cb .recvMrMap) :=
  sameBlocks_setCbState.trans sameBlocks_setState

def rbState (s : ValetSession servers replicas) (cb : Fin servers) (rb : Block) :
    RemoteBlockState :=
  ((s.rbh cb).remoteBlock rb).rbState

/-- The check of `rdma_write` once `get_cb` has answered: the items go back on the sending
list. -/
def putsBack (s : ValetSession servers replicas) (swapspace : Swapspace) : Except Halt Bool := do
  let cb ← index servers (s.cbIndexMap 0 swapspace)
  let rb ← index maxMrSizeGb (s.mappingSwapspaceToRb 0 swapspace)
  return (s.rbState cb rb).code ≥ RemoteBlockState.readonly.code

/-- If the swapspace is mapped, `rdma_write` takes its items. -/
def Admits (s : ValetSession servers replicas) (swapspace : Swapspace) : Prop :=
  s.cbIndexMap 0 swapspace ≠ noCbMapped → s.putsBack swapspace = .ok false

theorem active_iff (state : RemoteBlockState) :
    ¬ state.code ≥ RemoteBlockState.readonly.code ↔ state = .active := by
  cases state <;> decide

theorem putsBack_eq_false : s.putsBack swapspace = .ok false ↔
    ∃ cb rb, s.Leads 0 swapspace cb rb ∧ s.rbState cb rb = .active := by
  constructor
  · intro found
    obtain ⟨cb, isCb, rest⟩ := bind_eq_ok.mp found
    obtain ⟨rb, isRb, last⟩ := bind_eq_ok.mp rest
    refine ⟨cb, rb, ⟨index_eq_ok.mp isCb, index_eq_ok.mp isRb⟩, (active_iff _).mp ?_⟩
    exact of_decide_eq_false (Except.ok.inj last)
  · rintro ⟨cb, rb, ⟨isCb, isRb⟩, active⟩
    refine bind_eq_ok.mpr ⟨cb, index_eq_ok.mpr isCb, ?_⟩
    refine bind_eq_ok.mpr ⟨rb, index_eq_ok.mpr isRb, ?_⟩
    exact congrArg Except.ok (decide_eq_false ((active_iff _).mpr active))

theorem Leads.mapped {row : Fin (replicas + 1)} {rb : Block}
    (leads : s.Leads row swapspace cb rb) : s.cbIndexMap row swapspace ≠ noCbMapped := by
  rw [leads.1, noCbMapped]
  omega

theorem Leads.unique {row : Fin (replicas + 1)} {rb rb' : Block}
    (leads : s.Leads row swapspace cb rb) (again : s.Leads row swapspace other rb') :
    cb = other ∧ rb = rb' :=
  ⟨Fin.ext (Int.ofNat.inj (leads.1.symm.trans again.1)),
    Fin.ext (Int.ofNat.inj (leads.2.symm.trans again.2))⟩

/-- What admission depends on. -/
structure SameAdmission (s next : ValetSession servers replicas) (swapspace : Swapspace) :
    Prop where
  server : next.cbIndexMap 0 swapspace = s.cbIndexMap 0 swapspace
  block : next.mappingSwapspaceToRb 0 swapspace = s.mappingSwapspaceToRb 0 swapspace
  state : ∀ cb rb, s.Leads 0 swapspace cb rb → s.rbState cb rb = .active →
    next.rbState cb rb = .active

theorem Admits.same (admits : s.Admits swapspace) (same : SameAdmission s next swapspace) :
    next.Admits swapspace := by
  intro mapped
  rw [same.server] at mapped
  obtain ⟨cb, rb, leads, active⟩ := putsBack_eq_false.mp (admits mapped)
  refine putsBack_eq_false.mpr ⟨cb, rb, ?_, same.state cb rb leads active⟩
  rw [Leads, same.server, same.block]
  exact leads

/-- The states of the blocks and row 0 stay. -/
structure KeepsAdmission (s next : ValetSession servers replicas) : Prop where
  servers : next.cbIndexMap 0 = s.cbIndexMap 0
  blocks : next.mappingSwapspaceToRb 0 = s.mappingSwapspaceToRb 0
  states : ∀ cb rb, next.rbState cb rb = s.rbState cb rb

theorem KeepsAdmission.refl : KeepsAdmission s s := ⟨rfl, rfl, fun _ _ => rfl⟩

theorem KeepsAdmission.same (keeps : KeepsAdmission s next) : SameAdmission s next swapspace where
  server := congrFun keeps.servers swapspace
  block := congrFun keeps.blocks swapspace
  state := fun cb rb _ active => (keeps.states cb rb).trans active

theorem KeepsAdmission.leads {rb : Block} (keeps : KeepsAdmission s next) :
    next.Leads 0 swapspace cb rb ↔ s.Leads 0 swapspace cb rb := by
  rw [Leads, Leads, keeps.servers, keeps.blocks]

theorem SameBlocks.keepsAdmission (same : SameBlocks s next) : KeepsAdmission s next :=
  ⟨congrFun same.servers 0, congrFun same.blocks 0,
    fun cb rb => by rw [rbState, rbState, same.remote]⟩

theorem SameBlocks.admits (same : SameBlocks s next) (admits : s.Admits swapspace) :
    next.Admits swapspace :=
  admits.same same.keepsAdmission.same

/-- A change that keeps the states of the blocks. -/
theorem keepsAdmission_modifyRbh {change : RemoteBlockHandler → RemoteBlockHandler}
    (keeps : ∀ rb, ((change (s.rbh cb)).remoteBlock rb).rbState =
      ((s.rbh cb).remoteBlock rb).rbState) : KeepsAdmission s (s.modifyRbh cb change) := by
  refine ⟨rfl, rfl, fun other rb => ?_⟩
  rcases eq_or_ne other cb with rfl | different
  · rw [rbState, rbh_modifyRbh, keeps]
    rfl
  · rw [rbState, rbh_modifyRbh_of_ne _ different]
    rfl

theorem rbState_withRbState {rb : Block} {state : RemoteBlockState} :
    (s.modifyRbh cb fun rbh => rbh.withRbState rb state).rbState cb rb = state := by
  rw [rbState, rbh_modifyRbh]
  simp [RemoteBlockHandler.withRbState]

theorem rbState_withRbState_of_ne {rb at_ : Block} {state : RemoteBlockState}
    (different : ¬ (other = cb ∧ at_ = rb)) :
    (s.modifyRbh cb fun rbh => rbh.withRbState rb state).rbState other at_ =
      s.rbState other at_ := by
  rcases eq_or_ne other cb with rfl | elsewhere
  · have away : at_ ≠ rb := fun same => different ⟨rfl, same⟩
    rw [rbState, rbh_modifyRbh]
    simp [RemoteBlockHandler.withRbState, away, rbState]
  · rw [rbState, rbh_modifyRbh_of_ne _ elsewhere]
    rfl

/-! ## Messages and the pieces of a round -/

theorem sameAdmission_mapBlock {msg : Message} {i : Block} {row : Fin (replicas + 1)}
    {select : Swapspace} (others : row ≠ 0 ∨ swapspace ≠ select) :
    SameAdmission s (((s.modifyRbh cb fun rbh => rbh.mapBlock msg i).setRb row select
      i.val).setCbIndex row select cb.val) swapspace where
  server := by
    rcases others with otherRow | different
    · simp [setCbIndex, setRb, modifyRbh, setCb, otherRow.symm]
    · rcases eq_or_ne row 0 with rfl | otherRow
      · simp [setCbIndex, setRb, modifyRbh, setCb, different]
      · simp [setCbIndex, setRb, modifyRbh, setCb, otherRow.symm]
  block := by
    rcases others with otherRow | different
    · simp [setCbIndex, setRb, modifyRbh, setCb, otherRow.symm]
    · rcases eq_or_ne row 0 with rfl | otherRow
      · simp [setCbIndex, setRb, modifyRbh, setCb, different]
      · simp [setCbIndex, setRb, modifyRbh, setCb, otherRow.symm]
  state := by
    intro at_ rb _ active
    rw [rbState, rbh_setCbIndex, rbh_setRb]
    rcases eq_or_ne at_ cb with rfl | elsewhere
    · rw [rbh_modifyRbh]
      rcases eq_or_ne rb i with rfl | different
      · simp [RemoteBlockHandler.mapBlock]
      · simp [RemoteBlockHandler.mapBlock, different]
        exact active
    · rw [rbh_modifyRbh_of_ne _ elsewhere]
      exact active

/-- A new mapping is `ACTIVE`. -/
theorem admits_mapBlock {msg : Message} {i : Block} {select : Swapspace} :
    (((s.modifyRbh cb fun rbh => rbh.mapBlock msg i).setRb 0 select i.val).setCbIndex 0 select
      cb.val).Admits select := by
  intro _
  refine putsBack_eq_false.mpr ⟨cb, i, ?_, ?_⟩
  · simp [Leads, setCbIndex, setRb]
  · rw [rbState, rbh_setCbIndex, rbh_setRb, rbh_modifyRbh]
    simp [RemoteBlockHandler.mapBlock]

/-- A message leaves no swapspace with a block that is not `ACTIVE`. -/
theorem Receives.admits {recv : Received} (receives : Receives s cb recv next)
    (admits : s.Admits swapspace) : next.Admits swapspace := by
  cases receives with
  | ignored => exact admits
  | refused => exact sameBlocks_setState.admits admits
  | query => exact sameBlocks_query.admits admits
  | @migMap msg alive type =>
      have answered : (s.setState cb .recvMigMap).Admits swapspace :=
        sameBlocks_setState.admits admits
      refine answered.same (keepsAdmission_modifyRbh fun rb => ?_).same
      -- a destination keeps the state that its block had
      unfold RemoteBlockHandler.valetMigrationBlockInit
      dsimp only
      split
      · rfl
      · rfl
  | @mrMap msg next alive type inits =>
      have before : ((s.setCbState cb .mapped).setState cb .recvMrMap).Admits swapspace :=
        sameBlocks_mrMap.admits admits
      cases inits with
      | nothing => exact before
      | @mapped i row select first isRow isSelect =>
          by_cases others : row ≠ 0 ∨ swapspace ≠ select
          · exact before.same (sameAdmission_mapBlock others)
          · obtain ⟨rfl, rfl⟩ : row = 0 ∧ swapspace = select := by
              simpa [not_or] using others
            exact admits_mapBlock
  | done => exact sameBlocks_done.admits admits
  | evict => exact sameBlocks_evict.admits admits

variable {oldCb newCb : Fin servers} {round : Round} {dest : Dest}

theorem Remaps.sameAdmission (remaps : Remaps s oldCb newCb round dest next)
    (different : round.clientEvictRbIndex ≠ swapspace.val) : SameAdmission s next swapspace := by
  cases remaps with
  | @moved evicted done isSwapspace =>
      have away : swapspace ≠ evicted := by
        rintro rfl
        exact different isSwapspace
      have table : SameAdmission s ((s.setCbIndex 0 evicted dest.cbIndex).setRb 0 evicted
          dest.rbIndex) swapspace :=
        ⟨by simp [setRb, setCbIndex, away], by simp [setRb, setCbIndex, away],
          fun _ _ _ active => active⟩
      have ready : KeepsAdmission ((s.setCbIndex 0 evicted dest.cbIndex).setRb 0 evicted
          dest.rbIndex) (((s.setCbIndex 0 evicted dest.cbIndex).setRb 0 evicted
            dest.rbIndex).modifyRbh newCb fun rbh => { rbh with cState := .ready }) :=
        keepsAdmission_modifyRbh fun _ => rfl
      refine ⟨ready.same.server.trans table.server, ready.same.block.trans table.block, ?_⟩
      intro cb rb _ active
      exact (ready.states cb rb).trans active

theorem Copies.keepsAdmission (copies : Copies s oldCb newCb round dest next) :
    KeepsAdmission s next := by
  cases copies with
  | @copied destRb srcRb bitmap isDest isSrc source =>
      refine keepsAdmission_modifyRbh fun rb => ?_
      rcases eq_or_ne rb destRb with rfl | different
      · simp [RemoteBlockHandler.withBitmap]
      · simp [RemoteBlockHandler.withBitmap, different]

theorem keepsAdmission_clearMarked :
    KeepsAdmission s (s.modifyRbh cb RemoteBlockHandler.clearMarked) := by
  refine keepsAdmission_modifyRbh fun rb => ?_
  unfold RemoteBlockHandler.clearMarked
  dsimp only
  split
  · rfl
  · rfl

/-- `reset_migration_info` changes no state and unmaps at most its swapspace. -/
structure ClearsRow (s : ValetSession servers replicas) (oldCb : Fin servers) (round : Round)
    (next : ValetSession servers replicas) : Prop where
  blocks : next.mappingSwapspaceToRb 0 = s.mappingSwapspaceToRb 0
  states : ∀ cb rb, next.rbState cb rb = s.rbState cb rb
  others : ∀ swapspace : Swapspace, round.clientEvictRbIndex ≠ swapspace.val →
    next.cbIndexMap 0 swapspace = s.cbIndexMap 0 swapspace
  cleared : ∀ swapspace : Swapspace, round.clientEvictRbIndex = swapspace.val →
    round.replicaIndex = 0 → (∃ i, (s.rbh oldCb).migRbIdx i = true) →
      next.cbIndexMap 0 swapspace = noCbMapped
  kept : ∀ swapspace : Swapspace, next.cbIndexMap 0 swapspace = s.cbIndexMap 0 swapspace ∨
    (round.replicaIndex = 0 ∧ (∃ i, (s.rbh oldCb).migRbIdx i = true) ∧
      next.cbIndexMap 0 swapspace = noCbMapped)

theorem Resets.clearsRow {newCb : Option (Fin servers)}
    (resets : Resets s oldCb newCb round.replicaIndex round.clientEvictRbIndex next) :
    ClearsRow s oldCb round next := by
  cases resets with
  | unmarked clear =>
      have keeps : KeepsAdmission s (s.clearNew newCb) := sameBlocks_clearNew.keepsAdmission
      refine ⟨keeps.blocks, keeps.states, fun swapspace _ => congrFun keeps.servers swapspace, ?_,
        fun swapspace => Or.inl (congrFun keeps.servers swapspace)⟩
      rintro swapspace _ _ ⟨i, marked⟩
      rw [clear i] at marked
      cases marked
  | @cleared i row evicted marked isRow isSwapspace =>
      have clears : KeepsAdmission s (s.modifyRbh oldCb RemoteBlockHandler.clearMarked) :=
        keepsAdmission_clearMarked
      have unmarks : KeepsAdmission ((s.modifyRbh oldCb RemoteBlockHandler.clearMarked).setCbIndex
          row evicted noCbMapped) (((s.modifyRbh oldCb
            RemoteBlockHandler.clearMarked).setCbIndex row evicted noCbMapped).clearNew newCb) :=
        sameBlocks_clearNew.keepsAdmission
      have entry (swapspace : Swapspace) : (((s.modifyRbh oldCb
          RemoteBlockHandler.clearMarked).setCbIndex row evicted noCbMapped).clearNew
            newCb).cbIndexMap 0 swapspace =
          if row = 0 ∧ swapspace = evicted then noCbMapped else s.cbIndexMap 0 swapspace := by
        rw [unmarks.servers]
        rcases eq_or_ne row 0 with rfl | otherRow
        · rcases eq_or_ne swapspace evicted with rfl | different
          · simp [setCbIndex]
          · simp [setCbIndex, different, modifyRbh, setCb]
        · simp [setCbIndex, otherRow, otherRow.symm, modifyRbh, setCb]
      refine ⟨unmarks.blocks.trans clears.blocks,
        fun cb rb => (unmarks.states cb rb).trans (clears.states cb rb), ?_, ?_, ?_⟩
      · intro swapspace different
        rw [entry, if_neg]
        rintro ⟨_, rfl⟩
        exact different isSwapspace
      · intro swapspace named isPrimary _
        have here : row = 0 := Fin.ext (by
          rw [isRow] at isPrimary
          exact Int.ofNat.inj isPrimary)
        have same : swapspace = evicted := Fin.ext (Int.ofNat.inj (named.symm.trans isSwapspace))
        rw [entry, if_pos ⟨here, same⟩]
      · intro swapspace
        rw [entry]
        split
        · rename_i hit
          right
          refine ⟨?_, ⟨i, marked⟩, rfl⟩
          rw [isRow, hit.1]
          rfl
        · exact Or.inl rfl

/-- What the end of a round does to row 0 and to the states. -/
theorem Cleans.ends {newCb : Option (Fin servers)} (cleans : Cleans s oldCb newCb round next) :
    ∃ (middle : ValetSession servers replicas) (swapspace : Swapspace) (rb : Block),
      ClearsRow s oldCb round middle ∧ round.clientEvictRbIndex = swapspace.val ∧
        s.mappingSwapspaceToRb 0 swapspace = rb.val ∧
          KeepsAdmission (middle.modifyRbh oldCb fun rbh => rbh.withRbState rb .inactive) next := by
  cases cleans with
  | @cleaned middle src swapspace rb deleted resets isSrc isSwapspace isRb =>
      have clears := resets.clearsRow
      refine ⟨middle, swapspace, rb, clears, isSwapspace, ?_, ?_⟩
      · rw [← clears.blocks]
        exact isRb
      · cases newCb with
        | none => exact .refl
        | some newCb => exact ⟨rfl, rfl, fun _ _ => rfl⟩

end ValetSession

/-- The swapspace whose block the handler evicts. -/
def HandlerPc.evicting (pc : HandlerPc servers) : Option Int :=
  pc.round.map Round.clientEvictRbIndex

namespace Control

open ValetSession

/-- A migration round of the swapspace is in progress. -/
def InRound (m : Control servers replicas) (swapspace : Swapspace) : Prop :=
  ∃ cb, (m.handler cb).evicting = some (swapspace.val : Int)

/-- A mapped swapspace that is in no round takes writes. -/
def AdmitsWrites (m : Control servers replicas) : Prop :=
  ∀ swapspace, ¬ m.InRound swapspace → m.session.Admits swapspace

/-- The block that `set_rb_state` finds on the server is that of no other swapspace, unless that one
is in a round itself. -/
def HitsOwn (m : Control servers replicas) (cb : Fin servers) (evicted : Int) : Prop :=
  ∀ swapspace : Swapspace, evicted = swapspace.val → ∀ rb : Block,
    m.session.mappingSwapspaceToRb 0 swapspace = rb.val → ∀ other, other ≠ swapspace →
      m.session.Leads 0 other cb rb → m.InRound other

/-- The round is the last one of its swapspace, and this one is mapped in row 0, is not unmapped by
the round, and has no `ACTIVE` block on another server. -/
def LeavesStopped (m : Control servers replicas) (cb : Fin servers) (round : Round) : Prop :=
  ∃ swapspace : Swapspace, round.clientEvictRbIndex = swapspace.val ∧
    (∀ other, other ≠ cb → (m.handler other).evicting ≠ some (swapspace.val : Int)) ∧
      m.session.cbIndexMap 0 swapspace ≠ noCbMapped ∧
        ¬ (round.replicaIndex = 0 ∧ ∃ i, (m.session.rbh cb).migRbIdx i = true) ∧
          ∀ other rb, other ≠ cb → m.session.Leads 0 swapspace other rb →
            m.session.rbState other rb ≠ .active

/-- The condition under which no block is left without writes. -/
def Apart (m : Control servers replicas) : ControlLabel servers replicas → Prop
  | .takeEvict cb => m.HitsOwn cb (m.session.rbh cb).clientSwapspaceIndex
  | .clean cb =>
      match m.handler cb with
      | .waitDelete round _ => m.HitsOwn cb round.clientEvictRbIndex ∧ ¬ m.LeavesStopped cb round
      | _ => True
  | _ => True

variable {m next : Control servers replicas} {cb : Fin servers} {swapspace : Swapspace}
  {session : ValetSession servers replicas} {pc : HandlerPc servers}

theorem sameBlocks_mapRow {selectIdx : Swapspace} {replicaList : Fin (replicas + 1) → Fin servers}
    {row : Fin (replicas + 1)} :
    SameBlocks m.session (m.mapRow selectIdx replicaList row).session := by
  have on : SameBlocks m.session { m.session with rdmaOn := true } :=
    ⟨rfl, rfl, fun _ => rfl, fun _ => rfl⟩
  unfold mapRow
  dsimp only
  split
  · exact on.trans sameBlocks_requestMrMap
  · exact on

theorem AdmitsWrites.keeps (admits : m.AdmitsWrites) (rounds : next.handler = m.handler)
    (keeps : ∀ swapspace, m.session.Admits swapspace → next.session.Admits swapspace) :
    next.AdmitsWrites := by
  intro swapspace out
  refine keeps swapspace (admits swapspace ?_)
  rw [InRound, rounds] at out
  exact out

/-- The rounds of the other handlers go on. -/
theorem inRound_goOn_of_ne (different : (m.handler cb).evicting ≠ some (swapspace.val : Int))
    (inRound : m.InRound swapspace) : (m.goOn cb pc session).InRound swapspace := by
  obtain ⟨other, evicts⟩ := inRound
  have elsewhere : other ≠ cb := by
    rintro rfl
    exact different evicts
  exact ⟨other, by rw [handler_goOn_of_ne _ elsewhere]; exact evicts⟩

theorem inRound_goOn (same : pc.evicting = (m.handler cb).evicting) :
    (m.goOn cb pc session).InRound swapspace ↔ m.InRound swapspace := by
  constructor
  · rintro ⟨other, evicts⟩
    refine ⟨other, ?_⟩
    rcases eq_or_ne other cb with rfl | elsewhere
    · rw [handler_goOn, same] at evicts
      exact evicts
    · rw [handler_goOn_of_ne _ elsewhere] at evicts
      exact evicts
  · rintro ⟨other, evicts⟩
    refine ⟨other, ?_⟩
    rcases eq_or_ne other cb with rfl | elsewhere
    · rw [handler_goOn, same]
      exact evicts
    · rw [handler_goOn_of_ne _ elsewhere]
      exact evicts

/-- A handler goes on within its round. -/
theorem AdmitsWrites.goOn (admits : m.AdmitsWrites) (same : pc.evicting = (m.handler cb).evicting)
    (keeps : ∀ swapspace, ¬ m.InRound swapspace → m.session.Admits swapspace →
      session.Admits swapspace) : (m.goOn cb pc session).AdmitsWrites := by
  intro swapspace out
  have before : ¬ m.InRound swapspace := fun inRound => out ((inRound_goOn same).mpr inRound)
  exact keeps swapspace before (admits swapspace before)

theorem AdmitsWrites.takeEvict {round : Round} (admits : m.AdmitsWrites)
    (waits : m.handler cb = .waitEvict) (apart : m.Apart (.takeEvict cb))
    (takes : TakesEvict m.session cb round session) :
    (m.goOn cb (.findDest round) session).AdmitsWrites := by
  intro swapspace out
  have before : ¬ m.InRound swapspace := by
    intro inRound
    refine out (inRound_goOn_of_ne ?_ inRound)
    rw [waits]
    nofun
  cases takes with
  | @taken src evicted rb evict isSrc isSwapspace isRb =>
      have different : swapspace ≠ evicted := by
        rintro rfl
        refine out ⟨cb, ?_⟩
        rw [handler_goOn]
        exact congrArg some isSwapspace
      refine (admits swapspace before).same ⟨rfl, rfl, ?_⟩
      intro at_ at_rb leads active
      refine Eq.trans (rbState_withRbState_of_ne ?_) active
      rintro ⟨rfl, rfl⟩
      exact before (apart evicted isSwapspace _ isRb swapspace different leads)

theorem AdmitsWrites.clean {round : Round} {newCb : Option (Fin servers)} (admits : m.AdmitsWrites)
    (waits : m.handler cb = .waitDelete round newCb) (apart : m.Apart (.clean cb))
    (cleans : Cleans m.session cb newCb round session) :
    (m.goOn cb .waitEvict session).AdmitsWrites := by
  simp only [Apart, waits] at apart
  obtain ⟨hitsOwn, usable⟩ := apart
  obtain ⟨middle, evicted, rb, clears, isSwapspace, isRb, keeps⟩ := cleans.ends
  intro swapspace out mapped
  rcases eq_or_ne swapspace evicted with rfl | different
  · -- the swapspace of the round
    have alone : ∀ other, other ≠ cb →
        (m.handler other).evicting ≠ some (swapspace.val : Int) := by
      intro other elsewhere evicts
      exact out ⟨other, by rw [handler_goOn_of_ne _ elsewhere]; exact evicts⟩
    have row := clears.kept swapspace
    have now : session.cbIndexMap 0 swapspace = middle.cbIndexMap 0 swapspace :=
      congrFun keeps.servers swapspace
    rw [session_goOn, now] at mapped
    have kept := row.resolve_right fun bad => mapped bad.2.2
    have unmarked : ¬ (round.replicaIndex = 0 ∧ ∃ i, (m.session.rbh cb).migRbIdx i = true) :=
      fun bad => mapped (clears.cleared swapspace isSwapspace bad.1 bad.2)
    rw [kept] at mapped
    obtain ⟨other, found, elsewhere, leads, active⟩ : ∃ other found, other ≠ cb ∧
        m.session.Leads 0 swapspace other found ∧ m.session.rbState other found = .active := by
      by_contra stopped
      push Not at stopped
      exact usable ⟨swapspace, isSwapspace, alone, mapped, unmarked, stopped⟩
    refine putsBack_eq_false.mpr ⟨other, found, ?_, ?_⟩
    · rw [session_goOn, keeps.leads]
      exact ⟨kept.trans leads.1, (congrFun clears.blocks swapspace).trans leads.2⟩
    · rw [session_goOn, keeps.states, rbState_withRbState_of_ne fun both => elsewhere both.1,
        clears.states]
      exact active
  · -- another swapspace
    have named : round.clientEvictRbIndex ≠ swapspace.val := by
      rw [isSwapspace]
      exact fun same => different (Fin.ext (Int.ofNat.inj same).symm)
    have before : ¬ m.InRound swapspace := by
      intro inRound
      refine out (inRound_goOn_of_ne ?_ inRound)
      rw [waits]
      exact fun same => named (Option.some.inj same)
    refine (admits swapspace before).same ⟨?_, ?_, ?_⟩ mapped
    · exact (congrFun keeps.servers swapspace).trans (clears.others swapspace named)
    · exact (congrFun keeps.blocks swapspace).trans (congrFun clears.blocks swapspace)
    · intro at_ at_rb leads active
      rw [session_goOn, keeps.states, rbState_withRbState_of_ne, clears.states]
      · exact active
      · rintro ⟨rfl, rfl⟩
        exact before (hitsOwn evicted isSwapspace _ isRb swapspace different leads)

theorem AdmitsWrites.step {label : ControlLabel servers replicas} (admits : m.AdmitsWrites)
    (apart : m.Apart label) (edge : Control.step m label = some next) : next.AdmitsWrites := by
  cases moves_of_step edge with
  | ask => exact admits.keeps rfl fun _ => sameBlocks_queried.admits
  | getFinding | getMapped | noNodes => exact admits.keeps rfl fun _ => id
  | @chooseNodes selectIdx replicaList finding distinct =>
      refine admits.keeps rfl fun _ => SameBlocks.admits ?_
      exact (sameBlocks_foldl_queried _).trans sameBlocks_requestMrMap
  | @mapRow selectIdx replicaList row waiting arrived =>
      exact admits.keeps handler_mapRow fun _ => sameBlocks_mapRow.admits
  | recv receives => exact admits.keeps rfl fun _ before => receives.admits before
  | sendDone => exact admits.keeps rfl fun _ => sameBlocks_sendDone.admits
  | takeEvict waits takes => exact admits.takeEvict waits apart takes
  | noDest finding => exact admits.goOn (by rw [finding]; rfl) fun _ _ => id
  | chooseDest finding =>
      refine admits.goOn (by rw [finding]; rfl) fun _ _ => SameBlocks.admits ?_
      exact sameBlocks_queried.trans sameBlocks_modifySendBuf
  | readSlot waits => exact admits.goOn (by rw [waits]; rfl) fun _ _ => id
  | @remap cb newCb round dest session waits remaps =>
      refine admits.goOn (by rw [waits]; rfl) fun swapspace out before =>
        before.same (remaps.sameAdmission ?_)
      intro evicts
      exact out ⟨cb, by rw [waits]; exact congrArg some evicts⟩
  | copyBitmap remapped copies =>
      exact admits.goOn (by rw [remapped]; rfl) fun _ _ before =>
        before.same copies.keepsAdmission.same
  | @postDelete cb round newCb sends =>
      have sent : (m.goOn cb (.waitDelete round newCb) (m.session.sendDeleteRb cb)).AdmitsWrites :=
        admits.goOn (by rw [sends]; rfl) fun _ _ => sameBlocks_sendDeleteRb.admits
      exact sent
  | clean waits cleans => exact admits.clean waits apart cleans

/-- If the mapped swapspace takes writes, its block is not one that was just stopped. -/
theorem not_admits_of_stopped {s : ValetSession servers replicas} (cb : Fin servers) (rb : Block)
    (leads : s.Leads 0 swapspace cb rb) (stopped : s.rbState cb rb ≠ .active) :
    ¬ s.Admits swapspace := by
  intro admits
  obtain ⟨other, found, again, active⟩ := putsBack_eq_false.mp (admits leads.mapped)
  obtain ⟨rfl, rfl⟩ := leads.unique again
  exact stopped active

theorem hitsOwn_of_takeEvict {round : Round} (waits : m.handler cb = .waitEvict)
    (takes : TakesEvict m.session cb round session)
    (admits : (m.goOn cb (.findDest round) session).AdmitsWrites) :
    m.HitsOwn cb (m.session.rbh cb).clientSwapspaceIndex := by
  intro evicted isSwapspace rb isRb other different leads
  by_contra out
  refine not_admits_of_stopped cb rb ?_ ?_ (admits other ?_)
  · cases takes with
    | taken => exact leads
  · cases takes with
    | @taken src named found evict isSrc isNamed isFound =>
        have same : named = evicted := Fin.ext (Int.ofNat.inj (isNamed.symm.trans isSwapspace))
        subst same
        have here : found = rb := Fin.ext (Int.ofNat.inj (isFound.symm.trans isRb))
        subst here
        rw [session_goOn, rbState_withRbState]
        nofun
  · rintro ⟨at_, evicts⟩
    rcases eq_or_ne at_ cb with rfl | elsewhere
    · rw [handler_goOn] at evicts
      cases takes with
      | taken =>
          have named : (m.session.rbh at_).clientSwapspaceIndex = other.val :=
            Option.some.inj evicts
          rw [isSwapspace] at named
          exact different (Fin.ext (Int.ofNat.inj named).symm)
    · rw [handler_goOn_of_ne _ elsewhere] at evicts
      exact out ⟨at_, evicts⟩

theorem apart_of_clean {round : Round} {newCb : Option (Fin servers)}
    (waits : m.handler cb = .waitDelete round newCb)
    (cleans : Cleans m.session cb newCb round session)
    (admits : (m.goOn cb .waitEvict session).AdmitsWrites) : m.Apart (.clean cb) := by
  simp only [Apart, waits]
  obtain ⟨middle, evicted, rb, clears, isSwapspace, isRb, keeps⟩ := cleans.ends
  have stopped : session.rbState cb rb ≠ .active := by
    rw [keeps.states, rbState_withRbState]
    nofun
  constructor
  · intro named isNamed found isFound other different leads
    have same : named = evicted := Fin.ext (Int.ofNat.inj (isNamed.symm.trans isSwapspace))
    subst same
    have here : found = rb := Fin.ext (Int.ofNat.inj (isFound.symm.trans isRb))
    subst here
    have away : round.clientEvictRbIndex ≠ other.val := by
      rw [isSwapspace]
      exact fun same => different (Fin.ext (Int.ofNat.inj same).symm)
    by_contra out
    refine not_admits_of_stopped cb found ?_ stopped (admits other ?_)
    · rw [keeps.leads]
      exact ⟨(clears.others other away).trans leads.1,
        (congrFun clears.blocks other).trans leads.2⟩
    · rintro ⟨at_, evicts⟩
      rcases eq_or_ne at_ cb with rfl | elsewhere
      · rw [handler_goOn] at evicts
        cases evicts
      · rw [handler_goOn_of_ne _ elsewhere] at evicts
        exact out ⟨at_, evicts⟩
  · rintro ⟨named, isNamed, alone, mapped, unmarked, others⟩
    have same : named = evicted := Fin.ext (Int.ofNat.inj (isNamed.symm.trans isSwapspace))
    subst same
    have kept : middle.cbIndexMap 0 named = m.session.cbIndexMap 0 named :=
      (clears.kept named).resolve_right fun bad => unmarked ⟨bad.1, bad.2.1⟩
    have still : session.cbIndexMap 0 named = m.session.cbIndexMap 0 named :=
      (congrFun keeps.servers named).trans kept
    have out : ¬ (m.goOn cb .waitEvict session).InRound named := by
      rintro ⟨at_, evicts⟩
      rcases eq_or_ne at_ cb with rfl | elsewhere
      · rw [handler_goOn] at evicts
        cases evicts
      · rw [handler_goOn_of_ne _ elsewhere] at evicts
        exact alone at_ elsewhere evicts
    obtain ⟨other, found, leads, active⟩ :=
      putsBack_eq_false.mp (admits named out (by rw [session_goOn, still]; exact mapped))
    rw [session_goOn] at leads active
    have before : m.session.Leads 0 named other found :=
      ⟨still.symm.trans leads.1,
        ((congrFun keeps.blocks named).trans (congrFun clears.blocks named)).symm.trans leads.2⟩
    have here : found = rb := Fin.ext (Int.ofNat.inj (before.2.symm.trans isRb))
    subst here
    rcases eq_or_ne other cb with rfl | elsewhere
    · exact stopped active
    · refine others other found elsewhere before ?_
      rw [keeps.states, rbState_withRbState_of_ne fun both => elsewhere both.1,
        clears.states] at active
      exact active

theorem AdmitsWrites.apart {label : ControlLabel servers replicas}
    (edge : Control.step m label = some next) (admits : next.AdmitsWrites) : m.Apart label := by
  cases moves_of_step edge with
  | takeEvict waits takes => exact hitsOwn_of_takeEvict waits takes admits
  | clean waits cleans => exact apart_of_clean waits cleans admits
  | _ => trivial

/-- The end of a round changes the state of no block that another swapspace out of any round
uses. -/
def SparesOthers (m next : Control servers replicas) (cb : Fin servers) : Prop :=
  ∀ swapspace at_ rb, (m.handler cb).evicting ≠ some (swapspace.val : Int) →
    ¬ m.InRound swapspace → m.session.Leads 0 swapspace at_ rb →
      next.session.rbState at_ rb = m.session.rbState at_ rb

theorem AdmitsWrites.spares (admits : m.AdmitsWrites) (after : next.AdmitsWrites)
    (edge : Control.step m (.clean cb) = some next) : SparesOthers m next cb := by
  cases moves_of_step edge with
  | @clean _ round newCb session waits cleans =>
      obtain ⟨middle, evicted, rb, clears, isSwapspace, isRb, keeps⟩ := cleans.ends
      intro swapspace at_ found different out leads
      have named : round.clientEvictRbIndex ≠ swapspace.val := by
        rw [waits] at different
        exact fun same => different (congrArg some same)
      have still : session.Leads 0 swapspace at_ found := by
        rw [keeps.leads]
        exact ⟨(clears.others swapspace named).trans leads.1,
          (congrFun clears.blocks swapspace).trans leads.2⟩
      have outAfter : ¬ (m.goOn cb .waitEvict session).InRound swapspace := by
        rintro ⟨other, evicts⟩
        rcases eq_or_ne other cb with rfl | elsewhere
        · rw [handler_goOn] at evicts
          cases evicts
        · rw [handler_goOn_of_ne _ elsewhere] at evicts
          exact out ⟨other, evicts⟩
      obtain ⟨cb₁, rb₁, first, active⟩ :=
        putsBack_eq_false.mp (admits swapspace out leads.mapped)
      obtain ⟨cb₂, rb₂, second, activeAfter⟩ :=
        putsBack_eq_false.mp (after swapspace outAfter still.mapped)
      obtain ⟨rfl, rfl⟩ := leads.unique first
      obtain ⟨rfl, rfl⟩ := still.unique second
      rw [active]
      exact activeAfter

instance (m : Control servers replicas) (swapspace : Swapspace) : Decidable (m.InRound swapspace) :=
  inferInstanceAs (Decidable (∃ _, _))

instance (m : Control servers replicas) (cb : Fin servers) (evicted : Int) :
    Decidable (m.HitsOwn cb evicted) := by
  unfold HitsOwn
  infer_instance

instance (m : Control servers replicas) (cb : Fin servers) (round : Round) :
    Decidable (m.LeavesStopped cb round) := by
  unfold LeavesStopped
  infer_instance

instance (m : Control servers replicas) (label : ControlLabel servers replicas) :
    Decidable (m.Apart label) := by
  apply @ControlLabel.casesOn _ _ (fun label => Decidable (m.Apart label)) label <;> intros
  case clean cb =>
    unfold Apart
    dsimp only
    match m.handler cb with
    | .waitEvict | .findDest _ | .waitMigMap .. | .waitDone .. | .copyBitmap .. | .sendDelete ..
    | .waitDelete .. => infer_instance
  all_goals unfold Apart; infer_instance

end Control

end Valet.Bd
