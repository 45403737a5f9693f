import Valet.Bd.Control
import Valet.Daemon.Regions

/-!
# The indices of the write path

`get_cb` answers a server for a swapspace whose row 0 is mapped, without looking
at the other rows, and `valet_remote_block_map` counts a row as mapped once a
`RESP_MR_MAP` is there.
-/

namespace Valet.Bd

open Valet.Wire Valet.Library

namespace ValetSession

variable {servers replicas : Nat}

/-- The row leads from the swapspace to a server and a block. -/
structure RowMapped (s : ValetSession servers replicas) (row : Fin (replicas + 1))
    (swapspace : Swapspace) : Prop where
  server : ∃ cb : Fin servers, s.cbIndexMap row swapspace = cb.val
  block : ∃ rb : Block, s.mappingSwapspaceToRb row swapspace = rb.val

/-- The indices that `get_cb` and `rdma_write` use for the swapspace are inside the tables. -/
def Indexed (s : ValetSession servers replicas) (swapspace : Swapspace) : Prop :=
  ∀ row, s.RowMapped row swapspace

/-- Row 0 has led to a block at some time. -/
def Touched (s : ValetSession servers replicas) (swapspace : Swapspace) : Prop :=
  ∃ rb : Block, s.mappingSwapspaceToRb 0 swapspace = rb.val

/-- The tables, the slots and what the mapper waits for, as far as a step may only
withdraw. -/
structure Quiet (s next : ValetSession servers replicas) : Prop where
  maps : SameMaps s next
  dest : ∀ cb, (next.rbh cb).dest = (s.rbh cb).dest
  arrived : ∀ cb, (next.cbList cb).state = .recvMrMap → (s.cbList cb).state = .recvMrMap

variable {s next last : ValetSession servers replicas} {cb : Fin servers}

theorem SameMaps.rowMapped {row : Fin (replicas + 1)} {swapspace : Swapspace}
    (same : SameMaps s next) (mapped : s.RowMapped row swapspace) :
    next.RowMapped row swapspace := by
  obtain ⟨servers, blocks⟩ := same
  exact ⟨by rw [servers]; exact mapped.server, by rw [blocks]; exact mapped.block⟩

theorem Quiet.trans (first : Quiet s next) (second : Quiet next last) : Quiet s last where
  maps := ⟨second.maps.1.trans first.maps.1, second.maps.2.trans first.maps.2⟩
  dest := fun cb => (second.dest cb).trans (first.dest cb)
  arrived := fun cb arrived => first.arrived cb (second.arrived cb arrived)

theorem quiet_refl : Quiet s s := ⟨⟨rfl, rfl⟩, fun _ => rfl, fun _ arrived => arrived⟩

theorem quiet_setState {state : TestState} (other : state ≠ .recvMrMap) :
    Quiet s (s.setState cb state) where
  maps := ⟨rfl, rfl⟩
  dest := fun cb => by rw [rbh_setState]
  arrived := by
    intro at_ arrived
    by_cases same : at_ = cb
    · subst same
      rw [state_setState] at arrived
      exact absurd arrived other
    · simpa [setState, setCb, same] using arrived

theorem quiet_modifyRbh {change : RemoteBlockHandler → RemoteBlockHandler}
    (keeps : ∀ rbh, (change rbh).dest = rbh.dest) : Quiet s (s.modifyRbh cb change) where
  maps := ⟨rfl, rfl⟩
  dest := by
    intro at_
    by_cases same : at_ = cb
    · subst same
      rw [rbh_modifyRbh, keeps]
    · rw [rbh_modifyRbh_of_ne _ same]
  arrived := fun at_ arrived => by rwa [state_modifyRbh] at arrived

theorem quiet_setCbState {state : CbState} : Quiet s (s.setCbState cb state) :=
  ⟨⟨rfl, rfl⟩, fun _ => rfl, fun _ arrived => arrived⟩

theorem quiet_modifySendBuf {change : Message → Message} : Quiet s (s.modifySendBuf cb change) where
  maps := ⟨rfl, rfl⟩
  dest := fun at_ => by rw [rbh_modifySendBuf]
  arrived := by
    intro at_ arrived
    by_cases same : at_ = cb
    · subst same
      simpa [modifySendBuf, setCb] using arrived
    · simpa [modifySendBuf, setCb, same] using arrived

theorem quiet_queried : Quiet s (s.queried cb) := by
  unfold queried
  split
  · exact quiet_setCbState.trans (quiet_setState (by decide))
  · exact quiet_modifySendBuf.trans (quiet_setState (by decide))

/-- A destination that is inside the tables. -/
structure ValidDest (servers : Nat) (dest : Dest) : Prop where
  server : ∃ cb : Fin servers, dest.cbIndex = cb.val
  block : ∃ rb : Block, dest.rbIndex = rb.val

/-- A round is about a swapspace that was mapped. -/
def Names (s : ValetSession servers replicas) (round : Round) : Prop :=
  ∃ swapspace : Swapspace, round.clientEvictRbIndex = swapspace.val ∧ s.Touched swapspace

/-- What holds while the mapper waits for the reply of a row. -/
structure MappingTo (s : ValetSession servers replicas) (selectIdx : Swapspace)
    (replicaList : Fin (replicas + 1) → Fin servers) (row : Fin (replicas + 1)) : Prop where
  distinct : Function.Injective replicaList
  below : ∀ other, other < row → s.RowMapped other selectIdx
  here : (s.cbList (replicaList row)).state = .recvMrMap → s.RowMapped row selectIdx
  above : ∀ other, row < other → (s.cbList (replicaList other)).state ≠ .recvMrMap

theorem RowMapped.touched {swapspace : Swapspace} (mapped : s.RowMapped 0 swapspace) :
    s.Touched swapspace := mapped.block

theorem Quiet.touched {swapspace : Swapspace} (quiet : Quiet s next) :
    next.Touched swapspace ↔ s.Touched swapspace := by
  rw [Touched, Touched, quiet.maps.2]

theorem Quiet.mappingTo {selectIdx : Swapspace} {replicaList : Fin (replicas + 1) → Fin servers}
    {row : Fin (replicas + 1)} (quiet : Quiet s next)
    (mapping : s.MappingTo selectIdx replicaList row) :
    next.MappingTo selectIdx replicaList row where
  distinct := mapping.distinct
  below := fun other less => quiet.maps.rowMapped (mapping.below other less)
  here := fun arrived => quiet.maps.rowMapped (mapping.here (quiet.arrived _ arrived))
  above := fun other more arrived => mapping.above other more (quiet.arrived _ arrived)

theorem state_queried {other : Fin servers} :
    ((s.queried cb).cbList other).state =
      if other = cb then .recvQueryRepl else (s.cbList other).state := by
  rcases eq_or_ne other cb with rfl | different
  · simp [queried]
  · unfold queried
    split <;> simp [setState, setCb, setCbState, modifySendBuf, different]

/-- Servers that were asked answered last. -/
theorem asked_of_foldl (cbs : List (Fin servers)) {other : Fin servers}
    (asked : other ∈ cbs ∨ (s.cbList other).state = .recvQueryRepl) :
    ((cbs.foldl queried s).cbList other).state = .recvQueryRepl := by
  induction cbs generalizing s with
  | nil =>
      rcases asked with member | before
      · cases member
      · exact before
  | cons first rest ih =>
      apply ih
      rw [state_queried]
      rcases eq_or_ne other first with rfl | different
      · right
        rw [if_pos rfl]
      · rw [if_neg different]
        rcases asked with member | before
        · exact Or.inl ((List.mem_cons.mp member).resolve_left different)
        · exact Or.inr before

theorem quiet_foldl (cbs : List (Fin servers)) : Quiet s (cbs.foldl queried s) := by
  induction cbs generalizing s with
  | nil => exact quiet_refl
  | cons first rest ih => exact quiet_queried.trans ih

theorem quiet_requestMrMap (cb : Fin servers) (row : Fin (replicas + 1))
    (selectIdx : Swapspace) : Quiet s (s.requestMrMap cb row selectIdx) :=
  Quiet.trans (⟨⟨rfl, rfl⟩, fun _ => rfl, fun _ arrived => arrived⟩ :
    Quiet s { s with mappedCbNum := s.mappedCbNum + 1 }) quiet_modifySendBuf

/-- The row is mapped and nothing else changes in the tables. -/
structure MapsRow (s next : ValetSession servers replicas) (row : Fin (replicas + 1))
    (swapspace : Swapspace) : Prop where
  here : next.RowMapped row swapspace
  others : ∀ other at_, (other, at_) ≠ (row, swapspace) →
    next.cbIndexMap other at_ = s.cbIndexMap other at_ ∧
      next.mappingSwapspaceToRb other at_ = s.mappingSwapspaceToRb other at_

theorem MapsRow.keeps {row other : Fin (replicas + 1)} {swapspace at_ : Swapspace}
    (maps : MapsRow s next row swapspace) (mapped : s.RowMapped other at_) :
    next.RowMapped other at_ := by
  by_cases same : (other, at_) = (row, swapspace)
  · cases same
    exact maps.here
  · obtain ⟨servers, blocks⟩ := maps.others other at_ same
    exact ⟨by rw [servers]; exact mapped.server, by rw [blocks]; exact mapped.block⟩

theorem MapsRow.after {middle : ValetSession servers replicas} {row : Fin (replicas + 1)}
    {swapspace : Swapspace} (maps : MapsRow middle next row swapspace) (same : SameMaps s middle) :
    MapsRow s next row swapspace where
  here := maps.here
  others := fun other at_ different => by
    rw [← same.1, ← same.2]
    exact maps.others other at_ different

theorem mapsRow_set (row : Fin (replicas + 1)) (swapspace : Swapspace) {cbIndex rbIndex : Int}
    (valid : ValidDest servers ⟨cbIndex, rbIndex⟩) :
    MapsRow s ((s.setRb row swapspace rbIndex).setCbIndex row swapspace cbIndex) row swapspace where
  here :=
    { server := by simpa [setRb, setCbIndex] using valid.server
      block := by simpa [setRb, setCbIndex] using valid.block }
  others := by
    intro other at_ different
    rcases eq_or_ne other row with rfl | otherRow
    · have otherAt : at_ ≠ swapspace := fun same => different (by rw [same])
      simp [setRb, setCbIndex, otherAt]
    · simp [setRb, setCbIndex, otherRow]

end ValetSession

namespace Control

open ValetSession

variable {servers replicas : Nat} {m next : Control servers replicas}

/-- The mapper has mapped row 0 of the swapspace and is not done yet. -/
def MapsNow (m : Control servers replicas) (swapspaceIndex : Int) : Prop :=
  match m.mapper with
  | some (.waiting selectIdx replicaList row) => swapspaceIndex = selectIdx.val ∧
      (row ≠ 0 ∨ (m.session.cbList (replicaList row)).state = .recvMrMap)
  | _ => False

theorem mapsNow_of_waiting {selectIdx : Swapspace}
    {replicaList : Fin (replicas + 1) → Fin servers} {row : Fin (replicas + 1)}
    (waiting : m.mapper = some (.waiting selectIdx replicaList row))
    (started : row ≠ 0 ∨ (m.session.cbList (replicaList row)).state = .recvMrMap) :
    m.MapsNow selectIdx.val := by
  rw [MapsNow, waiting]
  exact ⟨rfl, started⟩

theorem MapsNow.waiting {swapspaceIndex : Int} (now : m.MapsNow swapspaceIndex) :
    ∃ selectIdx replicaList row, m.mapper = some (.waiting selectIdx replicaList row) ∧
      swapspaceIndex = selectIdx.val ∧
        (row ≠ 0 ∨ (m.session.cbList (replicaList row)).state = .recvMrMap) := by
  unfold MapsNow at now
  split at now
  · rename_i selectIdx replicaList row waiting
    exact ⟨selectIdx, replicaList, row, waiting, now⟩
  · exact now.elim

structure Indexing (m : Control servers replicas) : Prop where
  first : ∀ swapspace, m.session.cbIndexMap 0 swapspace = noCbMapped ∨
    m.session.RowMapped 0 swapspace
  rows : ∀ swapspace, m.session.Touched swapspace →
    (∀ replicaList row, m.mapper ≠ some (.waiting swapspace replicaList row)) →
      ∀ row, row ≠ 0 → m.session.RowMapped row swapspace
  slots : ∀ cb, ValidDest servers (m.session.rbh cb).dest
  rounds : ∀ cb round, (m.handler cb).round = some round → m.session.Names round
  dests : ∀ cb round newCb dest, m.handler cb = .waitDone round newCb dest →
    ValidDest servers dest
  mapping : ∀ selectIdx replicaList row, m.mapper = some (.waiting selectIdx replicaList row) →
    m.session.MappingTo selectIdx replicaList row

theorem Indexing.quiet {session : ValetSession servers replicas} (indexing : Indexing m)
    (quiet : Quiet m.session session) : Indexing { m with session := session } where
  first := by
    intro swapspace
    rcases indexing.first swapspace with unmapped | mapped
    · left
      rw [quiet.maps.1]
      exact unmapped
    · exact Or.inr (quiet.maps.rowMapped mapped)
  rows := fun swapspace touched free row other =>
    quiet.maps.rowMapped (indexing.rows swapspace (quiet.touched.mp touched) free row other)
  slots := fun cb => by rw [quiet.dest]; exact indexing.slots cb
  rounds := by
    intro cb round inRound
    obtain ⟨swapspace, named, touched⟩ := indexing.rounds cb round inRound
    exact ⟨swapspace, named, quiet.touched.mpr touched⟩
  dests := indexing.dests
  mapping := fun selectIdx replicaList row waiting =>
    quiet.mappingTo (indexing.mapping selectIdx replicaList row waiting)

theorem Indexing.held (indexing : Indexing m) (handedOut : Fin servers → Block → Bool) :
    Indexing { m with handedOut := handedOut } :=
  ⟨indexing.first, indexing.rows, indexing.slots, indexing.rounds, indexing.dests,
    indexing.mapping⟩

/-- A handler goes on in its round. -/
theorem Indexing.handler {cb : Fin servers} {pc : HandlerPc servers}
    {session : ValetSession servers replicas} (indexing : Indexing { m with session := session })
    (names : ∀ round, pc.round = some round → session.Names round)
    (valid : ∀ round newCb dest, pc = .waitDone round newCb dest → ValidDest servers dest) :
    Indexing (m.goOn cb pc session) where
  first := indexing.first
  rows := indexing.rows
  slots := indexing.slots
  rounds := by
    intro other round inRound
    rcases eq_or_ne other cb with rfl | different
    · rw [handler_goOn] at inRound
      exact names round inRound
    · rw [handler_goOn_of_ne _ different] at inRound
      exact indexing.rounds other round inRound
  dests := by
    intro other round newCb dest waits
    rcases eq_or_ne other cb with rfl | different
    · rw [handler_goOn] at waits
      exact valid round newCb dest waits
    · rw [handler_goOn_of_ne _ different] at waits
      exact indexing.dests other round newCb dest waits
  mapping := indexing.mapping

/-- The mapper has no row to wait for. -/
theorem Indexing.unmapping {mapper : Option (MapperPc servers replicas)}
    (indexing : Indexing m)
    (rows : ∀ swapspace, m.session.Touched swapspace → ∀ row, row ≠ 0 →
      m.session.RowMapped row swapspace)
    (none : ∀ selectIdx replicaList row, mapper ≠ some (.waiting selectIdx replicaList row)) :
    Indexing { m with mapper := mapper } where
  first := indexing.first
  rows := fun swapspace touched _ => rows swapspace touched
  slots := indexing.slots
  rounds := indexing.rounds
  dests := indexing.dests
  mapping := fun selectIdx replicaList row waiting =>
    absurd waiting (none selectIdx replicaList row)

/-- The mapper waits for a row. -/
theorem Indexing.awaits {swapspace : Swapspace} {replicaList : Fin (replicas + 1) → Fin servers}
    {row : Fin (replicas + 1)} (indexing : Indexing m)
    (others : ∀ other, other ≠ swapspace → ∀ replicaList row,
      m.mapper ≠ some (.waiting other replicaList row))
    (mapping : m.session.MappingTo swapspace replicaList row) :
    Indexing { m with mapper := some (.waiting swapspace replicaList row) } where
  first := indexing.first
  rows := by
    intro other touched free
    refine indexing.rows other touched (others other ?_)
    rintro rfl
    exact free _ _ rfl
  slots := indexing.slots
  rounds := indexing.rounds
  dests := indexing.dests
  mapping := by
    intro selectIdx list at_ waiting
    cases waiting
    exact mapping

theorem Indexing.chooseNodes {selectIdx : Swapspace}
    {replicaList : Fin (replicas + 1) → Fin servers} (indexing : Indexing m)
    (finding : m.mapper = some (.finding selectIdx)) (distinct : Function.Injective replicaList) :
    Indexing (m.chooseNodes selectIdx replicaList) := by
  have asked : Quiet m.session ((List.ofFn replicaList).foldl ValetSession.queried m.session) :=
    quiet_foldl _
  have quiet := asked.trans (quiet_requestMrMap (replicaList 0) 0 selectIdx)
  have unasked : ∀ row, ((((List.ofFn replicaList).foldl ValetSession.queried m.session).requestMrMap
      (replicaList 0) 0 selectIdx).cbList (replicaList row)).state ≠ .recvMrMap := by
    intro row arrived
    have answered : (((List.ofFn replicaList).foldl ValetSession.queried m.session).cbList
        (replicaList row)).state = .recvQueryRepl :=
      asked_of_foldl _ (Or.inl (List.mem_ofFn.mpr ⟨row, rfl⟩))
    rw [(quiet_requestMrMap _ _ _).arrived _ arrived] at answered
    cases answered
  refine (indexing.quiet quiet).awaits ?_ ?_
  · intro other _ list row waiting
    rw [show m.mapper = _ from finding] at waiting
    cases waiting
  · exact
      { distinct := distinct
        below := fun other less => absurd less (Fin.not_lt_zero other)
        here := fun arrived => absurd arrived (unasked 0)
        above := fun other _ => unasked other }

theorem Indexing.mapRow {selectIdx : Swapspace} {replicaList : Fin (replicas + 1) → Fin servers}
    {row : Fin (replicas + 1)} (indexing : Indexing m)
    (waiting : m.mapper = some (.waiting selectIdx replicaList row))
    (arrived : (m.session.cbList (replicaList row)).state = .recvMrMap) :
    Indexing (m.mapRow selectIdx replicaList row) := by
  have mapping := indexing.mapping _ _ _ waiting
  have upTo : ∀ other, other ≤ row → m.session.RowMapped other selectIdx := by
    intro other most
    rcases lt_or_eq_of_le most with less | rfl
    · exact mapping.below other less
    · exact mapping.here arrived
  have only : ∀ other, other ≠ selectIdx → ∀ list at_,
      m.mapper ≠ some (.waiting other list at_) := by
    intro other different list at_ again
    rw [waiting] at again
    cases again
    exact different rfl
  have on : Quiet m.session { m.session with rdmaOn := true } :=
    ⟨⟨rfl, rfl⟩, fun _ => rfl, fun _ arrived => arrived⟩
  unfold Control.mapRow
  dsimp only
  split
  · rename_i more
    have quiet := on.trans (quiet_requestMrMap (replicaList ⟨row.val + 1, more⟩)
      ⟨row.val + 1, more⟩ selectIdx)
    refine (indexing.quiet quiet).awaits only ?_
    exact quiet.mappingTo
      { distinct := mapping.distinct
        below := fun other less => upTo other (Nat.le_of_lt_succ less)
        here := fun again => absurd again (mapping.above _ (Nat.lt_succ_self row.val))
        above := fun other later => mapping.above other (Nat.lt_of_succ_lt later) }
  · rename_i final
    refine (indexing.quiet on).unmapping ?_ (fun _ _ _ again => nomatch again)
    intro swapspace touched other isOther
    refine on.maps.rowMapped ?_
    rcases eq_or_ne swapspace selectIdx with rfl | different
    · exact upTo other (by omega)
    · exact indexing.rows swapspace touched (only swapspace different) other isOther

/-- A row is mapped by a reply that the mapper waits for, or by a remap. -/
theorem Indexing.mapsRow {session : ValetSession servers replicas} {row : Fin (replicas + 1)}
    {swapspace : Swapspace}
    (indexing : Indexing m) (maps : MapsRow m.session session row swapspace)
    (dest : ∀ cb, (session.rbh cb).dest = (m.session.rbh cb).dest)
    (arrivals : ∀ cb, (session.cbList cb).state = .recvMrMap →
      (m.session.cbList cb).state = .recvMrMap ∨
        ∃ list, m.mapper = some (.waiting swapspace list row) ∧ cb = list row)
    (known : m.session.Touched swapspace ∨
      ∃ list at_, m.mapper = some (.waiting swapspace list at_)) :
    Indexing { m with session := session } where
  first := by
    intro other
    by_cases same : ((0 : Fin (replicas + 1)), other) = (row, swapspace)
    · cases same
      exact Or.inr maps.here
    · rcases indexing.first other with unmapped | mapped
      · left
        rw [(maps.others 0 other same).1]
        exact unmapped
      · exact Or.inr (maps.keeps mapped)
  rows := by
    intro other touched free at_ isOther
    refine maps.keeps (indexing.rows other ?_ free at_ isOther)
    by_cases same : ((0 : Fin (replicas + 1)), other) = (row, swapspace)
    · cases same
      exact known.resolve_right fun ⟨list, at_, waiting⟩ => free list at_ waiting
    · rwa [Touched, (maps.others 0 other same).2] at touched
  slots := fun cb => by rw [dest]; exact indexing.slots cb
  rounds := by
    intro cb round inRound
    obtain ⟨other, named, touched⟩ := indexing.rounds cb round inRound
    refine ⟨other, named, ?_⟩
    by_cases same : ((0 : Fin (replicas + 1)), other) = (row, swapspace)
    · cases same
      exact maps.here.touched
    · rwa [Touched, (maps.others 0 other same).2]
  dests := indexing.dests
  mapping := by
    intro selectIdx list at_ waiting
    have mapping := indexing.mapping selectIdx list at_ waiting
    exact
      { distinct := mapping.distinct
        below := fun other less => maps.keeps (mapping.below other less)
        here := by
          intro arrived
          rcases arrivals _ arrived with before | ⟨again, same, _⟩
          · exact maps.keeps (mapping.here before)
          · rw [waiting] at same
            cases same
            exact maps.here
        above := by
          intro other later arrived
          rcases arrivals _ arrived with before | ⟨again, same, isRow⟩
          · exact mapping.above other later before
          · rw [waiting] at same
            cases same
            rw [mapping.distinct isRow] at later
            exact lt_irrefl _ later }

/-- Row 0 of a swapspace that the mapper has not mapped yet is unmapped. -/
theorem Indexing.unmaps {swapspace : Swapspace} (indexing : Indexing m)
    (free : ¬ m.MapsNow swapspace.val) :
    Indexing { m with session := m.session.setCbIndex 0 swapspace noCbMapped } := by
  have keeps : ∀ other at_, (other, at_) ≠ ((0 : Fin (replicas + 1)), swapspace) →
      m.session.RowMapped other at_ →
        (m.session.setCbIndex 0 swapspace noCbMapped).RowMapped other at_ := by
    intro other at_ different mapped
    refine ⟨?_, mapped.block⟩
    rcases eq_or_ne other 0 with rfl | otherRow
    · have otherAt : at_ ≠ swapspace := fun same => different (by rw [same])
      simpa [setCbIndex, otherAt] using mapped.server
    · simpa [setCbIndex, otherRow] using mapped.server
  exact
    { first := by
        intro other
        rcases eq_or_ne other swapspace with rfl | different
        · left
          simp [setCbIndex]
        · rcases indexing.first other with unmapped | mapped
          · left
            simpa [setCbIndex, different] using unmapped
          · exact Or.inr (keeps 0 other (fun same => different (congrArg Prod.snd same)) mapped)
      rows := fun other touched still row isRow =>
        keeps row other (fun same => isRow (congrArg Prod.fst same))
          (indexing.rows other touched still row isRow)
      slots := indexing.slots
      rounds := indexing.rounds
      dests := indexing.dests
      mapping := by
        intro selectIdx list row waiting
        have mapping := indexing.mapping selectIdx list row waiting
        refine ⟨mapping.distinct, ?_, ?_, mapping.above⟩
        · intro other less
          refine keeps other selectIdx ?_ (mapping.below other less)
          rintro ⟨⟩
          exact free (mapsNow_of_waiting waiting (Or.inl (ne_of_gt less)))
        · intro arrived
          refine keeps row selectIdx ?_ (mapping.here arrived)
          rintro ⟨⟩
          exact free (mapsNow_of_waiting waiting (Or.inr arrived)) }

/-- The reply is the one that the mapper waits for. -/
def Awaits (m : Control servers replicas) (cb : Fin servers) (msg : Message) : Prop :=
  match m.mapper with
  | some (.waiting selectIdx replicaList row) =>
      cb = replicaList row ∧ msg.sizeGb = selectIdx.val ∧ msg.replicaIndex = row.val
  | _ => False

/-- The row that the mapper waits for is mapped already. -/
def MappedBefore (m : Control servers replicas) : Prop :=
  match m.mapper with
  | some (.waiting selectIdx _ row) => m.session.RowMapped row selectIdx
  | _ => False

/-- Servers send `RESP_MR_MAP` as the reply to a request only, and they know their index. -/
def RepliesInTurn (m : Control servers replicas) : ControlLabel servers replicas → Prop
  | .recv cb (.message msg) => (msg.type = .respMrMap → m.Awaits cb msg) ∧
      (msg.type = .respMigMap → msg.cbIndex = cb.val)
  | _ => True

/-- A map reply has a region. -/
def RepliesWithRegion (m : Control servers replicas) : ControlLabel servers replicas → Prop
  | .recv _ (.message msg) =>
      (msg.type = .respMrMap → msg.firstRkey.isSome = true ∨ m.MappedBefore) ∧
      (msg.type = .respMigMap → ∃ rb : Block, msg.rbIndex = rb.val)
  | _ => True

/-- The end of a round unmaps row 0 only, and not while the swapspace is mapped anew. -/
def UnmapsFirstRow (m : Control servers replicas) : ControlLabel servers replicas → Prop
  | .clean cb =>
      match m.handler cb with
      | .waitDelete round _ => (∃ i, (m.session.rbh cb).migRbIdx i = true) →
          round.replicaIndex = 0 ∧ ¬ m.MapsNow round.clientEvictRbIndex
      | _ => True
  | _ => True

/-- The condition under which `get_cb` answers with valid indices. -/
structure IndexedStep (m : Control servers replicas) (label : ControlLabel servers replicas) :
    Prop where
  turn : RepliesInTurn m label
  region : RepliesWithRegion m label
  unmaps : UnmapsFirstRow m label

theorem Awaits.waiting {cb : Fin servers} {msg : Message} (awaits : m.Awaits cb msg) :
    ∃ selectIdx replicaList row, m.mapper = some (.waiting selectIdx replicaList row) ∧
      cb = replicaList row ∧ msg.sizeGb = selectIdx.val ∧ msg.replicaIndex = row.val := by
  unfold Awaits at awaits
  split at awaits
  · rename_i selectIdx replicaList row waiting
    exact ⟨selectIdx, replicaList, row, waiting, awaits⟩
  · exact awaits.elim

theorem Indexing.mrMap {cb : Fin servers} {msg : Message}
    {session : ValetSession servers replicas} (indexing : Indexing m) (awaits : m.Awaits cb msg)
    (region : msg.firstRkey.isSome = true ∨ m.MappedBefore)
    (inits : InitsBlock ((m.session.setCbState cb .mapped).setState cb .recvMrMap) cb msg session) :
    Indexing { m with session := session } := by
  obtain ⟨selectIdx, replicaList, row, waiting, isCb, isSelect, isRow⟩ := awaits.waiting
  have arrivals : ∀ other, (((m.session.setCbState cb .mapped).setState cb
      .recvMrMap).cbList other).state = .recvMrMap → (m.session.cbList other).state = .recvMrMap ∨
        ∃ list, m.mapper = some (.waiting selectIdx list row) ∧ other = list row := by
    intro other arrived
    rcases eq_or_ne other cb with rfl | different
    · exact Or.inr ⟨replicaList, waiting, isCb⟩
    · left
      simpa [setState, setCb, setCbState, different] using arrived
  cases inits with
  | nothing empty =>
      have before : m.session.RowMapped row selectIdx := by
        rcases region with some | before
        · rw [empty] at some
          cases some
        · rwa [MappedBefore, waiting] at before
      refine indexing.mapsRow ⟨⟨before.server, before.block⟩, fun _ _ _ => ⟨rfl, rfl⟩⟩ ?_ arrivals
        (Or.inr ⟨replicaList, row, waiting⟩)
      intro other
      rw [rbh_setState, rbh_setCbState]
  | @mapped i at_ select first isAt isSelected =>
      have sameRow : at_ = row := Fin.ext (by omega)
      have sameSelect : select = selectIdx := Fin.ext (by omega)
      subst sameRow
      subst sameSelect
      have same : SameMaps m.session (((m.session.setCbState cb .mapped).setState cb
          .recvMrMap).modifyRbh cb fun rbh => rbh.mapBlock msg i) := ⟨rfl, rfl⟩
      have valid : ValidDest servers ⟨cb.val, i.val⟩ := ⟨⟨cb, rfl⟩, ⟨i, rfl⟩⟩
      have maps := (mapsRow_set at_ select valid).after same
      refine indexing.mapsRow maps ?_ ?_ (Or.inr ⟨replicaList, at_, waiting⟩)
      · intro other
        rw [rbh_setCbIndex, rbh_setRb]
        rcases eq_or_ne other cb with rfl | different
        · rw [rbh_modifyRbh, rbh_setState, rbh_setCbState]
          rfl
        · rw [rbh_modifyRbh_of_ne _ different, rbh_setState, rbh_setCbState]
      · intro other arrived
        have before : ((((m.session.setCbState cb .mapped).setState cb .recvMrMap).modifyRbh cb
          fun rbh => rbh.mapBlock msg i).cbList other).state = .recvMrMap := arrived
        rw [state_modifyRbh] at before
        exact arrivals other before

/-- A destination comes into the slot of a server. -/
theorem Indexing.migMap {cb : Fin servers} {msg : Message} (indexing : Indexing m)
    (valid : ValidDest servers ⟨msg.cbIndex, msg.rbIndex⟩) :
    Indexing { m with
      session := (m.session.setState cb .recvMigMap).modifyRbh cb
        fun rbh => rbh.valetMigrationBlockInit msg } := by
  have start : Indexing { m with session := m.session.setState cb .recvMigMap } :=
    indexing.quiet (quiet_setState (by decide))
  have mapped : ∀ row swapspace, (m.session.setState cb .recvMigMap).RowMapped row swapspace →
      ((m.session.setState cb .recvMigMap).modifyRbh cb
        fun rbh => rbh.valetMigrationBlockInit msg).RowMapped row swapspace :=
    fun row swapspace mapped => ⟨mapped.server, mapped.block⟩
  exact
    { first := fun swapspace => (start.first swapspace).imp_right (mapped 0 swapspace)
      rows := fun swapspace touched free row isRow =>
        mapped row swapspace (start.rows swapspace touched free row isRow)
      slots := by
        intro other
        rcases eq_or_ne other cb with rfl | different
        · rw [rbh_modifyRbh]
          exact valid
        · rw [rbh_modifyRbh_of_ne _ different]
          exact start.slots other
      rounds := start.rounds
      dests := start.dests
      mapping := by
        intro selectIdx list row waiting
        have mapping := start.mapping selectIdx list row waiting
        refine ⟨mapping.distinct, fun other less => mapped _ _ (mapping.below other less), ?_, ?_⟩
        · intro arrived
          rw [state_modifyRbh] at arrived
          exact mapped _ _ (mapping.here arrived)
        · intro other later arrived
          rw [state_modifyRbh] at arrived
          exact mapping.above other later arrived }

theorem Indexing.recv {cb : Fin servers} {recv : Received}
    {session : ValetSession servers replicas} (indexing : Indexing m) (turn : RepliesInTurn m (.recv cb recv))
    (region : RepliesWithRegion m (.recv cb recv))
    (receives : Receives m.session cb recv session) :
    Indexing { m with session := session } := by
  cases receives with
  | ignored error => exact indexing.quiet quiet_refl
  | refused reason => exact indexing.quiet (quiet_setState (by decide))
  | @query qmsg alive =>
      have sized : Quiet m.session (m.session.modifyRbh cb fun rbh =>
          { rbh with targetSizeGb := qmsg.sizeGb, sum := qmsg.sum }) := quiet_modifyRbh fun _ => rfl
      exact indexing.quiet (sized.trans (quiet_setState (by decide)))
  | @migMap msg alive type =>
      exact indexing.migMap ⟨⟨cb, turn.2 type⟩, region.2 type⟩
  | @mrMap msg _ alive type inits =>
      exact indexing.mrMap (turn.1 type) (region.1 type) inits
  | done alive type =>
      exact indexing.quiet (Quiet.trans (quiet_setState (by decide)) (quiet_modifyRbh fun _ => rfl))
  | evict alive type =>
      exact indexing.quiet (Quiet.trans (quiet_setState (by decide)) (quiet_modifyRbh fun _ => rfl))

theorem Indexing.remap {cb newCb : Fin servers} {round : Round} {dest : Dest}
    {session : ValetSession servers replicas} (indexing : Indexing m)
    (waits : m.handler cb = .waitDone round newCb dest)
    (remaps : Remaps m.session cb newCb round dest session) :
    Indexing { m with session := session } := by
  have names := indexing.rounds cb round (by rw [waits]; rfl)
  obtain ⟨at_, named, touched⟩ := names
  cases remaps with
  | @moved swapspace done isSwapspace =>
      have same : at_ = swapspace := Fin.ext (by omega)
      subst same
      have mapped : Indexing { m with
          session := (m.session.setRb 0 at_ dest.rbIndex).setCbIndex 0 at_ dest.cbIndex } :=
        indexing.mapsRow
          (mapsRow_set 0 at_ (indexing.dests cb round newCb dest waits)) (fun _ => rfl)
          (fun _ arrived => Or.inl arrived) (Or.inl touched)
      exact mapped.quiet (quiet_modifyRbh fun _ => rfl)

theorem quiet_clearNew {s : ValetSession servers replicas} (newCb : Option (Fin servers)) :
    Quiet s (s.clearNew newCb) := by
  cases newCb with
  | none => exact quiet_refl
  | some newCb =>
      have cleared : Quiet s (s.modifyRbh newCb fun rbh =>
          { rbh with migRbIdx := fun _ => false }) := quiet_modifyRbh fun _ => rfl
      exact cleared

theorem quiet_sendDeleteRb {s : ValetSession servers replicas} {cb : Fin servers} :
    Quiet s (s.sendDeleteRb cb) := by
  unfold sendDeleteRb
  exact quiet_modifySendBuf

theorem Indexing.clean {cb : Fin servers} {round : Round} {newCb : Option (Fin servers)}
    {session : ValetSession servers replicas} (indexing : Indexing m)
    (waits : m.handler cb = .waitDelete round newCb) (unmaps : UnmapsFirstRow m (.clean cb))
    (cleans : Cleans m.session cb newCb round session) :
    Indexing { m with session := session } := by
  rw [UnmapsFirstRow, waits] at unmaps
  cases cleans with
  | @cleaned middle src swapspace rb deleted resets isSrc isSwapspace isRb =>
      have reset : Indexing { m with session := middle } := by
        cases resets with
        | unmarked clear => exact indexing.quiet (quiet_clearNew newCb)
        | @cleared i row at_ marked isRow isAt =>
            obtain ⟨isFirst, free⟩ := unmaps ⟨i, marked⟩
            have first : row = 0 := Fin.ext (by simp only [Fin.val_zero]; omega)
            subst first
            have cleared : Quiet m.session
                (m.session.modifyRbh cb RemoteBlockHandler.clearMarked) :=
              quiet_modifyRbh fun _ => rfl
            have start : Indexing { m with
                session := m.session.modifyRbh cb RemoteBlockHandler.clearMarked } :=
              indexing.quiet cleared
            have still : ¬ ({ m with
                session := m.session.modifyRbh cb RemoteBlockHandler.clearMarked } :
                  Control servers replicas).MapsNow at_.val := by
              intro now
              apply free
              obtain ⟨selectIdx, list, at', waiting, same, started⟩ := now.waiting
              rw [isAt, same]
              exact mapsNow_of_waiting waiting (started.imp_right (cleared.arrived _))
            exact (start.unmaps still).quiet (quiet_clearNew newCb)
      have stated : Quiet middle
          (if newCb.isSome then middle.setCbState src .mapped else middle) := by
        split
        · exact quiet_setCbState
        · exact quiet_refl
      exact reset.quiet
        (stated.trans (quiet_modifyRbh fun _ => rfl))

theorem Indexing.step {label : ControlLabel servers replicas} (indexing : Indexing m)
    (guard : IndexedStep m label) (edge : m.step label = some next) : Indexing next := by
  cases moves_of_step edge with
  | ask => exact indexing.quiet quiet_queried
  | getFinding idle unmapped =>
      refine indexing.unmapping ?_ (fun _ _ _ again => nomatch again)
      refine fun swapspace touched => indexing.rows swapspace touched ?_
      intro list row waiting
      rw [idle] at waiting
      cases waiting
  | getMapped => exact indexing
  | noNodes finding =>
      refine indexing.unmapping ?_ (fun _ _ _ again => nomatch again)
      refine fun swapspace touched => indexing.rows swapspace touched ?_
      intro list row waiting
      rw [finding] at waiting
      cases waiting
  | chooseNodes finding distinct => exact indexing.chooseNodes finding distinct
  | mapRow waiting arrived => exact indexing.mapRow waiting arrived
  | recv receives => exact (indexing.recv guard.turn guard.region receives).held _
  | @sendDone cb =>
      refine indexing.quiet ?_
      unfold sendDone
      split
      · exact quiet_refl
      · split
        · exact quiet_setState (by decide)
        · split
          · exact quiet_modifyRbh fun _ => rfl
          · exact quiet_refl
  | @takeEvict cb round session waits takes =>
      cases takes with
      | @taken src swapspace rb evict isSrc isSwapspace isRb =>
          have quiet : Quiet m.session ((m.session.setCbState src .migrating).modifyRbh cb
              fun rbh => rbh.withRbState rb .readonly) :=
            quiet_setCbState.trans (quiet_modifyRbh fun _ => rfl)
          refine (indexing.quiet quiet).handler ?_
            (fun _ _ _ bad => nomatch bad)
          rintro _ ⟨⟩
          exact ⟨swapspace, isSwapspace, rb, isRb⟩
  | @noDest cb round finding =>
      refine Indexing.handler indexing ?_ (fun _ _ _ bad => nomatch bad)
      rintro _ ⟨⟩
      exact indexing.rounds cb round (by rw [finding]; rfl)
  | @chooseDest cb newCb round change finding =>
      have start : Indexing { m with
          session := (m.session.queried newCb).modifySendBuf newCb change } :=
        indexing.quiet (quiet_queried.trans quiet_modifySendBuf)
      refine start.handler ?_ (fun _ _ _ bad => nomatch bad)
      rintro _ ⟨⟩
      exact start.rounds cb round (by rw [show m.handler cb = _ from finding]; rfl)
  | @readSlot cb newCb round waits arrived =>
      refine Indexing.handler indexing ?_ ?_
      · rintro _ ⟨⟩
        exact indexing.rounds cb round (by rw [waits]; rfl)
      · rintro _ _ _ ⟨⟩
        exact indexing.slots newCb
  | @remap cb newCb round dest session waits remaps =>
      have moved := indexing.remap waits remaps
      refine moved.handler ?_ (fun _ _ _ bad => nomatch bad)
      rintro _ ⟨⟩
      exact moved.rounds cb round (by rw [show m.handler cb = _ from waits]; rfl)
  | @copyBitmap cb newCb round dest session remapped copies =>
      cases copies with
      | @copied destRb srcRb bitmap isDest isSrc source =>
          have quiet : Quiet m.session
              (m.session.modifyRbh newCb fun rbh => rbh.withBitmap destRb bitmap) :=
            quiet_modifyRbh fun _ => rfl
          have copied := indexing.quiet quiet
          refine copied.handler ?_ (fun _ _ _ bad => nomatch bad)
          rintro _ ⟨⟩
          exact copied.rounds cb round (by rw [show m.handler cb = _ from remapped]; rfl)
  | @postDelete cb round newCb sends =>
      have posted : Indexing { m with session := m.session.sendDeleteRb cb } :=
        indexing.quiet quiet_sendDeleteRb
      have sent : Indexing (m.goOn cb (.waitDelete round newCb) (m.session.sendDeleteRb cb)) := by
        refine posted.handler ?_ (fun _ _ _ bad => nomatch bad)
        rintro _ ⟨⟩
        exact posted.rounds cb round (by rw [show m.handler cb = _ from sends]; rfl)
      exact sent.held _
  | @clean cb round newCb session waits cleans =>
      refine (indexing.clean waits guard.unmaps cleans).handler
        (fun _ bad => nomatch bad) (fun _ _ _ bad => nomatch bad)

theorem Indexing.indexed (indexing : Indexing m) {swapspace : Swapspace}
    (mapped : m.session.RowMapped 0 swapspace)
    (free : ∀ replicaList row, m.mapper ≠ some (.waiting swapspace replicaList row)) :
    m.session.Indexed swapspace := by
  intro row
  rcases eq_or_ne row 0 with rfl | other
  · exact mapped
  · exact indexing.rows swapspace mapped.touched free row other

/-- When `get_cb` answers, all rows of the swapspace are mapped. -/
theorem Indexing.answers {label : ControlLabel servers replicas} {swapspace : Swapspace}
    (indexing : Indexing m) (edge : m.step label = some next)
    (answer : m.returns label = some swapspace) : next.session.Indexed swapspace := by
  cases moves_of_step edge with
  | getFinding idle unmapped =>
      simp [returns, unmapped] at answer
  | getMapped idle mapped =>
      rw [returns, if_neg mapped] at answer
      cases answer
      refine indexing.indexed ((indexing.first _).resolve_left mapped) ?_
      intro list row waiting
      rw [idle] at waiting
      cases waiting
  | @mapRow selectIdx replicaList row waiting arrived =>
      rw [returns, waiting] at answer
      dsimp only at answer
      split at answer
      · rename_i final
        cases answer
        have mapping := indexing.mapping _ _ _ waiting
        unfold Control.mapRow
        dsimp only
        rw [dif_neg (by omega)]
        intro other
        rcases lt_or_eq_of_le (Fin.le_def.mpr (by omega) : other ≤ row) with less | rfl
        · exact ⟨(mapping.below other less).server, (mapping.below other less).block⟩
        · exact ⟨(mapping.here arrived).server, (mapping.here arrived).block⟩
      · cases answer
  | ask | noNodes | chooseNodes | recv | sendDone | takeEvict | noDest | chooseDest | readSlot
  | remap | copyBitmap | postDelete | clean => cases answer

instance (s : ValetSession servers replicas) (row : Fin (replicas + 1)) (swapspace : Swapspace) :
    Decidable (s.RowMapped row swapspace) :=
  decidable_of_iff ((∃ cb : Fin servers, s.cbIndexMap row swapspace = cb.val) ∧
      ∃ rb : Block, s.mappingSwapspaceToRb row swapspace = rb.val)
    ⟨fun ⟨server, block⟩ => ⟨server, block⟩, fun mapped => ⟨mapped.server, mapped.block⟩⟩

instance (s : ValetSession servers replicas) (swapspace : Swapspace) :
    Decidable (s.Indexed swapspace) := inferInstanceAs (Decidable (∀ _, _))

instance (m : Control servers replicas) (cb : Fin servers) (msg : Message) :
    Decidable (m.Awaits cb msg) := by
  unfold Awaits
  split <;> infer_instance

instance (m : Control servers replicas) : Decidable m.MappedBefore := by
  unfold MappedBefore
  split <;> infer_instance

instance (m : Control servers replicas) (swapspaceIndex : Int) :
    Decidable (m.MapsNow swapspaceIndex) := by
  unfold MapsNow
  split <;> infer_instance

instance (m : Control servers replicas) (label : ControlLabel servers replicas) :
    Decidable (RepliesInTurn m label) := by
  apply @ControlLabel.casesOn _ _ (fun label => Decidable (RepliesInTurn m label)) label <;> intros
  case recv cb recv =>
    match recv with
    | .query _ | .message _ => unfold RepliesInTurn; infer_instance
  all_goals unfold RepliesInTurn; infer_instance

instance (m : Control servers replicas) (label : ControlLabel servers replicas) :
    Decidable (RepliesWithRegion m label) := by
  apply @ControlLabel.casesOn _ _ (fun label => Decidable (RepliesWithRegion m label)) label <;>
    intros
  case recv cb recv =>
    match recv with
    | .query _ | .message _ => unfold RepliesWithRegion; infer_instance
  all_goals unfold RepliesWithRegion; infer_instance

instance (m : Control servers replicas) (label : ControlLabel servers replicas) :
    Decidable (UnmapsFirstRow m label) := by
  apply @ControlLabel.casesOn _ _ (fun label => Decidable (m.UnmapsFirstRow label)) label <;> intros
  case clean cb =>
    unfold UnmapsFirstRow
    dsimp only
    match m.handler cb with
    | .waitEvict | .findDest _ | .waitMigMap .. | .waitDone .. | .copyBitmap .. | .sendDelete ..
    | .waitDelete .. => infer_instance
  all_goals unfold UnmapsFirstRow; infer_instance

instance (m : Control servers replicas) (label : ControlLabel servers replicas) :
    Decidable (IndexedStep m label) :=
  decidable_of_iff (RepliesInTurn m label ∧ RepliesWithRegion m label ∧ UnmapsFirstRow m label)
    ⟨fun ⟨turn, region, unmaps⟩ => ⟨turn, region, unmaps⟩,
      fun indexed => ⟨indexed.turn, indexed.region, indexed.unmaps⟩⟩

end Control

end Valet.Bd
