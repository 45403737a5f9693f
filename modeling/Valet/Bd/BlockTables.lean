import Valet.Library.Census
import Valet.Bd.Aliasing

/-!
# The forward and the inverse tables

The rows lead from a swapspace to a block, and the table of every server leads
back.  First writes and whole rounds are steps here: mapping a row and clearing a
block change both sides together, and a round with a destination does the first
in row 0 and undoes it.
-/

namespace Valet.Bd

open Valet.Wire Valet.Library

namespace ValetSession

variable {servers replicas : Nat}

/-- The two sides agree, and the number of mapped blocks is right. -/
structure Consistent (s : ValetSession servers replicas) : Prop where
  agree : ∀ cb rb swapspace, ((s.rbh cb).remoteMapped rb = true ∧
    (s.rbh cb).rbIdxMap rb = (swapspace.val : Int)) ↔ ∃ row, s.Leads row swapspace cb rb
  size : ∀ cb, (s.rbh cb).blockSizeGb = census (s.rbh cb).remoteMapped

/-- Moreover a mapped block has a swapspace, and one row leads to it. -/
structure Settled (s : ValetSession servers replicas) : Prop extends Consistent s where
  named : ∀ cb rb, (s.rbh cb).remoteMapped rb = true →
    ∃ swapspace : Swapspace, (s.rbh cb).rbIdxMap rb = swapspace.val
  single : ∀ row other swapspace cb rb, s.Leads row swapspace cb rb →
    s.Leads other swapspace cb rb → row = other

/-- The tables are the same. -/
structure SameTables (s next : ValetSession servers replicas) : Prop where
  maps : SameMaps s next
  owner : ∀ cb, (next.rbh cb).rbIdxMap = (s.rbh cb).rbIdxMap
  mapped : ∀ cb, (next.rbh cb).remoteMapped = (s.rbh cb).remoteMapped
  size : ∀ cb, (next.rbh cb).blockSizeGb = (s.rbh cb).blockSizeGb

/-- One entry of the rows is set. -/
structure SetsRow (s next : ValetSession servers replicas) (row : Fin (replicas + 1))
    (swapspace : Swapspace) (cbIndex rbIndex : Int) : Prop where
  server : ∀ other at_, next.cbIndexMap other at_ =
    if other = row ∧ at_ = swapspace then cbIndex else s.cbIndexMap other at_
  block : ∀ other at_, next.mappingSwapspaceToRb other at_ =
    if other = row ∧ at_ = swapspace then rbIndex else s.mappingSwapspaceToRb other at_

/-- A block is mapped in the table of its server. -/
structure TakesBlock (s next : ValetSession servers replicas) (cb : Fin servers) (rb : Block)
    (swapspace : Swapspace) : Prop where
  owner : ∀ c i, (next.rbh c).rbIdxMap i =
    if c = cb ∧ i = rb then (swapspace.val : Int) else (s.rbh c).rbIdxMap i
  mapped : ∀ c i, (next.rbh c).remoteMapped i =
    if c = cb ∧ i = rb then true else (s.rbh c).remoteMapped i
  size : ∀ c, (next.rbh c).blockSizeGb = (s.rbh c).blockSizeGb + if c = cb then 1 else 0

/-- A block is cleared in the table of its server. -/
structure ClearsBlock (s next : ValetSession servers replicas) (cb : Fin servers) (rb : Block) :
    Prop where
  owner : ∀ c i, (next.rbh c).rbIdxMap i =
    if c = cb ∧ i = rb then -1 else (s.rbh c).rbIdxMap i
  mapped : ∀ c i, (next.rbh c).remoteMapped i =
    if c = cb ∧ i = rb then false else (s.rbh c).remoteMapped i
  size : ∀ c, (next.rbh c).blockSizeGb = (s.rbh c).blockSizeGb - if c = cb then 1 else 0

variable {s middle next last : ValetSession servers replicas} {cb : Fin servers} {rb : Block}
  {row : Fin (replicas + 1)} {swapspace : Swapspace}

theorem SetsRow.leads {cbIndex rbIndex : Int} {other : Fin (replicas + 1)} {at_ : Swapspace}
    {c : Fin servers} {i : Block} (sets : SetsRow s next row swapspace cbIndex rbIndex) :
    next.Leads other at_ c i ↔
      if other = row ∧ at_ = swapspace then cbIndex = c.val ∧ rbIndex = i.val
      else s.Leads other at_ c i := by
  rw [Leads, sets.server, sets.block]
  split
  · rfl
  · rfl

/-- Mapping a row that is not mapped to a block that is not mapped. -/
theorem Settled.maps (settled : Settled s)
    (unmapped : s.cbIndexMap row swapspace = noCbMapped)
    (free : (s.rbh cb).remoteMapped rb = false)
    (sets : SetsRow s next row swapspace cb.val rb.val)
    (takes : TakesBlock s next cb rb swapspace) : Settled next := by
  have noLead : ∀ c i, ¬ s.Leads row swapspace c i := by
    rintro c i ⟨server, _⟩
    rw [unmapped] at server
    unfold noCbMapped at server
    omega
  have unused : ∀ other at_, ¬ s.Leads other at_ cb rb := by
    intro other at_ leads
    have back := (settled.agree cb rb at_).mpr ⟨other, leads⟩
    rw [free] at back
    cases back.1
  exact
    { agree := by
        intro c i at_
        rw [takes.owner, takes.mapped]
        by_cases here : c = cb ∧ i = rb
        · obtain ⟨rfl, rfl⟩ := here
          rw [if_pos ⟨rfl, rfl⟩, if_pos ⟨rfl, rfl⟩]
          constructor
          · rintro ⟨_, same⟩
            refine ⟨row, sets.leads.mpr ?_⟩
            rw [if_pos ⟨rfl, Fin.ext (by omega)⟩]
            exact ⟨rfl, rfl⟩
          · rintro ⟨other, leads⟩
            have leads := sets.leads.mp leads
            split at leads
            · rename_i same
              exact ⟨rfl, by rw [same.2]⟩
            · exact absurd leads (unused other at_)
        · rw [if_neg here, if_neg here, settled.agree c i at_]
          constructor
          · rintro ⟨other, leads⟩
            refine ⟨other, sets.leads.mpr ?_⟩
            rw [if_neg]
            · exact leads
            · rintro ⟨rfl, rfl⟩
              exact noLead c i leads
          · rintro ⟨other, leads⟩
            have leads := sets.leads.mp leads
            split at leads
            · exact absurd ⟨Fin.ext (by omega), Fin.ext (by omega)⟩ here
            · exact ⟨other, leads⟩
      size := by
        intro c
        rw [takes.size, settled.size c]
        rcases eq_or_ne c cb with rfl | different
        · have marked : (next.rbh c).remoteMapped =
              Function.update (s.rbh c).remoteMapped rb true := by
            funext i
            rw [takes.mapped, Function.update_apply]
            simp
          rw [marked, census_mark free, if_pos rfl]
          rfl
        · have same : (next.rbh c).remoteMapped = (s.rbh c).remoteMapped := by
            funext i
            rw [takes.mapped, if_neg fun both => different both.1]
          rw [same, if_neg different, add_zero]
      named := by
        intro c i mapped
        rw [takes.owner]
        rw [takes.mapped] at mapped
        split
        · exact ⟨swapspace, rfl⟩
        · rename_i elsewhere
          rw [if_neg elsewhere] at mapped
          exact settled.named c i mapped
      single := by
        intro first second at_ c i leads again
        have leads := sets.leads.mp leads
        have again := sets.leads.mp again
        split at leads
        · rename_i same
          split at again
          · rename_i alike
            exact same.1.trans alike.1.symm
          · have isCb : c = cb := Fin.ext (by omega)
            have isRb : i = rb := Fin.ext (by omega)
            rw [isCb, isRb] at again
            exact absurd again (unused second at_)
        · split at again
          · have isCb : c = cb := Fin.ext (by omega)
            have isRb : i = rb := Fin.ext (by omega)
            rw [isCb, isRb] at leads
            exact absurd leads (unused first at_)
          · exact settled.single first second at_ c i leads again }

/-- Clearing a block and unmapping the row that leads to it. -/
theorem Settled.clears (settled : Settled s) (leads : s.Leads row swapspace cb rb)
    (server : ∀ other at_, next.cbIndexMap other at_ =
      if other = row ∧ at_ = swapspace then noCbMapped else s.cbIndexMap other at_)
    (block : next.mappingSwapspaceToRb = s.mappingSwapspaceToRb)
    (clears : ClearsBlock s next cb rb) : Settled next := by
  obtain ⟨mapped, owner⟩ := (settled.agree cb rb swapspace).mpr ⟨row, leads⟩
  have after : ∀ {other at_ c i}, next.Leads other at_ c i ↔
      ¬ (other = row ∧ at_ = swapspace) ∧ s.Leads other at_ c i := by
    intro other at_ c i
    rw [Leads, server, block]
    split
    · rename_i same
      refine iff_of_false ?_ fun both => both.1 same
      rintro ⟨unmapped, _⟩
      unfold noCbMapped at unmapped
      omega
    · rename_i elsewhere
      exact ⟨fun leads => ⟨elsewhere, leads⟩, fun both => both.2⟩
  have only : ∀ {other at_}, s.Leads other at_ cb rb → other = row ∧ at_ = swapspace := by
    intro other at_ again
    have sameAt : at_ = swapspace := by
      have back := ((settled.agree cb rb at_).mpr ⟨other, again⟩).2
      exact Fin.ext (by omega)
    subst sameAt
    exact ⟨settled.single other row at_ cb rb again leads, rfl⟩
  exact
    { agree := by
        intro c i at_
        rw [clears.owner, clears.mapped]
        by_cases here : c = cb ∧ i = rb
        · obtain ⟨rfl, rfl⟩ := here
          rw [if_pos ⟨rfl, rfl⟩, if_pos ⟨rfl, rfl⟩]
          refine iff_of_false ?_ ?_
          · rintro ⟨bad, _⟩
            cases bad
          rintro ⟨other, again⟩
          obtain ⟨elsewhere, again⟩ := after.mp again
          exact elsewhere (only again)
        · rw [if_neg here, if_neg here, settled.agree c i at_]
          constructor
          · rintro ⟨other, again⟩
            refine ⟨other, after.mpr ⟨?_, again⟩⟩
            rintro ⟨rfl, rfl⟩
            have sameServer := again.1.symm.trans leads.1
            have sameBlock := again.2.symm.trans leads.2
            exact here ⟨Fin.ext (by omega), Fin.ext (by omega)⟩
          · rintro ⟨other, again⟩
            exact ⟨other, (after.mp again).2⟩
      size := by
        intro c
        rw [clears.size, settled.size c]
        rcases eq_or_ne c cb with rfl | different
        · have cleared : (next.rbh c).remoteMapped =
              Function.update (s.rbh c).remoteMapped rb false := by
            funext i
            rw [clears.mapped, Function.update_apply]
            simp
          have less := census_clear mapped
          rw [cleared, if_pos rfl]
          omega
        · have same : (next.rbh c).remoteMapped = (s.rbh c).remoteMapped := by
            funext i
            rw [clears.mapped, if_neg fun both => different both.1]
          rw [same, if_neg different, sub_zero]
      named := by
        intro c i still
        rw [clears.owner]
        rw [clears.mapped] at still
        split at still
        · cases still
        · rename_i elsewhere
          rw [if_neg elsewhere]
          exact settled.named c i still
      single := fun first second at_ c i one two =>
        settled.single first second at_ c i (after.mp one).2 (after.mp two).2 }

theorem Settled.same (settled : Settled s) (same : SameTables s next) : Settled next where
  agree := by
    intro c i at_
    rw [same.mapped, same.owner, settled.agree c i at_]
    exact exists_congr fun row => same.maps.leads.symm
  size := fun c => by rw [same.size, same.mapped, settled.size]
  named := fun c i mapped => by
    rw [same.owner]
    rw [same.mapped] at mapped
    exact settled.named c i mapped
  single := fun first second at_ c i one two =>
    settled.single first second at_ c i (same.maps.leads.mp one) (same.maps.leads.mp two)

theorem SameTables.trans (first : SameTables s middle) (second : SameTables middle next) :
    SameTables s next where
  maps := ⟨second.maps.1.trans first.maps.1, second.maps.2.trans first.maps.2⟩
  owner := fun cb => (second.owner cb).trans (first.owner cb)
  mapped := fun cb => (second.mapped cb).trans (first.mapped cb)
  size := fun cb => (second.size cb).trans (first.size cb)

theorem sameTables_of_rbh (maps : SameMaps s next) (same : ∀ cb, next.rbh cb = s.rbh cb) :
    SameTables s next :=
  ⟨maps, fun cb => by rw [same], fun cb => by rw [same], fun cb => by rw [same]⟩

theorem sameTables_setState {state : TestState} : SameTables s (s.setState cb state) :=
  sameTables_of_rbh ⟨rfl, rfl⟩ fun _ => by rw [rbh_setState]

theorem sameTables_queried : SameTables s (s.queried cb) := by
  refine sameTables_of_rbh ?_ fun _ => by rw [rbh_queried]
  unfold queried
  split <;> exact ⟨rfl, rfl⟩

/-- A change that keeps the inverse table. -/
theorem sameTables_modifyRbh {change : RemoteBlockHandler → RemoteBlockHandler}
    (keeps : ∀ rbh, (change rbh).rbIdxMap = rbh.rbIdxMap ∧
      (change rbh).remoteMapped = rbh.remoteMapped ∧
        (change rbh).blockSizeGb = rbh.blockSizeGb) : SameTables s (s.modifyRbh cb change) := by
  have same : ∀ c, ((s.modifyRbh cb change).rbh c).rbIdxMap = (s.rbh c).rbIdxMap ∧
      ((s.modifyRbh cb change).rbh c).remoteMapped = (s.rbh c).remoteMapped ∧
        ((s.modifyRbh cb change).rbh c).blockSizeGb = (s.rbh c).blockSizeGb := by
    intro c
    rcases eq_or_ne c cb with rfl | different
    · rw [rbh_modifyRbh]
      exact keeps _
    · rw [rbh_modifyRbh_of_ne _ different]
      exact ⟨rfl, rfl, rfl⟩
  exact ⟨⟨rfl, rfl⟩, fun c => (same c).1, fun c => (same c).2.1, fun c => (same c).2.2⟩

theorem sameTables_foldl (cbs : List (Fin servers)) : SameTables s (cbs.foldl queried s) := by
  induction cbs generalizing s with
  | nil => exact sameTables_of_rbh ⟨rfl, rfl⟩ fun _ => rfl
  | cons first rest ih => exact sameTables_queried.trans ih

theorem sameTables_sendDone : SameTables s (s.sendDone cb) := by
  unfold sendDone
  split
  · exact sameTables_of_rbh ⟨rfl, rfl⟩ fun _ => rfl
  · split
    · exact sameTables_setState
    · split
      · exact sameTables_modifyRbh fun _ => ⟨rfl, rfl, rfl⟩
      · exact sameTables_of_rbh ⟨rfl, rfl⟩ fun _ => rfl

theorem SameTables.leads {c : Fin servers} {i : Block} (same : SameTables s next) :
    next.Leads row swapspace c i ↔ s.Leads row swapspace c i := same.maps.leads

/-- A block is taken between states that differ elsewhere. -/
theorem TakesBlock.between {first : ValetSession servers replicas}
    (takes : TakesBlock middle next cb rb swapspace) (before : SameTables first middle)
    (after : SameTables next last) : TakesBlock first last cb rb swapspace where
  owner := fun c i => by rw [after.owner, takes.owner, before.owner]
  mapped := fun c i => by rw [after.mapped, takes.mapped, before.mapped]
  size := fun c => by rw [after.size, takes.size, before.size]

theorem SetsRow.between {first : ValetSession servers replicas} {cbIndex rbIndex : Int}
    (sets : SetsRow middle next row swapspace cbIndex rbIndex) (before : SameMaps first middle)
    (after : SameMaps next last) : SetsRow first last row swapspace cbIndex rbIndex where
  server := fun other at_ => by rw [after.1, sets.server, before.1]
  block := fun other at_ => by rw [after.2, sets.block, before.2]

theorem setsRow_set {cbIndex rbIndex : Int} : SetsRow s
    ((s.setRb row swapspace rbIndex).setCbIndex row swapspace cbIndex) row swapspace cbIndex
      rbIndex := by
  constructor
  · intro other at_
    rcases eq_or_ne other row with rfl | different
    · rcases eq_or_ne at_ swapspace with rfl | elsewhere
      · simp [setCbIndex]
      · simp [setCbIndex, setRb, elsewhere]
    · simp [setCbIndex, setRb, different]
  · intro other at_
    rcases eq_or_ne other row with rfl | different
    · rcases eq_or_ne at_ swapspace with rfl | elsewhere
      · simp [setCbIndex, setRb]
      · simp [setCbIndex, setRb, elsewhere]
    · simp [setCbIndex, setRb, different]

/-- One row of `valet_remote_block_map`. -/
def mapReplica (s : ValetSession servers replicas) (selectIdx : Swapspace) (cb : Fin servers)
    (row : Fin (replicas + 1)) (reply : Message) : Except Halt (ValetSession servers replicas) := do
  let s ← (s.requestMrMap cb row selectIdx).recvDone cb (.message reply)
  if (s.cbList cb).state = .recvMrMap then
    return { s with rdmaOn := true }
  else
    .error .spin

/-- `get_cb` for a first write; the servers of the rows answer the replies. -/
def getCb (s : ValetSession servers replicas) (selectIdx : Swapspace)
    (replicaList : Fin (replicas + 1) → Fin servers) (replies : Fin (replicas + 1) → Message) :
    Except Halt (ValetSession servers replicas) :=
  if s.cbIndexMap 0 selectIdx = noCbMapped then
    (List.finRange (replicas + 1)).foldlM
      (fun s row => s.mapReplica selectIdx (replicaList row) row (replies row))
      ((List.ofFn replicaList).foldl queried s)
  else
    .ok s

/-- A round of `migration_handler` without a destination. -/
def dropBlock (s : ValetSession servers replicas) (oldCb : Fin servers) (evict : Message) :
    Except Halt (ValetSession servers replicas) := do
  let s ← s.recvDone oldCb (.message evict)
  let (round, s) ← s.takeEvict oldCb
  ((s.sendDeleteRb oldCb).sendDone oldCb).cleanRound oldCb none round

/-- The reply to the request for a row. -/
structure RepliesTo (reply : Message) (selectIdx : Swapspace) (row : Fin (replicas + 1)) :
    Prop where
  type : reply.type = .respMrMap
  swapspace : reply.sizeGb = selectIdx.val
  row : reply.replicaIndex = row.val

theorem mapReplica_ok {reply : Message} (answers : RepliesTo reply swapspace row)
    (ran : s.mapReplica swapspace cb row reply = .ok next) :
    (reply.firstRkey = none ∧ SameTables s next) ∨ ∃ i, reply.firstRkey = some i ∧
      SetsRow s next row swapspace cb.val i.val ∧ TakesBlock s next cb i swapspace := by
  obtain ⟨received, receives, rest⟩ := bind_eq_ok.mp ran
  split at rest
  · rename_i arrived
    cases rest
    have asked : SameTables s (s.requestMrMap cb row swapspace) :=
      sameTables_of_rbh ⟨rfl, rfl⟩ fun _ => by rw [rbh_requestMrMap]
    have on : SameTables received { received with rdmaOn := true } :=
      sameTables_of_rbh ⟨rfl, rfl⟩ fun _ => rfl
    cases receives_of_ok receives with
    | ignored error =>
        rw [error] at arrived
        cases arrived
    | refused reason =>
        rw [state_setState] at arrived
        cases arrived
    | migMap _ type | done _ type | evict _ type =>
        rw [answers.type] at type
        cases type
    | mrMap alive type inits =>
        have started : SameTables (s.requestMrMap cb row swapspace)
            (((s.requestMrMap cb row swapspace).setCbState cb .mapped).setState cb .recvMrMap) :=
          sameTables_of_rbh ⟨rfl, rfl⟩ fun _ => by rw [rbh_setState, rbh_setCbState]
        cases inits with
        | nothing empty => exact Or.inl ⟨empty, (asked.trans started).trans on⟩
        | @mapped i at_ select first isRow isSelect =>
            have sameRow : at_ = row := Fin.ext (by have := answers.row; omega)
            have sameSelect : select = swapspace := Fin.ext (by have := answers.swapspace; omega)
            subst sameRow
            subst sameSelect
            right
            refine ⟨i, first, ?_, ?_⟩
            · exact setsRow_set.between (asked.trans started).maps on.maps
            · have takes : TakesBlock
                  (((s.requestMrMap cb at_ select).setCbState cb .mapped).setState cb .recvMrMap)
                  (((((s.requestMrMap cb at_ select).setCbState cb .mapped).setState cb
                    .recvMrMap).modifyRbh cb fun rbh => rbh.mapBlock reply i).setRb at_ select
                      i.val |>.setCbIndex at_ select cb.val) cb i select := by
                constructor
                · intro c j
                  rw [rbh_setCbIndex, rbh_setRb]
                  rcases eq_or_ne c cb with rfl | different
                  · rw [rbh_modifyRbh]
                    simp [RemoteBlockHandler.mapBlock, Function.update_apply, isSelect]
                  · rw [rbh_modifyRbh_of_ne _ different, if_neg fun both => different both.1]
                · intro c j
                  rw [rbh_setCbIndex, rbh_setRb]
                  rcases eq_or_ne c cb with rfl | different
                  · rw [rbh_modifyRbh]
                    simp [RemoteBlockHandler.mapBlock, Function.update_apply]
                  · rw [rbh_modifyRbh_of_ne _ different, if_neg fun both => different both.1]
                · intro c
                  rw [rbh_setCbIndex, rbh_setRb]
                  rcases eq_or_ne c cb with rfl | different
                  · rw [rbh_modifyRbh]
                    simp [RemoteBlockHandler.mapBlock]
                  · rw [rbh_modifyRbh_of_ne _ different, if_neg different, add_zero]
              exact takes.between (asked.trans started) on
  · cases rest

/-- The rows that are still to be mapped, and the blocks that the replies bring. -/
structure Mappable (s : ValetSession servers replicas) (selectIdx : Swapspace)
    (replicaList : Fin (replicas + 1) → Fin servers) (replies : Fin (replicas + 1) → Message)
    (rest : List (Fin (replicas + 1))) : Prop where
  unmapped : ∀ row ∈ rest, s.cbIndexMap row selectIdx = noCbMapped
  free : ∀ row ∈ rest, ∀ i, (replies row).firstRkey = some i →
    (s.rbh (replicaList row)).remoteMapped i = false

theorem Settled.mapReplicas {selectIdx : Swapspace}
    {replicaList : Fin (replicas + 1) → Fin servers} {replies : Fin (replicas + 1) → Message}
    (distinct : Function.Injective replicaList)
    (answers : ∀ row, RepliesTo (replies row) selectIdx row)
    {rest : List (Fin (replicas + 1))} (once : rest.Nodup) (settled : Settled s)
    (mappable : Mappable s selectIdx replicaList replies rest)
    (ran : rest.foldlM (fun s row => s.mapReplica selectIdx (replicaList row) row (replies row)) s =
      .ok next) : Settled next := by
  induction rest generalizing s with
  | nil =>
      cases ran
      exact settled
  | cons row rest ih =>
      rw [List.foldlM_cons] at ran
      obtain ⟨after, mapped, tail⟩ := bind_eq_ok.mp ran
      rw [List.nodup_cons] at once
      rcases mapReplica_ok (answers row) mapped with ⟨_, same⟩ | ⟨i, first, sets, takes⟩
      · refine ih once.2 (settled.same same) ?_ tail
        constructor
        · intro other member
          rw [same.maps.1]
          exact mappable.unmapped other (List.mem_cons_of_mem row member)
        · intro other member j first
          rw [same.mapped]
          exact mappable.free other (List.mem_cons_of_mem row member) j first
      · have mappedRow := settled.maps (mappable.unmapped row List.mem_cons_self)
          (mappable.free row List.mem_cons_self i first) sets takes
        refine ih once.2 mappedRow ?_ tail
        constructor
        · intro other member
          have different : other ≠ row := fun same => once.1 (same ▸ member)
          rw [sets.server, if_neg fun both => different both.1]
          exact mappable.unmapped other (List.mem_cons_of_mem row member)
        · intro other member j first
          have different : other ≠ row := fun same => once.1 (same ▸ member)
          rw [takes.mapped, if_neg fun both => different (distinct both.1)]
          exact mappable.free other (List.mem_cons_of_mem row member) j first

/-- The `EVICT` names a block that the server has and the row that leads to it. -/
structure NamesBlock (s : ValetSession servers replicas) (oldCb : Fin servers) (evict : Message)
    (row : Fin (replicas + 1)) (swapspace : Swapspace) (rb : Block) : Prop where
  alive : s.Alive oldCb
  type : evict.type = .evict
  isRow : evict.replicaIndex = row.val
  isSwapspace : evict.sizeGb = swapspace.val
  key : ∀ i, evict.rkey i ≠ 0 ↔ i = rb
  leads : s.Leads row swapspace oldCb rb

/-- The old server has one mark, on the block. -/
def MarksOnly (s : ValetSession servers replicas) (cb : Fin servers) (rb : Block) : Prop :=
  ∀ i, (s.rbh cb).migRbIdx i = true ↔ i = rb

theorem MarksOnly.of_eq (marks : s.MarksOnly cb rb)
    (same : (next.rbh cb).migRbIdx = (s.rbh cb).migRbIdx) : next.MarksOnly cb rb := by
  intro i
  rw [same]
  exact marks i

/-- An `EVICT` that a handler takes up marks the block, and changes no table. -/
theorem evict_taken {oldCb : Fin servers} {evict : Message} {round : Round}
    (names : NamesBlock s oldCb evict row swapspace rb)
    (received : Receives s oldCb (.message evict) middle)
    (takes : TakesEvict middle oldCb round next) : SameTables s next ∧
      next.MarksOnly oldCb rb ∧ round = Round.ofEvict evict := by
  have isEvicted := received.evicted names.alive names.type
  have arrived : SameTables s middle := by
    rw [isEvicted]
    exact sameTables_setState.trans (sameTables_modifyRbh fun _ => ⟨rfl, rfl, rfl⟩)
  have marks : middle.MarksOnly oldCb rb := by
    intro i
    rw [isEvicted, rbh_modifyRbh, ← names.key i]
    simp [RemoteBlockHandler.evictHandlerPrep]
  refine ⟨?_, marks.of_eq takes.migRbIdx, received.takenRound names.alive names.type takes⟩
  cases takes with
  | @taken src at_ block evicted isSrc isAt isBlock =>
      have migrating : SameTables middle (middle.setCbState src .migrating) :=
        sameTables_of_rbh ⟨rfl, rfl⟩ fun _ => rfl
      exact (arrived.trans migrating).trans (sameTables_modifyRbh fun _ => ⟨rfl, rfl, rfl⟩)

theorem sameTables_clearNew (newCb : Option (Fin servers)) : SameTables s (s.clearNew newCb) := by
  cases newCb with
  | none => exact sameTables_of_rbh ⟨rfl, rfl⟩ fun _ => rfl
  | some newCb =>
      have cleared : SameTables s (s.modifyRbh newCb fun rbh =>
          { rbh with migRbIdx := fun _ => false }) := sameTables_modifyRbh fun _ => ⟨rfl, rfl, rfl⟩
      exact cleared

theorem sameTables_sendDeleteRb : SameTables s (s.sendDeleteRb cb) :=
  sameTables_of_rbh ⟨rfl, rfl⟩ fun _ => rbh_sendDeleteRb s cb _

/-- Clearing the one marked block. -/
theorem clearsBlock_clearMarked {oldCb : Fin servers} (marks : s.MarksOnly oldCb rb) :
    ClearsBlock s (s.modifyRbh oldCb RemoteBlockHandler.clearMarked) oldCb rb := by
  have marked : (s.rbh oldCb).migRbIdx = fun i => decide (i = rb) := by
    funext i
    rw [Bool.eq_iff_iff, marks i, decide_eq_true_iff]
  have one : (List.finRange maxMrSizeGb).countP (s.rbh oldCb).migRbIdx = 1 := by
    rw [marked]
    exact List.count_eq_one_of_mem (List.nodup_finRange _) (List.mem_finRange rb)
  constructor
  · intro c i
    rcases eq_or_ne c oldCb with rfl | different
    · rw [rbh_modifyRbh]
      simp [RemoteBlockHandler.clearMarked, marked]
    · rw [rbh_modifyRbh_of_ne _ different, if_neg fun both => different both.1]
  · intro c i
    rcases eq_or_ne c oldCb with rfl | different
    · rw [rbh_modifyRbh]
      rcases eq_or_ne i rb with rfl | other
      · simp [RemoteBlockHandler.clearMarked, marked]
      · simp [RemoteBlockHandler.clearMarked, marked, other]
    · rw [rbh_modifyRbh_of_ne _ different, if_neg fun both => different both.1]
  · intro c
    rcases eq_or_ne c oldCb with rfl | different
    · rw [rbh_modifyRbh, if_pos rfl]
      simp [RemoteBlockHandler.clearMarked, one]
    · rw [rbh_modifyRbh_of_ne _ different, if_neg different, sub_zero]

/-- The end of a round keeps the two sides in step. -/
theorem Settled.cleans {oldCb : Fin servers} {newCb : Option (Fin servers)} {round : Round}
    (settled : Settled s) (cleans : Cleans s oldCb newCb round next)
    (marks : s.MarksOnly oldCb rb) (leads : s.Leads row swapspace oldCb rb)
    (isRow : round.replicaIndex = row.val)
    (isSwapspace : round.clientEvictRbIndex = swapspace.val) : Settled next := by
  cases cleans with
  | @cleaned middle src at_ block deleted resets isSrc isAt isBlock =>
      have ended : SameTables middle
          ((if newCb.isSome then middle.setCbState src .mapped else middle).modifyRbh oldCb
            fun rbh => rbh.withRbState block .inactive) := by
        have stated : SameTables middle
            (if newCb.isSome then middle.setCbState src .mapped else middle) := by
          split <;> exact sameTables_of_rbh ⟨rfl, rfl⟩ fun _ => rfl
        exact stated.trans (sameTables_modifyRbh fun _ => ⟨rfl, rfl, rfl⟩)
      cases resets with
      | unmarked clear =>
          have mark := (marks rb).mpr rfl
          rw [clear rb] at mark
          cases mark
      | @cleared i resetRow resetAt marked isResetRow isResetAt =>
          have sameRow : resetRow = row := Fin.ext (by omega)
          have sameAt : resetAt = swapspace := Fin.ext (by omega)
          subst sameRow
          subst sameAt
          have finish := (sameTables_clearNew newCb).trans ended
          refine settled.clears leads ?_ ?_ ?_
          · intro other elsewhere
            rw [finish.maps.1]
            rcases eq_or_ne other resetRow with rfl | differentRow
            · rcases eq_or_ne elsewhere resetAt with rfl | different
              · simp [setCbIndex]
              · simp [setCbIndex, modifyRbh, setCb, different]
            · simp [setCbIndex, modifyRbh, setCb, differentRow]
          · rw [finish.maps.2]
            rfl
          · have clears := clearsBlock_clearMarked marks
            exact
              { owner := fun c j => by rw [finish.owner, rbh_setCbIndex, clears.owner]
                mapped := fun c j => by rw [finish.mapped, rbh_setCbIndex, clears.mapped]
                size := fun c => by rw [finish.size, rbh_setCbIndex, clears.size] }

theorem Settled.dropBlock {oldCb : Fin servers} {evict : Message} (settled : Settled s)
    (names : NamesBlock s oldCb evict row swapspace rb)
    (ran : s.dropBlock oldCb evict = .ok next) : Settled next := by
  obtain ⟨evicted, received, ran⟩ := bind_eq_ok.mp ran
  obtain ⟨⟨round, taken⟩, took, clean⟩ := bind_eq_ok.mp ran
  obtain ⟨same, marks, isRound⟩ := evict_taken names (receives_of_ok received) (takesEvict_of_ok took)
  have sent : SameTables taken ((taken.sendDeleteRb oldCb).sendDone oldCb) :=
    sameTables_sendDeleteRb.trans sameTables_sendDone
  have marked : ((taken.sendDeleteRb oldCb).sendDone oldCb).MarksOnly oldCb rb := by
    apply marks.of_eq
    rw [migRbIdx_sendDone, rbh_sendDeleteRb]
  have leads := sent.leads.mpr (same.leads.mpr names.leads)
  subst isRound
  exact ((settled.same same).same sent).cleans (cleans_of_ok clean) marked leads names.isRow
    names.isSwapspace

/-- The answer of the new server: one block that it has not handed out. -/
structure OffersBlock (s : ValetSession servers replicas) (newCb : Fin servers)
    (reply : Message) (swapspace : Swapspace) (rb : Block) : Prop where
  type : reply.type = .respMigMap
  isCb : reply.cbIndex = newCb.val
  isBlock : reply.rbIndex = rb.val
  isSwapspace : reply.sizeGb = swapspace.val
  key : ∀ i, reply.rkey i ≠ 0 ↔ i = rb
  free : (s.rbh newCb).remoteMapped rb = false

/-- A destination arrives. -/
theorem offer_taken {reply : Message} {newCb : Fin servers} (alive : s.Alive newCb)
    (offers : OffersBlock s newCb reply swapspace rb)
    (received : Receives s newCb (.message reply) next) :
    SameMaps s next ∧ TakesBlock s next newCb rb swapspace ∧
      (next.rbh newCb).dest = ⟨newCb.val, rb.val⟩ := by
  have keyed : ∀ i, (reply.rkey i != 0) = decide (i = rb) := by
    intro i
    rw [Bool.eq_iff_iff, bne_iff_ne, offers.key i, decide_eq_true_iff]
  have one : RemoteBlockHandler.keys reply = 1 := by
    unfold RemoteBlockHandler.keys
    rw [funext keyed]
    exact List.count_eq_one_of_mem (List.nodup_finRange _) (List.mem_finRange rb)
  rw [received.migMapped alive offers.type]
  refine ⟨⟨rfl, rfl⟩, ?_, ?_⟩
  · constructor
    · intro c i
      rcases eq_or_ne c newCb with rfl | different
      · rw [rbh_modifyRbh, rbh_setState]
        simp [RemoteBlockHandler.valetMigrationBlockInit, keyed, offers.isSwapspace]
      · rw [rbh_modifyRbh_of_ne _ different, rbh_setState, if_neg fun both => different both.1]
    · intro c i
      rcases eq_or_ne c newCb with rfl | different
      · rw [rbh_modifyRbh, rbh_setState]
        rcases eq_or_ne i rb with rfl | other
        · simp [RemoteBlockHandler.valetMigrationBlockInit, keyed]
        · simp [RemoteBlockHandler.valetMigrationBlockInit, keyed, other]
      · rw [rbh_modifyRbh_of_ne _ different, rbh_setState, if_neg fun both => different both.1]
    · intro c
      rcases eq_or_ne c newCb with rfl | different
      · rw [rbh_modifyRbh, rbh_setState, if_pos rfl]
        simp [RemoteBlockHandler.valetMigrationBlockInit, one]
      · rw [rbh_modifyRbh_of_ne _ different, rbh_setState, if_neg different, add_zero]
  · rw [rbh_modifyRbh]
    simp [RemoteBlockHandler.dest, RemoteBlockHandler.valetMigrationBlockInit, offers.isCb,
      offers.isBlock]

theorem Copies.sameTables {oldCb newCb : Fin servers} {round : Round} {dest : Dest}
    (copies : Copies s oldCb newCb round dest next) : SameTables s next := by
  cases copies with
  | copied => exact sameTables_modifyRbh fun _ => ⟨rfl, rfl, rfl⟩

theorem Remaps.sameTables {oldCb newCb : Fin servers} {round : Round} {dest : Dest}
    (remaps : Remaps s oldCb newCb round dest next)
    (isSwapspace : round.clientEvictRbIndex = swapspace.val) :
    SameTables ((s.setRb 0 swapspace dest.rbIndex).setCbIndex 0 swapspace dest.cbIndex) next := by
  cases remaps with
  | @moved at_ done isAt =>
      have same : at_ = swapspace := Fin.ext (by omega)
      subst same
      exact sameTables_modifyRbh fun _ => ⟨rfl, rfl, rfl⟩

theorem Receives.sameTables {msg : Message} (type : msg.type = .doneMigration)
    (receives : Receives s cb (.message msg) next) : SameTables s next := by
  cases receives with
  | ignored => exact sameTables_of_rbh ⟨rfl, rfl⟩ fun _ => rfl
  | refused => exact sameTables_setState
  | migMap _ other | mrMap _ other | evict _ other =>
      rw [type] at other
      cases other
  | done => exact sameTables_setState.trans (sameTables_modifyRbh fun _ => ⟨rfl, rfl, rfl⟩)

/-- A round of a row other than row 0, when row 0 is not mapped: the destination goes to row 0,
and the row of the round is the one that is unmapped. -/
theorem Settled.migrateBlock {oldCb newCb : Fin servers} {evict reply : Message} {block : Block}
    {writes : List (Nat × Nat)} {e : RoundEnd servers replicas} {destRb : Block}
    (settled : Settled s) (names : NamesBlock s oldCb evict row swapspace rb)
    (different : newCb ≠ oldCb) (offers : OffersBlock s newCb reply swapspace destRb)
    (other : row ≠ 0) (unmapped : s.cbIndexMap 0 swapspace = noCbMapped)
    (ran : s.migrateBlock oldCb newCb evict reply block writes = .ok e) : Settled e.last := by
  cases migrates_of_ok ran with
  | @stages evicted taken answered doned remapped copied last round change received takes answer
      done remaps copies cleans =>
      obtain ⟨same, marks, isRound⟩ := evict_taken names received takes
      subst isRound
      have asked : SameTables taken ((taken.queried newCb).modifySendBuf newCb change) :=
        sameTables_queried.trans
          (sameTables_of_rbh ⟨rfl, rfl⟩ fun _ => by rw [rbh_modifySendBuf])
      have before := same.trans asked
      have offered : OffersBlock ((taken.queried newCb).modifySendBuf newCb change) newCb reply
          swapspace destRb :=
        { offers with free := by rw [before.mapped]; exact offers.free }
      obtain ⟨maps, took, isDest⟩ := offer_taken (alive_queried change) offered answer
      rw [isDest] at remaps copies
      have recorded : SameTables answered
          (answered.modifyRbh oldCb fun rbh => rbh.recordWrites block writes) :=
        sameTables_modifyRbh fun _ => ⟨rfl, rfl, rfl⟩
      have finished : SameTables answered doned := recorded.trans (done.sameTables rfl)
      have moved := remaps.sameTables names.isSwapspace
      -- row 0 gets the destination, as in a first write
      have taking := took.between before finished
      have taken' : TakesBlock s remapped newCb destRb swapspace :=
        { owner := fun c i => by rw [moved.owner]; exact taking.owner c i
          mapped := fun c i => by rw [moved.mapped]; exact taking.mapped c i
          size := fun c => by rw [moved.size]; exact taking.size c }
      have still : SameMaps s doned :=
        ⟨finished.maps.1.trans (maps.1.trans before.maps.1),
          finished.maps.2.trans (maps.2.trans before.maps.2)⟩
      have pointed : SetsRow s remapped 0 swapspace newCb.val destRb.val :=
        setsRow_set.between still moved.maps
      have mapped := settled.maps unmapped offers.free pointed taken'
      -- the row of the round still leads to the evicted block
      have leads : remapped.Leads row swapspace oldCb rb := by
        rw [pointed.leads, if_neg fun both => other both.1]
        exact names.leads
      have sent : SameTables remapped ((copied.sendDeleteRb oldCb).sendDone oldCb) :=
        copies.sameTables.trans (sameTables_sendDeleteRb.trans sameTables_sendDone)
      have marked : ((copied.sendDeleteRb oldCb).sendDone oldCb).MarksOnly oldCb rb := by
        have old : answered.rbh oldCb = taken.rbh oldCb := by
          rw [answer.rbh_of_ne different.symm, rbh_modifySendBuf, rbh_queried]
        apply marks.of_eq
        rw [migRbIdx_sendDone, rbh_sendDeleteRb, copies.migRbIdx, remaps.migRbIdx,
          done.migRbIdx rfl, rbh_modifyRbh, old]
        rfl
      exact (mapped.same sent).cleans cleans marked (sent.leads.mpr leads) names.isRow
        names.isSwapspace

theorem Settled.getCb {selectIdx : Swapspace} {replicaList : Fin (replicas + 1) → Fin servers}
    {replies : Fin (replicas + 1) → Message} (settled : Settled s)
    (distinct : Function.Injective replicaList)
    (answers : ∀ row, RepliesTo (replies row) selectIdx row)
    (free : ∀ row i, (replies row).firstRkey = some i →
      (s.rbh (replicaList row)).remoteMapped i = false)
    (unmapped : s.cbIndexMap 0 selectIdx = noCbMapped →
      ∀ row, s.cbIndexMap row selectIdx = noCbMapped)
    (ran : s.getCb selectIdx replicaList replies = .ok next) : Settled next := by
  unfold ValetSession.getCb at ran
  split at ran
  · rename_i first
    have asked : SameTables s ((List.ofFn replicaList).foldl queried s) := sameTables_foldl _
    refine (settled.same asked).mapReplicas distinct answers (List.nodup_finRange _) ?_ ran
    constructor
    · intro row _
      rw [asked.maps.1]
      exact unmapped first row
    · intro row _ i found
      rw [asked.mapped]
      exact free row i found
  · cases ran
    exact settled

theorem settled_init : Settled (init : ValetSession servers replicas) where
  agree := by
    intro cb rb swapspace
    refine iff_of_false (fun bad => nomatch bad.1) ?_
    rintro ⟨row, unmapped, _⟩
    have unmapped : (-1 : Int) = cb.val := unmapped
    omega
  size := by
    intro cb
    have none : census (fun _ : Block => false) = 0 := census_none
    exact (congrArg Nat.cast none).symm
  named := fun _ _ mapped => nomatch mapped
  single := by
    rintro row other swapspace cb rb ⟨unmapped, _⟩
    have unmapped : (-1 : Int) = cb.val := unmapped
    omega

/-- A first write, or a whole round. -/
inductive TableLabel (servers replicas : Nat) where
  | getCb (selectIdx : Swapspace) (replicaList : Fin (replicas + 1) → Fin servers)
      (replies : Fin (replicas + 1) → Message)
  | drop (oldCb : Fin servers) (evict : Message)
  | migrate (oldCb newCb : Fin servers) (evict reply : Message) (rb : Block)
      (writes : List (Nat × Nat))

def tableStep (s : ValetSession servers replicas) :
    TableLabel servers replicas → Option (ValetSession servers replicas)
  | .getCb selectIdx replicaList replies => (s.getCb selectIdx replicaList replies).toOption
  | .drop oldCb evict => (s.dropBlock oldCb evict).toOption
  | .migrate oldCb newCb evict reply rb writes =>
      ((s.migrateBlock oldCb newCb evict reply rb writes).map RoundEnd.last).toOption

/-- Servers are picked once, replies answer their requests with regions that are not mapped, and
an `EVICT` names a mapped block. -/
def InOrder (s : ValetSession servers replicas) : TableLabel servers replicas → Prop
  | .getCb selectIdx replicaList replies => Function.Injective replicaList ∧
      (∀ row, RepliesTo (replies row) selectIdx row) ∧
        ∀ row i, (replies row).firstRkey = some i →
          (s.rbh (replicaList row)).remoteMapped i = false
  | .drop oldCb evict => ∃ row swapspace rb, NamesBlock s oldCb evict row swapspace rb
  | .migrate oldCb newCb evict reply _ _ => newCb ≠ oldCb ∧
      ∃ row swapspace rb, NamesBlock s oldCb evict row swapspace rb ∧
        ∃ destRb, OffersBlock s newCb reply swapspace destRb

/-- No row of the swapspace is mapped when row 0 is not; a round gets a destination only for
another row, with row 0 not mapped. -/
def KeepsTables (s : ValetSession servers replicas) : TableLabel servers replicas → Prop
  | .getCb selectIdx _ _ => s.cbIndexMap 0 selectIdx = noCbMapped →
      ∀ row, s.cbIndexMap row selectIdx = noCbMapped
  | .drop _ _ => True
  | .migrate _ _ evict _ _ _ => evict.replicaIndex ≠ 0 ∧
      ∀ swapspace : Swapspace, evict.sizeGb = swapspace.val → s.cbIndexMap 0 swapspace = noCbMapped

def OrderlyStep (s : ValetSession servers replicas) (label : TableLabel servers replicas) : Prop :=
  InOrder s label ∧ KeepsTables s label

theorem Settled.step {label : TableLabel servers replicas} (settled : Settled s)
    (guard : OrderlyStep s label) (edge : s.tableStep label = some next) : Settled next := by
  obtain ⟨order, keeps⟩ := guard
  cases label with
  | getCb selectIdx replicaList replies =>
      obtain ⟨distinct, answers, free⟩ := order
      exact settled.getCb distinct answers free keeps (toOption_eq_some edge)
  | drop oldCb evict =>
      obtain ⟨row, swapspace, rb, names⟩ := order
      exact settled.dropBlock names (toOption_eq_some edge)
  | migrate oldCb newCb evict reply rb writes =>
      obtain ⟨different, row, swapspace, block, names, destRb, offers⟩ := order
      obtain ⟨other, unmapped⟩ := keeps
      cases ran : s.migrateBlock oldCb newCb evict reply rb writes with
      | error halt =>
          rw [tableStep, ran] at edge
          cases edge
      | ok e =>
          rw [tableStep, ran] at edge
          cases edge
          refine settled.migrateBlock names different offers ?_
            (unmapped swapspace names.isSwapspace) ran
          rintro rfl
          exact other names.isRow

/-- As long as rounds get a destination for an unmapped row 0 only, and no swapspace is mapped
anew with a row left, the tables agree. -/
theorem tables_consistent {labels : List (TableLabel servers replicas)}
    {last : ValetSession servers replicas} (run : Run tableStep OrderlyStep init labels last) :
    last.Consistent := by
  have settled : Settled last :=
    run.preserves (fun settled guard edge => settled.step guard edge) settled_init
  exact settled.toConsistent

/-- A first write to the first swapspace, which goes to the first block of server 0. -/
def writeFirst : TableLabel 2 0 :=
  .getCb firstSwapspace (fun _ => 0) fun _ => blockMessage .respMrMap 0 firstSwapspace firstBlock

theorem writeFirst_inOrder : InOrder (init : ValetSession 2 0) writeFirst :=
  ⟨fun i j _ => (Fin.fin_one_eq_zero i).trans (Fin.fin_one_eq_zero j).symm,
    fun row => ⟨rfl, rfl, by rw [Fin.fin_one_eq_zero row]; rfl⟩, fun _ _ _ => rfl⟩

theorem key_blockMessage {type : MsgOpcode} {cbIndex : Int} {swapspace : Swapspace} {rb : Block}
    (i : Block) : (blockMessage type cbIndex swapspace rb).rkey i ≠ 0 ↔ i = rb := by
  rcases eq_or_ne i rb with rfl | different
  · simp [blockMessage]
  · simp [blockMessage, different]

/-- After the first write the server can evict the block, with a destination or without. -/
theorem writeFirst_ends : ∃ s : ValetSession 2 0, tableStep init writeFirst = some s ∧
    NamesBlock s 0 evictFirst 0 firstSwapspace firstBlock ∧
      (s.rbh 1).remoteMapped firstBlock = false ∧
        (∃ next, s.tableStep (.drop 0 evictFirst) = some next) ∧
          ∃ next, s.tableStep (.migrate 0 1 evictFirst offerFirst firstBlock []) = some next ∧
            (next.rbh 1).remoteMapped firstBlock = true ∧
              (next.rbh 1).rbIdxMap firstBlock = (firstSwapspace.val : Int) ∧
                next.cbIndexMap 0 firstSwapspace = noCbMapped := by
  have ran : ((tableStep (init : ValetSession 2 0) writeFirst).map fun s =>
      decide (s.Alive 0 ∧ s.Leads 0 firstSwapspace 0 firstBlock) &&
        !(s.rbh 1).remoteMapped firstBlock && (s.tableStep (.drop 0 evictFirst)).isSome &&
          ((s.tableStep (.migrate 0 1 evictFirst offerFirst firstBlock [])).map fun next =>
            decide ((next.rbh 1).remoteMapped firstBlock = true ∧
              (next.rbh 1).rbIdxMap firstBlock = (firstSwapspace.val : Int) ∧
                next.cbIndexMap 0 firstSwapspace = noCbMapped)).getD false) = some true := by
    decide +kernel
  obtain ⟨s, mapped, checks⟩ := Option.map_eq_some_iff.mp ran
  simp only [Bool.and_eq_true, decide_eq_true_eq, Bool.not_eq_true', Option.isSome_iff_exists]
    at checks
  obtain ⟨⟨⟨⟨alive, leads⟩, free⟩, dropped⟩, moved⟩ := checks
  refine ⟨s, mapped, ⟨alive, rfl, rfl, rfl, key_blockMessage, leads⟩, free, dropped, ?_⟩
  cases migrated : s.tableStep (.migrate 0 1 evictFirst offerFirst firstBlock []) with
  | none =>
      rw [migrated] at moved
      cases moved
  | some next =>
      rw [migrated] at moved
      exact ⟨next, rfl, of_decide_eq_true moved⟩

theorem tables_consistent_drop : ∃ last : ValetSession 2 0,
    exec tableStep init [writeFirst, .drop 0 evictFirst] = some last ∧ last.Consistent := by
  obtain ⟨s, mapped, names, _, ⟨next, dropped⟩, _⟩ := writeFirst_ends
  have run : Run tableStep OrderlyStep (init : ValetSession 2 0) [writeFirst, .drop 0 evictFirst]
      next :=
    .head ⟨writeFirst_inOrder, fun _ _ => rfl⟩ mapped
      (.head ⟨⟨0, firstSwapspace, firstBlock, names⟩, trivial⟩ dropped (.refl next))
  exact ⟨next, run.exec_eq, tables_consistent run⟩

/-- The destination of a round stays mapped, and no row leads to it. -/
theorem migration_orphans_block : ¬ ∀ (labels : List (TableLabel 2 0)) (last : ValetSession 2 0),
    Run tableStep InOrder init labels last → last.Consistent := by
  intro claim
  obtain ⟨s, mapped, names, free, _, next, migrated, taken, owner, unmapped⟩ := writeFirst_ends
  have offers : OffersBlock s 1 offerFirst firstSwapspace firstBlock :=
    ⟨rfl, rfl, rfl, rfl, key_blockMessage, free⟩
  have run : Run tableStep InOrder (init : ValetSession 2 0)
      [writeFirst, .migrate 0 1 evictFirst offerFirst firstBlock []] next :=
    .head writeFirst_inOrder mapped
      (.head ⟨by decide, 0, firstSwapspace, firstBlock, names, firstBlock, offers⟩ migrated
        (.refl next))
  obtain ⟨row, server, _⟩ := ((claim _ next run).agree 1 firstBlock firstSwapspace).mp
    ⟨taken, owner⟩
  rw [Fin.fin_one_eq_zero row, unmapped] at server
  exact absurd server (by decide)

end ValetSession

end Valet.Bd
