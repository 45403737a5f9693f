import Valet.Bd.BlockTables
import Valet.Bd.Disconnect

/-!
# The tables when a server disconnects

`valet_disconnect_handler` goes over the table of the blocks of the server.  It
means to clear the entry of each swapspace there, but
`cb_index_map + sess_rb_index` is a place in the array of the rows, which lies in
the session before the array of the other rows, and not an entry of a row.  What
clears an entry in the end is that the swapspace is mapped anew.  Before that the
handler settles the requests in flight, through the pools that lie in the session
behind the two arrays.
-/

namespace Valet.Bd

open Valet.Wire Valet.Library

/-- The servers that `find_the_best_node` picks for the rows, and their replies. -/
structure Picks (servers replicas : Nat) where
  replicaList : Fin (replicas + 1) → Fin servers
  replies : Fin (replicas + 1) → Message

/-- How a swapspace is mapped anew: the servers that `find_the_best_node` asks, and those that it
picks if there are enough.  The states of the servers only go from idle to connected and to mapped
meanwhile. -/
structure Remap {servers replicas : Nat} (s : ValetSession servers replicas) (c : Fin servers)
    (selectIdx : Swapspace) where
  asked : List (Fin servers)
  picks : Option (Picks servers replicas)
  other : ∀ cb ∈ asked, cb ≠ c
  healthy : ∀ cb ∈ asked, s.cbStateList cb = .idle ∨ s.cbStateList cb = .connected ∨
    s.cbStateList cb = .mapped
  picked : ∀ nodes, picks = some nodes → ∀ row, nodes.replicaList row ∈ asked
  answers : ∀ nodes, picks = some nodes →
    ∀ row, ValetSession.RepliesTo (nodes.replies row) selectIdx row

/-- The fields of `rdma_freepool_t`, each in a place of eight bytes. -/
inductive PoolField where
  | rdmaFreepoolLock
  | capNr
  | currNr
  | elements
  | initDone
  deriving DecidableEq

def PoolField.place : PoolField → Nat
  | rdmaFreepoolLock => 0
  | capNr => 1
  | currNr => 2
  | elements => 3
  | initDone => 4

/-- The fields of `struct valet_session` from `cb_index_map` on. -/
inductive SessionField (replicas : Nat) where
  | cbIndexMap (row : Fin (replicas + 1))
  | mappingSwapspaceToRb (row : Fin (replicas + 1))
  | rdmaOn
  | pd
  | freepool (kind : PoolKind) (field : PoolField)
  deriving DecidableEq

/-- Where a field lies, in places of eight bytes behind `cb_index_map`. -/
def SessionField.place {replicas : Nat} : SessionField replicas → Nat
  | cbIndexMap row => row.val
  | mappingSwapspaceToRb row => replicas + 1 + row.val
  | rdmaOn => 2 * (replicas + 1)
  | pd => 2 * (replicas + 1) + 1
  | freepool .write field => 2 * (replicas + 1) + 2 + field.place
  | freepool .read field => 2 * (replicas + 1) + 7 + field.place

/-- The client after the handler, what it did with the requests in flight, and the fields whose low
half was overwritten with ones. -/
structure Disconnected (servers replicas : Nat) where
  session : ValetSession servers replicas
  settling : Settling
  struck : SessionField replicas → Bool

namespace Disconnected

variable {servers replicas : Nat}

/-- The entry of a swapspace in a row, server and block, if the pointers to the row are left. -/
def entry (d : Disconnected servers replicas) (row : Fin (replicas + 1)) (swapspace : Swapspace) :
    Option (Int × Int) :=
  if d.struck (.cbIndexMap row) || d.struck (.mappingSwapspaceToRb row) then
    none
  else
    some (d.session.cbIndexMap row swapspace, d.session.mappingSwapspaceToRb row swapspace)

/-- The store of `NO_CB_MAPPED` at `cb_index_map + n`. -/
def storeAt (d : Disconnected servers replicas) (n : Swapspace) : Disconnected servers replicas :=
  { d with struck := fun field => d.struck field || decide (n.val = field.place) }

/-- The turns of a loop up to `cap_nr`. -/
def turns (d : Disconnected servers replicas) (kind : PoolKind) : Nat :=
  let capNr := (d.settling.pools.pool kind).capNr
  if d.struck (.freepool kind .capNr) then capNr / 2 ^ 32 * 2 ^ 32 + (2 ^ 32 - 1) else capNr

/-- `ctx_pool->elements[i]`. -/
def slotOf (d : Disconnected servers replicas) (t : Settling) (kind : PoolKind) :
    Except Halt Nat :=
  if d.struck (.freepool kind .elements) then .error .oops else t.slotOf kind

/-- A turn of the loop over the write contexts; `elements` is all that it reads of the pool. -/
def settleWrite (d : Disconnected servers replicas) (t : Settling) : Except Halt Settling :=
  if d.struck (.freepool .write .elements) then .error .oops else t.settleWrite

/-- `put_rdma_freepool` of a read context.  Nobody releases an overwritten lock, an overwritten
`curr_nr` is above any `cap_nr`, and an overwritten `cap_nr` lets a put past the array. -/
def putRead (d : Disconnected servers replicas) (t : Settling) (ctx : Nat) :
    Except Halt Settling :=
  if d.struck (.freepool .read .rdmaFreepoolLock) then .error .spin
  else if d.struck (.freepool .read .currNr) then .error .bugOn
  else
    match t.pools.putRdmaFreepool .read ctx with
    | none => .error (if d.struck (.freepool .read .capNr) then .oops else .bugOn)
    | some pools => .ok { t with pools := pools }

/-- A turn of the loop over the read contexts. -/
def settleRead (d : Disconnected servers replicas) (t : Settling) : Except Halt Settling := do
  let ctx ← d.slotOf t .read
  if (t.pools.ctxs .read ctx).inFlight = .ctxRInFlight then
    match (t.pools.ctxs .read ctx).req with
    | none => .error .oops
    | some req => d.putRead { t.setIdle .read ctx with cloned := t.cloned ++ [(ctx, req)] } ctx
  else
    return t

/-- The part of the handler that settles the requests in flight. -/
def settle (d : Disconnected servers replicas) : Except Halt (Disconnected servers replicas) := do
  let t ← Settling.repeatTurn d.settleWrite (d.turns .write) d.settling
  let t ← Settling.repeatTurn d.settleRead (d.turns .read) t
  return { d with settling := t }

end Disconnected

/-- The loop over the read contexts finds one in flight, and puts it back. -/
def FreePools.PutsRead (pools : FreePools) : Prop :=
  ∃ ctx, (pools.pool .read).elements handlerSlot = some ctx ∧
    (pools.ctxs .read ctx).inFlight = .ctxRInFlight

namespace ValetSession

variable {servers replicas : Nat}

/-- The table of the server lists the swapspace, as `evict_list` has it. -/
def lists (s : ValetSession servers replicas) (c : Fin servers) (swapspace : Swapspace) : Bool :=
  (List.finRange maxMrSizeGb).any fun i => decide ((s.rbh c).rbIdxMap i = swapspace.val)

/-- The handler's loop over the blocks, for one of them. -/
def unmapBlock (s : ValetSession servers replicas) (c : Fin servers)
    (d : Disconnected servers replicas) (i : Block) : Except Halt (Disconnected servers replicas) :=
  if (s.rbh c).rbIdxMap i = -1 then
    .ok d
  else do
    let n ← index swapspaceSizeG ((s.rbh c).rbIdxMap i)
    match ((d.session.rbh c).remoteBlock i).bitmapG with
    | none => .error .oops
    | some _ =>
        let session := d.session.modifyRbh c fun rbh =>
          { rbh.withBitmap i (fun _ => false) with
            remoteMapped := Function.update rbh.remoteMapped i false }
        return { d with session := session }.storeAt n

/-- `find_the_best_node` asks a server; to connect an idle one takes `pd`. -/
def askServer (pdStruck : Bool) (s : ValetSession servers replicas) (cb : Fin servers) :
    Except Halt (ValetSession servers replicas) :=
  if pdStruck = true ∧ s.cbStateList cb = .idle then .error .oops else .ok (s.queried cb)

/-- `valet_remote_block_map`; too few servers are none. -/
def valetRemoteBlockMap (s : ValetSession servers replicas) (pdStruck : Bool)
    (selectIdx : Swapspace) (asked : List (Fin servers)) (picks : Option (Picks servers replicas)) :
    Except Halt (ValetSession servers replicas) := do
  let s ← asked.foldlM (askServer pdStruck) s
  match picks with
  | none => return s
  | some nodes =>
      (List.finRange (replicas + 1)).foldlM
        (fun s row => s.mapReplica selectIdx (nodes.replicaList row) row (nodes.replies row)) s

/-- The handler's loop over the swapspaces in `evict_list`. -/
def remapListed (s : ValetSession servers replicas) (c : Fin servers)
    (remaps : ∀ swapspace, Remap s c swapspace) (pdStruck : Bool)
    (t : ValetSession servers replicas) (swapspaces : List Swapspace) :
    Except Halt (ValetSession servers replicas) :=
  swapspaces.foldlM
    (fun t swapspace =>
      if s.lists c swapspace then
        t.valetRemoteBlockMap pdStruck swapspace (remaps swapspace).asked (remaps swapspace).picks
      else
        .ok t)
    t

/-- `valet_disconnect_handler`. -/
def valetDisconnectHandler (s : ValetSession servers replicas) (pools : FreePools)
    (c : Fin servers) (remaps : ∀ swapspace, Remap s c swapspace) :
    Except Halt (Disconnected servers replicas) :=
  if s.cbStateList c = .connected then
    .ok ⟨s.setCbState c .fail, ⟨pools, [], []⟩, fun _ => false⟩
  else do
    let d ← (List.finRange maxMrSizeGb).foldlM (s.unmapBlock c)
      ⟨{ s.setCbState c .fail with rdmaOn := false }, ⟨pools, [], []⟩, fun _ => false⟩
    let d := { d with session := d.session.modifyRbh c fun rbh => { rbh with blockSizeGb := 0 } }
    let d ← d.settle
    let session ← s.remapListed c remaps (d.struck .pd) { d.session with rdmaOn := true }
      (List.finRange swapspaceSizeG)
    return { d with session := session }

/-- The place that mapping the swapspace anew gives a row, if it does. -/
def newPlace {s : ValetSession servers replicas} {c : Fin servers}
    (remaps : ∀ swapspace, Remap s c swapspace) (row : Fin (replicas + 1))
    (swapspace : Swapspace) : Option (Int × Int) :=
  (remaps swapspace).picks.bind fun nodes =>
    (nodes.replies row).firstRkey.map fun i => ((nodes.replicaList row).val, i.val)

/-- A server that is neither the one that failed nor failed or migrating. -/
def Healthy (s : ValetSession servers replicas) (c : Fin servers) (server : Int) : Prop :=
  ∃ cb : Fin servers, server = cb.val ∧ cb ≠ c ∧
    (s.cbStateList cb = .idle ∨ s.cbStateList cb = .connected ∨ s.cbStateList cb = .mapped)

/-- No row leads to the server, what led there leads nowhere or to a healthy server, and the other
entries are as they were unless their swapspace was mapped anew for a row that led there. -/
structure LeavesClean (s : ValetSession servers replicas) (c : Fin servers)
    (remaps : ∀ swapspace, Remap s c swapspace) (d : Disconnected servers replicas) :
    Prop where
  away : ∀ row swapspace, ∃ place, d.entry row swapspace = some place ∧ place.1 ≠ c.val
  moved : ∀ row swapspace, s.cbIndexMap row swapspace = c.val →
    ∃ place, d.entry row swapspace = some place ∧ (place.1 = noCbMapped ∨ s.Healthy c place.1)
  kept : ∀ row swapspace, s.cbIndexMap row swapspace ≠ c.val →
    d.entry row swapspace =
        some (s.cbIndexMap row swapspace, s.mappingSwapspaceToRb row swapspace) ∨
      (∃ other, s.cbIndexMap other swapspace = c.val) ∧
        d.entry row swapspace = newPlace remaps row swapspace

/-- The number of a swapspace of the server is the place of the field. -/
def Strikes (s : ValetSession servers replicas) (c : Fin servers) (field : SessionField replicas) :
    Prop :=
  ∃ n, s.lists c n = true ∧ n.val = field.place

/-- No swapspace of the server hits a pointer to a row, or a field that the handler needs on its
way; each swapspace that a row leads to the server is listed by it, and the reply for that row has
a key; and a listed swapspace without such a row is not moved. -/
structure RemapsAll (s : ValetSession servers replicas) (pools : FreePools) (c : Fin servers)
    (remaps : ∀ swapspace, Remap s c swapspace) : Prop where
  rows : ∀ row, ¬ s.Strikes c (.cbIndexMap row) ∧ ¬ s.Strikes c (.mappingSwapspaceToRb row)
  elements : ∀ kind, ¬ s.Strikes c (.freepool kind .elements)
  puts : pools.PutsRead →
    ¬ s.Strikes c (.freepool .read .rdmaFreepoolLock) ∧ ¬ s.Strikes c (.freepool .read .currNr)
  connects : ∀ swapspace, s.lists c swapspace = true → ∀ cb ∈ (remaps swapspace).asked,
    s.cbStateList cb = .idle → ¬ s.Strikes c .pd
  led : ∀ row swapspace, s.cbIndexMap row swapspace = c.val →
    s.lists c swapspace = true ∧ (newPlace remaps row swapspace).isSome = true
  unled : ∀ row swapspace place, (∀ other, s.cbIndexMap other swapspace ≠ c.val) →
    s.lists c swapspace = true → newPlace remaps row swapspace = some place →
      place = (s.cbIndexMap row swapspace, s.mappingSwapspaceToRb row swapspace)

/-! ## What the loops leave -/

/-- Server and block of a swapspace in a row. -/
def place (s : ValetSession servers replicas) (row : Fin (replicas + 1)) (swapspace : Swapspace) :
    Int × Int :=
  (s.cbIndexMap row swapspace, s.mappingSwapspaceToRb row swapspace)

variable {s t next : ValetSession servers replicas} {c : Fin servers} {row : Fin (replicas + 1)}
  {swapspace selectIdx : Swapspace}

theorem SameMaps.place (same : SameMaps s next) : next.place row swapspace = s.place row swapspace := by
  rw [ValetSession.place, same.1, same.2, ValetSession.place]

theorem lists_iff : s.lists c swapspace = true ↔
    ∃ i, (s.rbh c).rbIdxMap i = swapspace.val := by
  rw [lists, List.any_eq_true]
  constructor
  · rintro ⟨i, _, same⟩
    exact ⟨i, of_decide_eq_true same⟩
  · rintro ⟨i, same⟩
    exact ⟨i, List.mem_finRange i, decide_eq_true same⟩

/-- What the loop over the blocks leaves: the rows, the states and the pools as they are, and the
fields that the numbers of the listed swapspaces hit are overwritten. -/
structure Unmaps (s : ValetSession servers replicas) (c : Fin servers) (blocks : List Block)
    (d after : Disconnected servers replicas) : Prop where
  maps : SameMaps d.session after.session
  states : after.session.cbStateList = d.session.cbStateList
  settling : after.settling = d.settling
  struck : ∀ field, after.struck field = true ↔ d.struck field = true ∨
    ∃ i ∈ blocks, (s.rbh c).rbIdxMap i = field.place
  inside : ∀ i ∈ blocks, (s.rbh c).rbIdxMap i ≠ -1 →
    ∃ n : Swapspace, (s.rbh c).rbIdxMap i = n.val

theorem unmapBlock_ok {d after : Disconnected servers replicas} {i : Block}
    (ran : s.unmapBlock c d i = .ok after) : Unmaps s c [i] d after := by
  unfold unmapBlock at ran
  split at ran
  · rename_i nothing
    cases ran
    refine ⟨⟨rfl, rfl⟩, rfl, rfl, fun field => ?_, fun j here used => ?_⟩
    · simp only [List.mem_singleton, exists_eq_left, nothing]
      exact ⟨.inl, fun struck => struck.resolve_right (by omega)⟩
    · rw [List.mem_singleton.mp here] at used
      exact absurd nothing used
  · obtain ⟨n, found, rest⟩ := bind_eq_ok.mp ran
    rw [index_eq_ok] at found
    split at rest
    · cases rest
    · cases rest
      refine ⟨⟨rfl, rfl⟩, rfl, rfl, fun field => ?_, fun j here _ => ?_⟩
      · simp only [Disconnected.storeAt, Bool.or_eq_true, decide_eq_true_eq, List.mem_singleton,
          exists_eq_left, found]
        exact or_congr_right (by omega)
      · rw [List.mem_singleton.mp here]
        exact ⟨n, found⟩

theorem unmapBlocks_ok {d after : Disconnected servers replicas} {blocks : List Block}
    (ran : blocks.foldlM (s.unmapBlock c) d = .ok after) : Unmaps s c blocks d after := by
  induction blocks generalizing d with
  | nil =>
      cases ran
      refine ⟨⟨rfl, rfl⟩, rfl, rfl, fun field => ?_, fun i here => ?_⟩
      · simp
      · cases here
  | cons i rest ih =>
      rw [List.foldlM_cons] at ran
      obtain ⟨middle, first, tail⟩ := bind_eq_ok.mp ran
      have head := unmapBlock_ok first
      have later := ih tail
      refine ⟨⟨later.maps.1.trans head.maps.1, later.maps.2.trans head.maps.2⟩,
        later.states.trans head.states, later.settling.trans head.settling, fun field => ?_,
        fun j here => ?_⟩
      · rw [later.struck, head.struck, or_assoc]
        simp only [List.mem_singleton, exists_eq_left, List.exists_mem_cons_iff]
      · rcases List.mem_cons.mp here with rfl | behind
        · exact head.inside j (List.mem_singleton_self j)
        · exact later.inside j behind

/-! ## What the loops over the contexts need -/

section Settle

variable {d after : Disconnected servers replicas} {t u : Settling}

theorem settleWrite_intact (left : d.struck (.freepool .write .elements) = false) :
    d.settleWrite = Settling.settleWrite := by
  funext t
  rw [Disconnected.settleWrite, left]
  rfl

/-- Without an overwritten field the turn is the one of the pools. -/
theorem settleRead_intact (left : ∀ field, d.struck (.freepool .read field) = false) :
    d.settleRead = Settling.settleRead := by
  funext t
  unfold Disconnected.settleRead Settling.settleRead Disconnected.slotOf Disconnected.putRead
  simp only [left, Bool.false_eq_true, if_false]
  rfl

theorem turns_pos {kind : PoolKind} (room : 0 < (d.settling.pools.pool kind).capNr) :
    0 < d.turns kind := by
  unfold Disconnected.turns
  split
  · exact Nat.lt_of_lt_of_le (by decide) (Nat.le_add_left (2 ^ 32 - 1) _)
  · exact room

/-- A loop that ends has got through its first turn. -/
theorem first_turn {turn : Settling → Except Halt Settling} {count : Nat} (some_ : 0 < count)
    (ran : Settling.repeatTurn turn count t = .ok u) : ∃ next, turn t = .ok next := by
  obtain ⟨count, rfl⟩ := Nat.exists_eq_succ_of_ne_zero (Nat.ne_of_gt some_)
  obtain ⟨next, first, _⟩ := bind_eq_ok.mp ran
  exact ⟨next, first⟩

/-- What the handler has read on its way through the contexts was left. -/
structure SettledBy (d after : Disconnected servers replicas) : Prop where
  session : after.session = d.session
  struck : after.struck = d.struck
  elements : ∀ kind, d.struck (.freepool kind .elements) = false
  puts : d.settling.pools.PutsRead → d.struck (.freepool .read .rdmaFreepoolLock) = false ∧
    d.struck (.freepool .read .currNr) = false

/-- A turn over the reads that ends finds its slot, and puts what is in flight there back. -/
theorem settleRead_ok (ran : d.settleRead t = .ok u) :
    d.struck (.freepool .read .elements) = false ∧
      (t.pools.PutsRead → d.struck (.freepool .read .rdmaFreepoolLock) = false ∧
        d.struck (.freepool .read .currNr) = false) := by
  obtain ⟨ctx, slot, rest⟩ := bind_eq_ok.mp ran
  unfold Disconnected.slotOf at slot
  split at slot
  · cases slot
  · rename_i left
    refine ⟨Bool.not_eq_true _ ▸ left, ?_⟩
    rintro ⟨top, listed, flag⟩
    rw [(Settling.slotOf_eq .read slot).2] at listed
    obtain rfl := Option.some.inj listed
    rw [if_pos flag] at rest
    split at rest
    · cases rest
    · unfold Disconnected.putRead at rest
      split at rest
      · cases rest
      · rename_i lock
        split at rest
        · cases rest
        · rename_i curr
          exact ⟨Bool.not_eq_true _ ▸ lock, Bool.not_eq_true _ ▸ curr⟩

theorem settle_ok (room : ∀ kind, 0 < (d.settling.pools.pool kind).capNr)
    (ran : d.settle = .ok after) : SettledBy d after := by
  obtain ⟨middle, writes, rest⟩ := bind_eq_ok.mp ran
  obtain ⟨last, reads, built⟩ := bind_eq_ok.mp rest
  cases built
  have writeElements : d.struck (.freepool .write .elements) = false := by
    obtain ⟨next, first⟩ := first_turn (turns_pos (room .write)) writes
    unfold Disconnected.settleWrite at first
    split at first
    · cases first
    · rename_i left
      exact Bool.not_eq_true _ ▸ left
  rw [settleWrite_intact writeElements] at writes
  obtain ⟨_, _, _, _, pools, ctxs, _⟩ :=
    Settling.writesSettled_spec (Settling.settleWrites_cases (turns_pos (room .write)) writes)
  obtain ⟨next, first⟩ := first_turn (turns_pos (room .read)) reads
  obtain ⟨readElements, puts⟩ := settleRead_ok first
  refine ⟨rfl, rfl, fun kind => ?_, fun here => puts ?_⟩
  · cases kind with
    | write => exact writeElements
    | read => exact readElements
  · obtain ⟨ctx, listed, flag⟩ := here
    exact ⟨ctx, by rw [pools]; exact listed, by rw [ctxs]; exact flag⟩

/-- Without an overwritten field of the pools the requests in flight are settled as the two loops
do it alone. -/
theorem settle_intact {pools : FreePools}
    (left : ∀ kind field, d.struck (.freepool kind field) = false)
    (fresh : d.settling = ⟨pools, [], []⟩) (ran : d.settle = .ok after) :
    Settling.settleInFlight pools = .ok after.settling := by
  obtain ⟨middle, writes, rest⟩ := bind_eq_ok.mp ran
  obtain ⟨last, reads, built⟩ := bind_eq_ok.mp rest
  cases built
  have turns (kind : PoolKind) : d.turns kind = (pools.pool kind).capNr := by
    simp only [Disconnected.turns, left, fresh, Bool.false_eq_true, if_false]
  rw [settleWrite_intact (left .write .elements), turns, fresh] at writes
  rw [settleRead_intact (left .read), turns] at reads
  exact bind_eq_ok.mpr ⟨middle, writes, reads⟩

end Settle

/-- The place that the reply brings, or the old one. -/
def placed (replicaList : Fin (replicas + 1) → Fin servers)
    (replies : Fin (replicas + 1) → Message) (row : Fin (replicas + 1)) (old : Int × Int) :
    Int × Int :=
  match (replies row).firstRkey with
  | none => old
  | some i => ((replicaList row).val, i.val)

theorem placed_placed {replicaList : Fin (replicas + 1) → Fin servers}
    {replies : Fin (replicas + 1) → Message} (old : Int × Int) :
    placed replicaList replies row (placed replicaList replies row old) =
      placed replicaList replies row old := by
  unfold placed
  cases (replies row).firstRkey <;> rfl

theorem mapReplica_place {replicaList : Fin (replicas + 1) → Fin servers}
    {replies : Fin (replicas + 1) → Message} {other : Fin (replicas + 1)}
    (answers : RepliesTo (replies other) selectIdx other)
    (ran : s.mapReplica selectIdx (replicaList other) other (replies other) = .ok next) :
    next.place row swapspace = if row = other ∧ swapspace = selectIdx then
      placed replicaList replies row (s.place row swapspace) else s.place row swapspace := by
  rcases mapReplica_ok answers ran with ⟨empty, same⟩ | ⟨i, first, sets, _⟩
  · rw [same.maps.place]
    split
    · rename_i here
      rw [here.1, placed, empty]
    · rfl
  · rw [place, sets.server, sets.block]
    split
    · rename_i here
      rw [here.1, placed, first]
    · rfl

/-- The rows of the swapspace are mapped one after the other. -/
theorem mapReplicas_place (row : Fin (replicas + 1)) (swapspace : Swapspace)
    {replicaList : Fin (replicas + 1) → Fin servers}
    {replies : Fin (replicas + 1) → Message} {rows : List (Fin (replicas + 1))}
    (answers : ∀ row, RepliesTo (replies row) selectIdx row)
    (ran : rows.foldlM (fun s row => s.mapReplica selectIdx (replicaList row) row (replies row)) s =
      .ok next) :
    next.place row swapspace = if row ∈ rows ∧ swapspace = selectIdx then
      placed replicaList replies row (s.place row swapspace) else s.place row swapspace := by
  induction rows generalizing s with
  | nil =>
      cases ran
      rw [if_neg fun here => by cases here.1]
  | cons other rest ih =>
      rw [List.foldlM_cons] at ran
      obtain ⟨middle, mapped, tail⟩ := bind_eq_ok.mp ran
      rw [ih tail, mapReplica_place (answers other) mapped]
      simp only [List.mem_cons]
      by_cases sel : swapspace = selectIdx
      · by_cases here : row = other
        · simp [sel, here, placed_placed]
        · simp [sel, here]
      · simp [sel]

theorem placed_eq {remaps : ∀ swapspace, Remap s c swapspace}
    {nodes : Picks servers replicas} (chosen : (remaps swapspace).picks = some nodes)
    (old : Int × Int) :
    placed nodes.replicaList nodes.replies row old = (newPlace remaps row swapspace).getD old := by
  unfold placed newPlace
  rw [chosen, Option.bind_some]
  cases (nodes.replies row).firstRkey <;> rfl

/-- What the servers that are asked go through: without `pd` none of them is idle. -/
structure Asked (pdStruck : Bool) (cbs : List (Fin servers)) (t next : ValetSession servers replicas) :
    Prop where
  maps : SameMaps t next
  connects : pdStruck = true → next.cbStateList = t.cbStateList ∧
    ∀ cb ∈ cbs, t.cbStateList cb ≠ .idle

theorem askServers_ok {pdStruck : Bool} {cbs : List (Fin servers)}
    (ran : cbs.foldlM (askServer pdStruck) t = .ok next) : Asked pdStruck cbs t next := by
  induction cbs generalizing t with
  | nil =>
      cases ran
      exact ⟨⟨rfl, rfl⟩, fun _ => ⟨rfl, List.forall_mem_nil _⟩⟩
  | cons cb rest ih =>
      rw [List.foldlM_cons] at ran
      obtain ⟨middle, first, tail⟩ := bind_eq_ok.mp ran
      have later := ih tail
      unfold askServer at first
      split at first
      · cases first
      · rename_i fits
        cases first
        have maps : SameMaps t (t.queried cb) := sameTables_queried.maps
        refine ⟨⟨later.maps.1.trans maps.1, later.maps.2.trans maps.2⟩, fun struck => ?_⟩
        have used : t.cbStateList cb ≠ .idle := fun idle => fits ⟨struck, idle⟩
        obtain ⟨same, others⟩ := later.connects struck
        rw [cbStateList_queried t used] at same others
        exact ⟨same, List.forall_mem_cons.mpr ⟨used, others⟩⟩

/-- A map request touches the state of its server only. -/
theorem mapReplica_states {reply : Message} {cb other : Fin servers}
    (answers : RepliesTo reply selectIdx row)
    (ran : s.mapReplica selectIdx cb row reply = .ok next) (apart : other ≠ cb) :
    next.cbStateList other = s.cbStateList other := by
  obtain ⟨received, receives, rest⟩ := bind_eq_ok.mp ran
  split at rest
  · rename_i arrived
    cases rest
    cases receives_of_ok receives with
    | ignored error =>
        rw [error] at arrived
        cases arrived
    | refused reason =>
        rw [state_setState] at arrived
        cases arrived
    | migMap _ type | done _ type | evict _ type =>
        rw [answers.type] at type
        cases type
    | mrMap alive type inits =>
        cases inits with
        | nothing empty => exact Function.update_of_ne apart _ _
        | mapped first isRow isSelect => exact Function.update_of_ne apart _ _
  · cases rest

theorem mapReplicas_states {nodes : Picks servers replicas} {rows : List (Fin (replicas + 1))}
    {other : Fin servers} (answers : ∀ row, RepliesTo (nodes.replies row) selectIdx row)
    (ran : rows.foldlM (fun s row =>
      s.mapReplica selectIdx (nodes.replicaList row) row (nodes.replies row)) s = .ok next)
    (apart : ∀ row, other ≠ nodes.replicaList row) :
    next.cbStateList other = s.cbStateList other := by
  induction rows generalizing s with
  | nil =>
      cases ran
      rfl
  | cons row rest ih =>
      rw [List.foldlM_cons] at ran
      obtain ⟨middle, mapped, tail⟩ := bind_eq_ok.mp ran
      exact (ih tail).trans (mapReplica_states (answers row) mapped (apart row))

/-- The other servers that were idle are idle still. -/
def KeepsIdle (s : ValetSession servers replicas) (c : Fin servers)
    (next : ValetSession servers replicas) : Prop :=
  ∀ cb, cb ≠ c → s.cbStateList cb = .idle → next.cbStateList cb = .idle

/-- What mapping one swapspace anew leaves of its entries, and what it takes without `pd`. -/
theorem valetRemoteBlockMap_ok {remaps : ∀ swapspace, Remap s c swapspace} {pdStruck : Bool}
    (ran : t.valetRemoteBlockMap pdStruck selectIdx (remaps selectIdx).asked
      (remaps selectIdx).picks = .ok next) :
    (∀ row swapspace, next.place row swapspace = if swapspace = selectIdx then
        (newPlace remaps row swapspace).getD (t.place row swapspace)
        else t.place row swapspace) ∧
      (pdStruck = true → KeepsIdle s c t →
        KeepsIdle s c next ∧ ∀ cb ∈ (remaps selectIdx).asked, s.cbStateList cb ≠ .idle) := by
  obtain ⟨middle, asks, rest⟩ := bind_eq_ok.mp ran
  have asked := askServers_ok asks
  cases chosen : (remaps selectIdx).picks with
  | none =>
      rw [chosen] at rest
      cases rest
      refine ⟨fun row swapspace => ?_, fun struck idle => ?_⟩
      · rw [asked.maps.place]
        split
        · rename_i here
          rw [newPlace, here, chosen]
          rfl
        · rfl
      · obtain ⟨states, used⟩ := asked.connects struck
        refine ⟨fun cb other was => ?_, fun cb member was => used cb member ?_⟩
        · rw [states]
          exact idle cb other was
        · exact idle cb ((remaps selectIdx).other cb member) was
  | some nodes =>
      rw [chosen] at rest
      have answers := (remaps selectIdx).answers nodes chosen
      refine ⟨fun row swapspace => ?_, fun struck idle => ?_⟩
      · rw [mapReplicas_place row swapspace answers rest, asked.maps.place]
        simp only [List.mem_finRange, true_and]
        split
        · rename_i here
          subst here
          exact placed_eq chosen _
        · rfl
      · obtain ⟨states, used⟩ := asked.connects struck
        have apart : ∀ cb ∈ (remaps selectIdx).asked, s.cbStateList cb ≠ .idle :=
          fun cb member was =>
            used cb member (idle cb ((remaps selectIdx).other cb member) was)
        refine ⟨fun cb other was => ?_, apart⟩
        rw [mapReplicas_states answers rest fun row same => ?_, states]
        · exact idle cb other was
        · exact apart cb (same ▸ (remaps selectIdx).picked nodes chosen row) was

/-- The listed swapspaces are mapped anew one after the other. -/
theorem remapListed_ok {remaps : ∀ swapspace, Remap s c swapspace} {pdStruck : Bool}
    {swapspaces : List Swapspace}
    (ran : s.remapListed c remaps pdStruck t swapspaces = .ok next) :
    (∀ row swapspace, next.place row swapspace =
        if swapspace ∈ swapspaces ∧ s.lists c swapspace = true then
          (newPlace remaps row swapspace).getD (t.place row swapspace)
        else t.place row swapspace) ∧
      (pdStruck = true → KeepsIdle s c t → ∀ swapspace ∈ swapspaces,
        s.lists c swapspace = true → ∀ cb ∈ (remaps swapspace).asked,
          s.cbStateList cb ≠ .idle) := by
  induction swapspaces generalizing t with
  | nil =>
      cases ran
      refine ⟨fun row swapspace => ?_, fun _ _ swapspace member => ?_⟩
      · rw [if_neg fun here => by cases here.1]
      · cases member
  | cons first rest ih =>
      unfold remapListed at ran
      rw [List.foldlM_cons] at ran
      obtain ⟨middle, mapped, tail⟩ := bind_eq_ok.mp ran
      obtain ⟨places, connects⟩ := ih tail
      have head : (∀ row swapspace, middle.place row swapspace =
            if swapspace = first ∧ s.lists c swapspace = true then
              (newPlace remaps row swapspace).getD (t.place row swapspace)
            else t.place row swapspace) ∧
          (pdStruck = true → KeepsIdle s c t → KeepsIdle s c middle ∧
            (s.lists c first = true → ∀ cb ∈ (remaps first).asked, s.cbStateList cb ≠ .idle)) := by
        split at mapped
        · rename_i listed
          obtain ⟨places, connects⟩ := valetRemoteBlockMap_ok mapped
          refine ⟨fun row swapspace => ?_, fun struck idle => ?_⟩
          · rw [places row swapspace]
            by_cases here : swapspace = first
            · simp [here, listed]
            · simp [here]
          · exact (connects struck idle).imp_right fun used _ => used
        · rename_i unlisted
          cases mapped
          refine ⟨fun row swapspace => ?_, fun _ idle => ⟨idle, fun listed => absurd listed unlisted⟩⟩
          rw [if_neg]
          rintro ⟨rfl, listed⟩
          exact unlisted listed
      refine ⟨fun row swapspace => ?_, fun struck idle => ?_⟩
      · rw [places row swapspace, head.1 row swapspace]
        simp only [List.mem_cons]
        by_cases listed : s.lists c swapspace = true
        · rcases eq_or_ne swapspace first with rfl | here
          · cases newPlace remaps row swapspace <;> simp [listed]
          · simp [here]
        · simp [listed]
      · obtain ⟨keeps, used⟩ := head.2 struck idle
        intro swapspace member listed
        rcases List.mem_cons.mp member with rfl | behind
        · exact used listed
        · exact connects struck keeps swapspace behind listed

/-- What the handler of a server that was in use leaves, and what it has found on its way. -/
structure Handled (s : ValetSession servers replicas) (pools : FreePools) (c : Fin servers)
    (remaps : ∀ swapspace, Remap s c swapspace) (d : Disconnected servers replicas) : Prop where
  struck : ∀ field, d.struck field = true ↔ s.Strikes c field
  elements : ∀ kind, d.struck (.freepool kind .elements) = false
  puts : pools.PutsRead → d.struck (.freepool .read .rdmaFreepoolLock) = false ∧
    d.struck (.freepool .read .currNr) = false
  connects : d.struck .pd = true → ∀ swapspace, s.lists c swapspace = true →
    ∀ cb ∈ (remaps swapspace).asked, s.cbStateList cb ≠ .idle
  settles : (∀ kind field, d.struck (.freepool kind field) = false) →
    Settling.settleInFlight pools = .ok d.settling
  place : ∀ row swapspace, d.session.place row swapspace = if s.lists c swapspace = true then
    (newPlace remaps row swapspace).getD (s.place row swapspace) else s.place row swapspace

variable {pools : FreePools}

theorem handled_of_ok {remaps : ∀ swapspace, Remap s c swapspace}
    {d : Disconnected servers replicas} (used : s.cbStateList c ≠ .connected)
    (room : ∀ kind, 0 < (pools.pool kind).capNr)
    (ran : s.valetDisconnectHandler pools c remaps = .ok d) : Handled s pools c remaps d := by
  unfold valetDisconnectHandler at ran
  rw [if_neg used] at ran
  obtain ⟨unmapped, loop, rest⟩ := bind_eq_ok.mp ran
  obtain ⟨settled, settles, rest⟩ := bind_eq_ok.mp rest
  obtain ⟨session, remapped, built⟩ := bind_eq_ok.mp rest
  cases built
  have unmaps := unmapBlocks_ok loop
  have by_ := settle_ok (fun kind => by rw [unmaps.settling]; exact room kind) settles
  have struck : settled.struck = unmapped.struck := by_.struck
  have maps : SameMaps s { settled.session with rdmaOn := true } := by
    rw [by_.session]
    exact ⟨unmaps.maps.1, unmaps.maps.2⟩
  have states : settled.session.cbStateList = Function.update s.cbStateList c .fail := by
    rw [by_.session]
    exact unmaps.states
  obtain ⟨places, connects⟩ := remapListed_ok remapped
  refine ⟨fun field => ?_, ?_, fun here => ?_, fun lost swapspace listed => ?_, fun left => ?_,
    fun row swapspace => ?_⟩
  · show settled.struck field = true ↔ _
    rw [struck, unmaps.struck]
    constructor
    · rintro (no | ⟨i, here, same⟩)
      · cases no
      · obtain ⟨n, inside⟩ := unmaps.inside i here (by omega)
        exact ⟨n, lists_iff.mpr ⟨i, inside⟩, by omega⟩
    · rintro ⟨n, listed, same⟩
      obtain ⟨i, at_⟩ := lists_iff.mp listed
      exact .inr ⟨i, List.mem_finRange i, by omega⟩
  · show ∀ kind, settled.struck _ = false
    rw [struck]
    exact by_.elements
  · show settled.struck _ = false ∧ settled.struck _ = false
    rw [struck]
    refine by_.puts ?_
    show unmapped.settling.pools.PutsRead
    rw [unmaps.settling]
    exact here
  · refine connects lost (fun cb other was => ?_) swapspace (List.mem_finRange _) listed
    show settled.session.cbStateList cb = .idle
    rw [states, Function.update_of_ne other]
    exact was
  · show Settling.settleInFlight pools = .ok settled.settling
    refine settle_intact (fun kind field => ?_) ?_ settles
    · show unmapped.struck _ = false
      rw [← struck]
      exact left kind field
    · exact unmaps.settling
  · show session.place row swapspace = _
    rw [places row swapspace, maps.place]
    simp only [List.mem_finRange, true_and]

theorem healthy_newPlace {remaps : ∀ swapspace, Remap s c swapspace} {new : Int × Int}
    (found : newPlace remaps row swapspace = some new) : s.Healthy c new.1 := by
  obtain ⟨nodes, chosen, first⟩ := Option.bind_eq_some_iff.mp found
  obtain ⟨i, _, rfl⟩ := Option.map_eq_some_iff.mp first
  have member := (remaps swapspace).picked nodes chosen row
  exact ⟨nodes.replicaList row, rfl, (remaps swapspace).other _ member,
    (remaps swapspace).healthy _ member⟩

theorem Healthy.ne {server : Int} (healthy : s.Healthy c server) : server ≠ c.val := by
  obtain ⟨cb, rfl, other, _⟩ := healthy
  intro same
  exact other (Fin.ext (by omega))

/-- Where the pointers to the rows are left, the entry of a swapspace is its place. -/
theorem Handled.entry {remaps : ∀ swapspace, Remap s c swapspace}
    {d : Disconnected servers replicas} (handled : Handled s pools c remaps d)
    (rows : ∀ row, ¬ s.Strikes c (.cbIndexMap row) ∧ ¬ s.Strikes c (.mappingSwapspaceToRb row))
    (row : Fin (replicas + 1)) (swapspace : Swapspace) :
    d.entry row swapspace = some (if s.lists c swapspace = true then
      (newPlace remaps row swapspace).getD (s.place row swapspace)
      else s.place row swapspace) := by
  have first : d.struck (.cbIndexMap row) = false := by
    rw [← Bool.not_eq_true, handled.struck]
    exact (rows row).1
  have second : d.struck (.mappingSwapspaceToRb row) = false := by
    rw [← Bool.not_eq_true, handled.struck]
    exact (rows row).2
  rw [Disconnected.entry, first, second, ← handled.place row swapspace]
  rfl

/-- A row with entries has its pointers. -/
theorem Handled.rows {remaps : ∀ swapspace, Remap s c swapspace}
    {d : Disconnected servers replicas} (handled : Handled s pools c remaps d)
    (entries : ∀ row swapspace, ∃ place, d.entry row swapspace = some place)
    (row : Fin (replicas + 1)) :
    ¬ s.Strikes c (.cbIndexMap row) ∧ ¬ s.Strikes c (.mappingSwapspaceToRb row) := by
  constructor
  · rintro ⟨n, listed, same⟩
    obtain ⟨place, found⟩ := entries row n
    have lost := (handled.struck (.cbIndexMap row)).mpr ⟨n, listed, same⟩
    rw [Disconnected.entry, lost] at found
    cases found
  · rintro ⟨n, listed, same⟩
    obtain ⟨place, found⟩ := entries row n
    have lost := (handled.struck (.mappingSwapspaceToRb row)).mpr ⟨n, listed, same⟩
    rw [Disconnected.entry, lost, Bool.or_true] at found
    cases found

theorem Handled.left {remaps : ∀ swapspace, Remap s c swapspace}
    {d : Disconnected servers replicas} {field : SessionField replicas}
    (handled : Handled s pools c remaps d) (kept : d.struck field = false) :
    ¬ s.Strikes c field := by
  rw [← handled.struck, kept]
  exact Bool.false_ne_true

/-- The handler settles the requests in flight as the two loops do it alone, unless a swapspace of
the server hits a field of the pools. -/
theorem handler_settles {remaps : ∀ swapspace, Remap s c swapspace}
    {d : Disconnected servers replicas} (used : s.cbStateList c ≠ .connected)
    (room : ∀ kind, 0 < (pools.pool kind).capNr)
    (ran : s.valetDisconnectHandler pools c remaps = .ok d)
    (apart : ∀ kind field, ¬ s.Strikes c (.freepool kind field)) :
    Settling.settleInFlight pools = .ok d.settling := by
  have handled := handled_of_ok used room ran
  refine handled.settles fun kind field => ?_
  rw [← Bool.not_eq_true, handled.struck]
  exact apart kind field

/-! ## When the tables are clean -/

theorem LeavesClean.remapsAll {remaps : ∀ swapspace, Remap s c swapspace}
    {d : Disconnected servers replicas} (handled : Handled s pools c remaps d)
    (clean : s.LeavesClean c remaps d) : s.RemapsAll pools c remaps := by
  have rows := handled.rows fun row swapspace => (clean.away row swapspace).imp fun _ found => found.1
  have entry := handled.entry rows
  refine ⟨rows, fun kind => handled.left (handled.elements kind), fun here => ?_, ?_, ?_, ?_⟩
  · exact ⟨handled.left (handled.puts here).1, handled.left (handled.puts here).2⟩
  · intro swapspace listed cb member idle strikes
    exact handled.connects ((handled.struck _).mpr strikes) swapspace listed cb member idle
  · intro row swapspace leads
    obtain ⟨place, found, away⟩ := clean.away row swapspace
    rw [entry row swapspace] at found
    injection found with same
    -- an entry that stays is still the one of the server
    split at same
    · rename_i listed
      refine ⟨listed, ?_⟩
      cases moved : newPlace remaps row swapspace with
      | none =>
          rw [moved, Option.getD_none] at same
          rw [← same] at away
          exact absurd leads away
      | some new => rfl
    · rw [← same] at away
      exact absurd leads away
  · intro row swapspace place elsewhere listed moved
    rcases clean.kept row swapspace (elsewhere row) with kept | ⟨⟨other, leads⟩, _⟩
    · rw [entry row swapspace, if_pos listed, moved, Option.getD_some] at kept
      exact Option.some.inj kept
    · exact absurd leads (elsewhere other)

theorem RemapsAll.leavesClean {remaps : ∀ swapspace, Remap s c swapspace}
    {d : Disconnected servers replicas} (handled : Handled s pools c remaps d)
    (all : s.RemapsAll pools c remaps) : s.LeavesClean c remaps d := by
  have entry := handled.entry all.rows
  have moved : ∀ row swapspace, s.cbIndexMap row swapspace = c.val →
      ∃ new, d.entry row swapspace = some new ∧ s.Healthy c new.1 := by
    intro row swapspace leads
    obtain ⟨listed, found⟩ := all.led row swapspace leads
    obtain ⟨new, found⟩ := Option.isSome_iff_exists.mp found
    refine ⟨new, ?_, healthy_newPlace found⟩
    rw [entry row swapspace, if_pos listed, found, Option.getD_some]
  constructor
  · intro row swapspace
    by_cases leads : s.cbIndexMap row swapspace = c.val
    · obtain ⟨new, found, healthy⟩ := moved row swapspace leads
      exact ⟨new, found, healthy.ne⟩
    · refine ⟨_, entry row swapspace, ?_⟩
      split
      · cases found : newPlace remaps row swapspace with
        | none => exact leads
        | some new => exact (healthy_newPlace found).ne
      · exact leads
  · intro row swapspace leads
    obtain ⟨new, found, healthy⟩ := moved row swapspace leads
    exact ⟨new, found, .inr healthy⟩
  · intro row swapspace _
    rw [entry row swapspace]
    split
    · rename_i listed
      cases found : newPlace remaps row swapspace with
      | none => exact .inl rfl
      | some new =>
          by_cases together : ∃ other, s.cbIndexMap other swapspace = c.val
          · exact .inr ⟨together, rfl⟩
          · exact .inl (congrArg some (all.unled row swapspace new
              (fun other leads => together ⟨other, leads⟩) listed found))
    · exact .inl rfl

/-- After the handler of a server that was in use, the tables are rid of the server exactly when
its swapspaces hit no pointer and no field that the handler needs, and every one that a row leads
to it was mapped anew in that row. -/
theorem disconnect_clears_iff {remaps : ∀ swapspace, Remap s c swapspace}
    {d : Disconnected servers replicas} (used : s.cbStateList c ≠ .connected)
    (room : ∀ kind, 0 < (pools.pool kind).capNr)
    (ran : s.valetDisconnectHandler pools c remaps = .ok d) :
    s.LeavesClean c remaps d ↔ s.RemapsAll pools c remaps := by
  have handled := handled_of_ok used room ran
  constructor
  · exact LeavesClean.remapsAll handled
  · exact RemapsAll.leavesClean handled

/-- The first server holds the block of one swapspace, whose number hits `rdma_on`. -/
def thirdSwapspace : Swapspace := ⟨2, by decide⟩

def thirdMapped : ValetSession 2 0 :=
  (ValetSession.init.getCb thirdSwapspace (fun _ => 0) fun _ =>
    blockMessage .respMrMap 0 thirdSwapspace firstBlock).toOption.getD .init

/-- The second server takes the swapspace over. -/
def takenOver (swapspace : Swapspace) : Remap thirdMapped 0 swapspace where
  asked := [1]
  picks := some ⟨fun _ => 1, fun row => blockMessage .respMrMap 1 swapspace firstBlock⟩
  other := by decide
  healthy := by decide +kernel
  picked := by
    rintro nodes ⟨⟩ row
    exact List.mem_singleton_self 1
  answers := by
    rintro nodes ⟨⟩ row
    exact ⟨rfl, rfl, by simp [blockMessage]⟩

theorem disconnect_clears_iff_takenOver : ∃ d,
    thirdMapped.valetDisconnectHandler Settling.idlePools 0 takenOver = .ok d ∧
      (thirdMapped.LeavesClean 0 takenOver d ↔
        thirdMapped.RemapsAll Settling.idlePools 0 takenOver) := by
  have ran : (thirdMapped.valetDisconnectHandler Settling.idlePools 0 takenOver).toOption.isSome =
      true := by
    decide +kernel
  obtain ⟨d, handled⟩ := Option.isSome_iff_exists.mp ran
  exact ⟨d, toOption_eq_some handled,
    disconnect_clears_iff (by decide +kernel) (fun _ => Nat.succ_pos 33)
      (toOption_eq_some handled)⟩

/-- Nobody has free memory. -/
def notTakenOver (swapspace : Swapspace) : Remap thirdMapped 0 swapspace where
  asked := []
  picks := none
  other := List.forall_mem_nil _
  healthy := List.forall_mem_nil _
  picked := by rintro nodes ⟨⟩
  answers := by rintro nodes ⟨⟩

/-- Without a server that takes the swapspace over, its row still leads to the one that failed. -/
theorem unmapped_stays : ¬ ∀ (s : ValetSession 2 0) (pools : FreePools) (c : Fin 2)
    (remaps : ∀ swapspace, Remap s c swapspace) (d : Disconnected 2 0),
    s.cbStateList c ≠ .connected → s.valetDisconnectHandler pools c remaps = .ok d →
      s.LeavesClean c remaps d := by
  intro claim
  have ran : (thirdMapped.valetDisconnectHandler Settling.idlePools 0 notTakenOver).toOption.map
      (fun d => d.entry 0 thirdSwapspace) = some (some (0, 0)) := by
    decide +kernel
  obtain ⟨d, handled, stays⟩ := Option.map_eq_some_iff.mp ran
  have clean := claim thirdMapped _ 0 _ d (by decide +kernel) (toOption_eq_some handled)
  obtain ⟨place, found, away⟩ := clean.away 0 thirdSwapspace
  rw [stays] at found
  cases found
  exact away rfl

end ValetSession

end Valet.Bd
