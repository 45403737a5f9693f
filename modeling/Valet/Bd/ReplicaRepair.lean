import Valet.Bd.BlockTables
import Valet.Bd.EvictSlots
import Valet.Bd.WriteAdmission

/-!
# Copies that survive an eviction

`request_read` goes over the rows and reads from the first block that records
the page.  When the block of row 0 was evicted, the next write maps every row
anew, and a block of another row that still had a copy is replaced by an empty
one.  Beside the client stand here the threads that `get_cb` has answered and
the writes in flight.
-/

namespace Valet.Bd

open Valet.Wire Valet.Library

variable {servers replicas : Nat}

/-- A write that was posted: the block, offset and length of its `rdma_ctx`. -/
structure Posted (servers : Nat) where
  cb : Fin servers
  rb : Block
  offset : Nat
  len : Nat

namespace ValetSession

/-- The loop of `request_read` over the rows that are left: the block that is read. -/
def findCopy (s : ValetSession servers replicas) (swapspace : Swapspace) (page : Nat) :
    List (Fin (replicas + 1)) → Except Halt (Option (Fin servers × Block))
  | [] => .ok none
  | row :: rest =>
      if s.cbIndexMap row swapspace = noCbMapped then
        s.findCopy swapspace page rest
      else do
        let cb ← index servers (s.cbIndexMap row swapspace)
        let rb ← index maxMrSizeGb (s.mappingSwapspaceToRb row swapspace)
        if s.rbState cb rb = .readonly ∨ s.rbState cb rb = .noneAllowed then
          s.findCopy swapspace page rest
        else
          match ((s.rbh cb).remoteBlock rb).bitmapG with
          | none => .error .oops
          | some bitmap =>
              if bitmap page then return some (cb, rb) else s.findCopy swapspace page rest

/-- `request_read`, where every read can be posted. -/
def requestRead (s : ValetSession servers replicas) (swapspace : Swapspace) (page : Nat) :
    Except Halt (Option (Fin servers × Block)) :=
  if s.rdmaOn then s.findCopy swapspace page (List.finRange (replicas + 1)) else .ok none

/-- The answer of `get_cb` for a mapped swapspace. -/
def replicaCbList (s : ValetSession servers replicas) (swapspace : Swapspace) :
    Except Halt (List (Fin servers)) :=
  (List.finRange (replicas + 1)).mapM fun row => index servers (s.cbIndexMap row swapspace)

/-- `rdma_write` once `get_cb` has answered; `ib_post_send` takes the first `posts` of its
requests. -/
def rdmaWrite (s : ValetSession servers replicas) (swapspace : Swapspace)
    (replicaCbList : List (Fin servers)) (offset len posts : Nat) :
    Except Halt (List (Posted servers)) :=
  match replicaCbList with
  | [] => .error .oops
  | primary :: _ => do
      let rb ← index maxMrSizeGb (s.mappingSwapspaceToRb 0 swapspace)
      if (s.rbState primary rb).code ≥ RemoteBlockState.readonly.code then
        return []
      else
        (((List.finRange (replicas + 1)).zip replicaCbList).take posts).mapM fun (row, cb) => do
          let rb ← index maxMrSizeGb (s.mappingSwapspaceToRb row swapspace)
          return ⟨cb, rb, offset, len⟩

/-- What `write_done_postwork` does to the block. -/
def writeDone (s : ValetSession servers replicas) (write : Posted servers) :
    Except Halt (ValetSession servers replicas) :=
  match ((s.rbh write.cb).remoteBlock write.rb).bitmapG with
  | none => .error .oops
  | some bitmap => .ok (s.modifyRbh write.cb fun rbh =>
      rbh.withBitmap write.rb (Machine.bitmapGroupSet bitmap write.offset write.len))

end ValetSession

namespace Control

/-- What `get_cb` answers in a step. -/
def answer (m : Control servers replicas) (label : ControlLabel servers replicas) :
    Except Halt (Option (Swapspace × List (Fin servers))) :=
  match label, m.returns label with
  | .getCb _, some swapspace => do
      let replicaCbList ← m.session.replicaCbList swapspace
      return some (swapspace, replicaCbList)
  | .mapRow, some swapspace =>
      match m.mapper with
      | some (.waiting _ replicaList _) => .ok (some (swapspace, List.ofFn replicaList))
      | _ => .ok none
  | _, _ => .ok none

end Control

structure WritePath (servers replicas : Nat) where
  control : Control servers replicas
  answered : List (Swapspace × List (Fin servers))
  inFlight : List (Posted servers)

inductive WritePathLabel (servers replicas : Nat) where
  | control (label : ControlLabel servers replicas)
  | rdmaWrite (i offset len posts : Nat)
  | writeDone (i : Nat)

namespace WritePath

open ValetSession

def step (p : WritePath servers replicas) :
    WritePathLabel servers replicas → Option (WritePath servers replicas)
  | .control label => do
      let control ← p.control.step label
      let answer ← (p.control.answer label).toOption
      return { p with control := control, answered := p.answered ++ answer.toList }
  | .rdmaWrite i offset len posts => do
      let (swapspace, replicaCbList) ← p.answered[i]?
      let posted ← (p.control.session.rdmaWrite swapspace replicaCbList offset len posts).toOption
      return { p with answered := p.answered.eraseIdx i, inFlight := p.inFlight ++ posted }
  | .writeDone i => do
      let write ← p.inFlight[i]?
      let session ← (p.control.session.writeDone write).toOption
      return { p with
        control := { p.control with session := session }
        inFlight := p.inFlight.eraseIdx i }

def init : WritePath servers replicas := ⟨.init, [], []⟩

/-- `request_read` finds a block with the page. -/
def Finds (p : WritePath servers replicas) (swapspace : Swapspace) (page : Nat) : Prop :=
  ∃ copy, p.control.session.requestRead swapspace page = .ok (some copy)

end WritePath

namespace ValetSession

/-- The row leads to a block that is not stopped for reads and records the page. -/
def CopyAt (s : ValetSession servers replicas) (row : Fin (replicas + 1)) (swapspace : Swapspace)
    (page : Nat) (cb : Fin servers) (rb : Block) : Prop :=
  s.Leads row swapspace cb rb ∧
    ¬ (s.rbState cb rb = .readonly ∨ s.rbState cb rb = .noneAllowed) ∧
      ((s.rbh cb).remoteBlock rb).bitmapG.any (fun bitmap => bitmap page) = true

/-- The block has a bitmap. -/
def Allocated (s : ValetSession servers replicas) (cb : Fin servers) (rb : Block) : Prop :=
  ((s.rbh cb).remoteBlock rb).bitmapG.isSome = true

/-- Every row that is mapped leads to a block with a bitmap. -/
def RowsValid (s : ValetSession servers replicas) : Prop :=
  ∀ row swapspace, s.cbIndexMap row swapspace ≠ noCbMapped →
    ∃ cb rb, s.Leads row swapspace cb rb ∧ s.Allocated cb rb

variable {s middle next : ValetSession servers replicas} {cb other : Fin servers} {rb : Block}
  {row : Fin (replicas + 1)} {swapspace : Swapspace} {page : Nat}

theorem findCopy_iff (valid : s.RowsValid) (rows : List (Fin (replicas + 1))) :
    (∃ copy, s.findCopy swapspace page rows = .ok (some copy)) ↔
      ∃ row ∈ rows, ∃ cb rb, s.CopyAt row swapspace page cb rb := by
  induction rows with
  | nil =>
      constructor
      · rintro ⟨copy, bad⟩
        cases bad
      · rintro ⟨row, member, _⟩
        cases member
  | cons row rest ih =>
      rw [findCopy]
      split
      · rename_i unmapped
        rw [ih]
        constructor
        · rintro ⟨other, member, copy⟩
          exact ⟨other, List.mem_cons_of_mem row member, copy⟩
        · rintro ⟨other, member, cb, rb, copy⟩
          rcases List.mem_cons.mp member with rfl | later
          · exact absurd unmapped copy.1.mapped
          · exact ⟨other, later, cb, rb, copy⟩
      · rename_i mapped
        obtain ⟨cb, rb, leads, allocated⟩ := valid row swapspace mapped
        obtain ⟨bitmap, isBitmap⟩ := Option.isSome_iff_exists.mp allocated
        have goesOn : (∀ cb rb, ¬ s.CopyAt row swapspace page cb rb) →
            ((∃ copy, s.findCopy swapspace page rest = .ok (some copy)) ↔
              ∃ other ∈ row :: rest, ∃ cb rb, s.CopyAt other swapspace page cb rb) := by
          intro no
          rw [ih]
          constructor
          · rintro ⟨other, member, copy⟩
            exact ⟨other, List.mem_cons_of_mem row member, copy⟩
          · rintro ⟨other, member, cb, rb, copy⟩
            rcases List.mem_cons.mp member with rfl | later
            · exact absurd copy (no cb rb)
            · exact ⟨other, later, cb, rb, copy⟩
        rw [index_eq_ok.mpr leads.1, index_eq_ok.mpr leads.2]
        dsimp only [bind, Except.bind]
        rw [isBitmap]
        dsimp only
        split
        · rename_i stopped
          refine goesOn fun cb' rb' copy => ?_
          obtain ⟨rfl, rfl⟩ := leads.unique copy.1
          exact copy.2.1 stopped
        · rename_i readable
          split
          · rename_i recorded
            refine ⟨fun _ => ⟨row, List.mem_cons_self, cb, rb, leads, readable, ?_⟩,
              fun _ => ⟨(cb, rb), rfl⟩⟩
            rw [isBitmap]
            exact recorded
          · rename_i missing
            refine goesOn fun cb' rb' copy => ?_
            obtain ⟨rfl, rfl⟩ := leads.unique copy.1
            have recorded := copy.2.2
            rw [isBitmap] at recorded
            exact missing recorded

/-- `request_read` finds a block when one of the rows leads to a copy. -/
theorem requestRead_iff (valid : s.RowsValid) (on : s.rdmaOn = true) :
    (∃ copy, s.requestRead swapspace page = .ok (some copy)) ↔
      ∃ row cb rb, s.CopyAt row swapspace page cb rb := by
  rw [requestRead, if_pos on, findCopy_iff valid]
  constructor
  · rintro ⟨row, _, copy⟩
    exact ⟨row, copy⟩
  · rintro ⟨row, copy⟩
    exact ⟨row, List.mem_finRange row, copy⟩

/-! ## What a step leaves -/

/-- A row leads where it did or is unmapped, and no bitmap is freed. -/
structure KeepsRows (s next : ValetSession servers replicas) : Prop where
  rows : ∀ row swapspace, next.cbIndexMap row swapspace = noCbMapped ∨
    (next.cbIndexMap row swapspace = s.cbIndexMap row swapspace ∧
      next.mappingSwapspaceToRb row swapspace = s.mappingSwapspaceToRb row swapspace)
  allocated : ∀ cb rb, s.Allocated cb rb → next.Allocated cb rb

theorem KeepsRows.refl : KeepsRows s s := ⟨fun _ _ => Or.inr ⟨rfl, rfl⟩, fun _ _ => id⟩

theorem KeepsRows.trans (first : KeepsRows s middle) (second : KeepsRows middle next) :
    KeepsRows s next where
  rows := by
    intro row swapspace
    rcases second.rows row swapspace with unmapped | ⟨server, block⟩
    · exact Or.inl unmapped
    · rcases first.rows row swapspace with unmapped | ⟨server', block'⟩
      · exact Or.inl (server.trans unmapped)
      · exact Or.inr ⟨server.trans server', block.trans block'⟩
  allocated := fun cb rb before => second.allocated cb rb (first.allocated cb rb before)

theorem SameBlocks.keepsRows (same : SameBlocks s next) : KeepsRows s next where
  rows := fun row swapspace => Or.inr
    ⟨by rw [same.servers], by rw [same.blocks]⟩
  allocated := by
    intro cb rb allocated
    rw [Allocated, same.remote]
    exact allocated

theorem keepsRows_modifyRbh {change : RemoteBlockHandler → RemoteBlockHandler}
    (keeps : ∀ rb, ((s.rbh cb).remoteBlock rb).bitmapG.isSome = true →
      ((change (s.rbh cb)).remoteBlock rb).bitmapG.isSome = true) :
    KeepsRows s (s.modifyRbh cb change) := by
  refine ⟨fun _ _ => Or.inr ⟨rfl, rfl⟩, fun other rb allocated => ?_⟩
  rcases eq_or_ne other cb with rfl | different
  · rw [Allocated, rbh_modifyRbh]
    exact keeps rb allocated
  · rw [Allocated, rbh_modifyRbh_of_ne _ different]
    exact allocated

theorem keepsRows_withRbState {state : RemoteBlockState} :
    KeepsRows s (s.modifyRbh cb fun rbh => rbh.withRbState rb state) := by
  refine keepsRows_modifyRbh fun at_ allocated => ?_
  rcases eq_or_ne at_ rb with rfl | different
  · simpa [RemoteBlockHandler.withRbState] using allocated
  · simpa [RemoteBlockHandler.withRbState, different] using allocated

theorem keepsRows_withBitmap {bitmap : Nat → Bool} :
    KeepsRows s (s.modifyRbh cb fun rbh => rbh.withBitmap rb bitmap) := by
  refine keepsRows_modifyRbh fun at_ allocated => ?_
  rcases eq_or_ne at_ rb with rfl | different
  · simp [RemoteBlockHandler.withBitmap]
  · simpa [RemoteBlockHandler.withBitmap, different] using allocated

theorem RowsValid.keeps (valid : s.RowsValid) (keeps : KeepsRows s next) : next.RowsValid := by
  intro row swapspace mapped
  obtain ⟨server, block⟩ := (keeps.rows row swapspace).resolve_left mapped
  rw [server] at mapped
  obtain ⟨cb, rb, leads, allocated⟩ := valid row swapspace mapped
  exact ⟨cb, rb, ⟨server.trans leads.1, block.trans leads.2⟩, keeps.allocated cb rb allocated⟩

/-- A row that is pointed to a block with a bitmap. -/
theorem RowsValid.set (valid : s.RowsValid) (allocated : s.Allocated cb rb) :
    ((s.setRb row swapspace rb.val).setCbIndex row swapspace cb.val).RowsValid := by
  have sets : SetsRow s ((s.setRb row swapspace rb.val).setCbIndex row swapspace cb.val) row
      swapspace cb.val rb.val := setsRow_set
  intro at_ elsewhere mapped
  by_cases here : at_ = row ∧ elsewhere = swapspace
  · refine ⟨cb, rb, ?_, allocated⟩
    rw [sets.leads, if_pos here]
    exact ⟨rfl, rfl⟩
  · rw [sets.server, if_neg here] at mapped
    obtain ⟨cb', rb', leads, before⟩ := valid at_ elsewhere mapped
    refine ⟨cb', rb', ?_, before⟩
    rw [sets.leads, if_neg here]
    exact leads

theorem rowsValid_mapBlock {msg : Message} {i : Block} (valid : s.RowsValid) :
    (((s.modifyRbh cb fun rbh => rbh.mapBlock msg i).setRb row swapspace i.val).setCbIndex row
      swapspace cb.val).RowsValid := by
  have maps : KeepsRows s (s.modifyRbh cb fun rbh => rbh.mapBlock msg i) := by
    refine keepsRows_modifyRbh fun at_ allocated => ?_
    rcases eq_or_ne at_ i with rfl | different
    · simp [RemoteBlockHandler.mapBlock, RemoteBlockHandler.RemoteBlock.mapped]
    · simpa [RemoteBlockHandler.mapBlock, different] using allocated
  refine (valid.keeps maps).set ?_
  rw [Allocated, rbh_modifyRbh]
  simp [RemoteBlockHandler.mapBlock, RemoteBlockHandler.RemoteBlock.mapped]

theorem RowsValid.recv {recv : Received} (valid : s.RowsValid)
    (receives : Receives s cb recv next) : next.RowsValid := by
  cases receives with
  | ignored => exact valid
  | refused => exact valid.keeps sameBlocks_setState.keepsRows
  | query => exact valid.keeps sameBlocks_query.keepsRows
  | @migMap msg alive type =>
      have answered : KeepsRows s (s.setState cb .recvMigMap) := sameBlocks_setState.keepsRows
      refine valid.keeps (answered.trans (keepsRows_modifyRbh fun rb allocated => ?_))
      unfold RemoteBlockHandler.valetMigrationBlockInit
      dsimp only
      split
      · rfl
      · exact allocated
  | @mrMap msg next alive type inits =>
      have before : ((s.setCbState cb .mapped).setState cb .recvMrMap).RowsValid :=
        valid.keeps sameBlocks_mrMap.keepsRows
      cases inits with
      | nothing => exact before
      | mapped => exact rowsValid_mapBlock before
  | done => exact valid.keeps sameBlocks_done.keepsRows
  | evict => exact valid.keeps sameBlocks_evict.keepsRows

variable {oldCb newCb : Fin servers} {round : Round} {dest : Dest}

theorem TakesEvict.keepsRows (takes : TakesEvict s oldCb round next) : KeepsRows s next := by
  cases takes with
  | @taken src swapspace rb evict isSrc isSwapspace isRb =>
      have migrates : KeepsRows s (s.setCbState src .migrating) := sameBlocks_setCbState.keepsRows
      exact migrates.trans keepsRows_withRbState

theorem Copies.keepsRows (copies : Copies s oldCb newCb round dest next) : KeepsRows s next := by
  cases copies with
  | copied => exact keepsRows_withBitmap

theorem Resets.keepsRows {newCb : Option (Fin servers)} {replicaIndex clientEvictRbIndex : Int}
    (resets : Resets s oldCb newCb replicaIndex clientEvictRbIndex next) : KeepsRows s next := by
  cases resets with
  | unmarked => exact sameBlocks_clearNew.keepsRows
  | @cleared i row swapspace marked isRow isSwapspace =>
      have clears : KeepsRows s (s.modifyRbh oldCb RemoteBlockHandler.clearMarked) := by
        refine keepsRows_modifyRbh fun rb allocated => ?_
        unfold RemoteBlockHandler.clearMarked
        dsimp only
        split
        · simpa using allocated
        · exact allocated
      have unmaps : KeepsRows (s.modifyRbh oldCb RemoteBlockHandler.clearMarked)
          ((s.modifyRbh oldCb RemoteBlockHandler.clearMarked).setCbIndex row swapspace
            noCbMapped) := by
        refine ⟨fun at_ elsewhere => ?_, fun _ _ => id⟩
        rcases eq_or_ne at_ row with rfl | otherRow
        · rcases eq_or_ne elsewhere swapspace with rfl | different
          · left
            simp [setCbIndex]
          · right
            simp [setCbIndex, different]
        · right
          simp [setCbIndex, otherRow]
      exact (clears.trans unmaps).trans sameBlocks_clearNew.keepsRows

theorem Cleans.keepsRows {newCb : Option (Fin servers)} (cleans : Cleans s oldCb newCb round next) :
    KeepsRows s next := by
  cases cleans with
  | @cleaned middle src swapspace rb deleted resets isSrc isSwapspace isRb =>
      refine resets.keepsRows.trans (KeepsRows.trans ?_ keepsRows_withRbState)
      split
      · exact sameBlocks_setCbState.keepsRows
      · exact .refl

theorem Remaps.rowsValid (valid : s.RowsValid) (remaps : Remaps s oldCb newCb round dest next)
    (isServer : dest.cbIndex = cb.val) (isBlock : dest.rbIndex = rb.val)
    (allocated : s.Allocated cb rb) : next.RowsValid := by
  cases remaps with
  | @moved swapspace done isSwapspace =>
      have pointed : ((s.setRb 0 swapspace rb.val).setCbIndex 0 swapspace cb.val).RowsValid :=
        valid.set allocated
      rw [isServer, isBlock]
      exact pointed.keeps (sameBlocks_modifyRbh rfl).keepsRows

theorem Receives.rdmaOn {recv : Received} (receives : Receives s cb recv next)
    (on : s.rdmaOn = true) : next.rdmaOn = true := by
  cases receives with
  | mrMap _ _ inits =>
      cases inits with
      | nothing => exact on
      | mapped => exact on
  | ignored | refused | query | migMap | done | evict => exact on

theorem Cleans.rdmaOn {newCb : Option (Fin servers)} (cleans : Cleans s oldCb newCb round next)
    (on : s.rdmaOn = true) : next.rdmaOn = true := by
  cases cleans with
  | @cleaned middle src swapspace rb deleted resets isSrc isSwapspace isRb =>
      have still : middle.rdmaOn = true := by
        cases resets with
        | unmarked => exact sameBlocks_clearNew.on on
        | cleared => exact sameBlocks_clearNew.on on
      cases newCb with
      | none => exact still
      | some newCb => exact still

theorem Receives.sameBlocks_of_evict {msg : Message} (receives : Receives s cb (.message msg) next)
    (type : msg.type = .evict) : SameBlocks s next := by
  cases receives with
  | ignored => exact .refl
  | refused => exact sameBlocks_setState
  | migMap _ other | mrMap _ other | done _ other =>
      rw [type] at other
      cases other
  | evict => exact sameBlocks_evict

/-- A reply for a row changes no block, or maps its first key in a client with the same blocks. -/
theorem Receives.mapsRow {msg : Message} (receives : Receives s cb (.message msg) next)
    (type : msg.type = .respMrMap) : SameBlocks s next ∨
      (s.Alive cb ∧ ∃ i, msg.firstRkey = some i ∧ ∃ into : Fin (replicas + 1),
        msg.replicaIndex = into.val ∧ ∃ select : Swapspace, msg.sizeGb = select.val ∧
          ∃ started, SameBlocks s started ∧
            next = ((started.modifyRbh cb fun rbh => rbh.mapBlock msg i).setRb into select
              i.val).setCbIndex into select cb.val) := by
  cases receives with
  | ignored => exact Or.inl .refl
  | refused => exact Or.inl sameBlocks_setState
  | migMap _ other | done _ other | evict _ other =>
      rw [type] at other
      cases other
  | mrMap alive _ inits =>
      cases inits with
      | nothing => exact Or.inl sameBlocks_mrMap
      | @mapped i into select first isRow isSelect =>
          exact Or.inr ⟨alive, i, first, into, isRow, select, isSelect, _, sameBlocks_mrMap, rfl⟩

/-- A reply for a row with a key that is taken maps the row. -/
theorem Receives.mapped_of_alive {msg : Message} {i : Block} {into : Fin (replicas + 1)}
    {select : Swapspace} (receives : Receives s cb (.message msg) next)
    (type : msg.type = .respMrMap) (alive : s.Alive cb) (first : msg.firstRkey = some i)
    (isRow : msg.replicaIndex = into.val) (isSelect : msg.sizeGb = select.val) :
    ∃ started, SameBlocks s started ∧
      next = ((started.modifyRbh cb fun rbh => rbh.mapBlock msg i).setRb into select
        i.val).setCbIndex into select cb.val := by
  cases receives with
  | ignored error => exact absurd error alive.1
  | refused reason => exact absurd reason (alive.accepts (by rw [type]; rfl))
  | migMap _ other | done _ other | evict _ other =>
      rw [type] at other
      cases other
  | mrMap _ _ inits =>
      cases inits with
      | nothing empty =>
          rw [first] at empty
          cases empty
      | @mapped j at_ named found isAt isNamed =>
          have sameBlock : j = i := Option.some.inj (found.symm.trans first)
          have sameRow : at_ = into := Fin.ext (Int.ofNat.inj (isAt.symm.trans isRow))
          have sameSelect : named = select := Fin.ext (Int.ofNat.inj (isNamed.symm.trans isSelect))
          subst sameBlock
          subst sameRow
          subst sameSelect
          exact ⟨_, sameBlocks_mrMap, rfl⟩

/-! ## Copies -/

/-- A copy depends on its row and its block. -/
theorem CopyAt.of_eq (copy : s.CopyAt row swapspace page cb rb)
    (server : next.cbIndexMap row swapspace = s.cbIndexMap row swapspace)
    (block : next.mappingSwapspaceToRb row swapspace = s.mappingSwapspaceToRb row swapspace)
    (remote : (next.rbh cb).remoteBlock rb = (s.rbh cb).remoteBlock rb) :
    next.CopyAt row swapspace page cb rb := by
  obtain ⟨⟨isServer, isBlock⟩, readable, recorded⟩ := copy
  refine ⟨⟨server.trans isServer, block.trans isBlock⟩, ?_, ?_⟩
  · rw [rbState, remote]
    exact readable
  · rw [remote]
    exact recorded

theorem CopyAt.same (copy : s.CopyAt row swapspace page cb rb) (same : SameBlocks s next) :
    next.CopyAt row swapspace page cb rb :=
  copy.of_eq (by rw [same.servers]) (by rw [same.blocks]) (by rw [same.remote])

theorem CopyAt.of_same (copy : next.CopyAt row swapspace page cb rb) (same : SameBlocks s next) :
    s.CopyAt row swapspace page cb rb :=
  copy.of_eq (by rw [same.servers]) (by rw [same.blocks]) (by rw [same.remote])

/-- Write completions only add to a bitmap. -/
theorem CopyAt.writeDone {write : Posted servers} {bitmap : Nat → Bool}
    (copy : s.CopyAt row swapspace page cb rb)
    (found : ((s.rbh write.cb).remoteBlock write.rb).bitmapG = some bitmap) :
    (s.modifyRbh write.cb fun rbh => rbh.withBitmap write.rb
      (Machine.bitmapGroupSet bitmap write.offset write.len)).CopyAt row swapspace page cb rb := by
  by_cases here : cb = write.cb ∧ rb = write.rb
  · obtain ⟨rfl, rfl⟩ := here
    obtain ⟨leads, readable, recorded⟩ := copy
    refine ⟨leads, ?_, ?_⟩
    · rw [rbState, rbh_modifyRbh]
      simpa [RemoteBlockHandler.withBitmap, rbState] using readable
    · rw [found] at recorded
      have before : bitmap page = true := recorded
      rw [rbh_modifyRbh]
      simp [RemoteBlockHandler.withBitmap, Machine.bitmapGroupSet, before]
  · refine copy.of_eq rfl rfl ?_
    rcases eq_or_ne cb write.cb with rfl | elsewhere
    · have different : rb ≠ write.rb := fun same => here ⟨rfl, same⟩
      rw [rbh_modifyRbh]
      simp [RemoteBlockHandler.withBitmap, different]
    · rw [rbh_modifyRbh_of_ne _ elsewhere]

/-- The eviction of a block of another server. -/
theorem CopyAt.takeEvict (copy : s.CopyAt row swapspace page cb rb)
    (takes : TakesEvict s oldCb round next) (other : cb ≠ oldCb) :
    next.CopyAt row swapspace page cb rb := by
  cases takes with
  | taken =>
      refine copy.of_eq rfl rfl ?_
      rw [rbh_modifyRbh_of_ne _ other]
      rfl

theorem CopyAt.clean {newCb : Option (Fin servers)} (copy : s.CopyAt row swapspace page cb rb)
    (cleans : Cleans s oldCb newCb round next) (other : cb ≠ oldCb)
    (names : (round.replicaIndex, round.clientEvictRbIndex) ≠
      ((row.val : Int), (swapspace.val : Int))) : next.CopyAt row swapspace page cb rb := by
  refine copy.of_eq (cleans.forward names) ?_ ?_
  · cases cleans with
    | @cleaned middle src at_ found deleted resets isSrc isAt isRb =>
        have kept : middle.mappingSwapspaceToRb = s.mappingSwapspaceToRb := by
          cases resets with
          | unmarked => exact sameBlocks_clearNew.blocks
          | cleared => exact sameBlocks_clearNew.blocks
        rw [← kept]
        cases newCb <;> rfl
  · rcases cleans.rbh_other other with same | same
    · rw [same]
    · rw [same]

/-- A map reply leaves the copies of other rows in other blocks, and no others. -/
theorem copyAt_mapBlock {msg : Message} {i : Block} {into : Fin (replicas + 1)} {select : Swapspace} :
    (((s.modifyRbh other fun rbh => rbh.mapBlock msg i).setRb into select i.val).setCbIndex into
      select other.val).CopyAt row swapspace page cb rb ↔
      s.CopyAt row swapspace page cb rb ∧ ¬ (row = into ∧ swapspace = select) ∧
        ¬ (cb = other ∧ rb = i) := by
  have sets : SetsRow (s.modifyRbh other fun rbh => rbh.mapBlock msg i)
      (((s.modifyRbh other fun rbh => rbh.mapBlock msg i).setRb into select i.val).setCbIndex into
        select other.val) into select other.val i.val := setsRow_set
  have kept (elsewhere : ¬ (cb = other ∧ rb = i)) :
      ((s.modifyRbh other fun rbh => rbh.mapBlock msg i).rbh cb).remoteBlock rb =
        (s.rbh cb).remoteBlock rb := by
    rcases eq_or_ne cb other with rfl | different
    · have away : rb ≠ i := fun same => elsewhere ⟨rfl, same⟩
      rw [rbh_modifyRbh]
      simp [RemoteBlockHandler.mapBlock, away]
    · rw [rbh_modifyRbh_of_ne _ different]
  constructor
  · intro copy
    have elsewhere : ¬ (cb = other ∧ rb = i) := by
      rintro ⟨rfl, rfl⟩
      -- the block that was handed out records nothing
      have recorded := copy.2.2
      rw [rbh_setCbIndex, rbh_setRb, rbh_modifyRbh] at recorded
      simp [RemoteBlockHandler.mapBlock, RemoteBlockHandler.RemoteBlock.mapped] at recorded
    have otherRow : ¬ (row = into ∧ swapspace = select) := by
      intro here
      have leads := sets.leads.mp copy.1
      rw [if_pos here] at leads
      exact elsewhere ⟨Fin.ext (Int.ofNat.inj leads.1).symm, Fin.ext (Int.ofNat.inj leads.2).symm⟩
    refine ⟨copy.of_eq ?_ ?_ (kept elsewhere).symm, otherRow, elsewhere⟩
    · exact (sets.server row swapspace).symm ▸ (if_neg otherRow).symm
    · exact (sets.block row swapspace).symm ▸ (if_neg otherRow).symm
  · rintro ⟨copy, otherRow, elsewhere⟩
    refine copy.of_eq ?_ ?_ (kept elsewhere)
    · exact (sets.server row swapspace).trans (if_neg otherRow)
    · exact (sets.block row swapspace).trans (if_neg otherRow)

end ValetSession

namespace WritePath

open ValetSession

/-- The destination of a round is a block that its server has handed out. -/
def DestsExist (p : WritePath servers replicas) : WritePathLabel servers replicas → Prop
  | .control (.remap cb) =>
      match p.control.handler cb with
      | .waitDone _ _ dest => ∃ (destCb : Fin servers) (rb : Block), dest.cbIndex = destCb.val ∧
          dest.rbIndex = rb.val ∧ p.control.session.Allocated destCb rb
      | _ => True
  | _ => True

/-- Other servers than `cb` evict blocks without a destination, and their rounds are about other
rows than this one; no map reply comes. -/
def EvictsOthers (row : Fin (replicas + 1)) (swapspace : Swapspace) (cb : Fin servers)
    (p : WritePath servers replicas) : WritePathLabel servers replicas → Prop
  | .control label =>
      match label with
      | .recv _ (.query _) => True
      | .recv at_ (.message msg) => msg.type = .evict ∧ at_ ≠ cb
      | .takeEvict at_ => at_ ≠ cb
      | .clean at_ => at_ ≠ cb ∧
          match p.control.handler at_ with
          | .waitDelete round _ => (round.replicaIndex, round.clientEvictRbIndex) ≠
              ((row.val : Int), (swapspace.val : Int))
          | _ => True
      | .chooseDest _ _ | .readSlot _ | .remap _ | .copyBitmap _ => False
      | _ => True
  | _ => True

/-- Swapspaces are written and mapped, and nothing else happens. -/
def Writes : WritePath servers replicas → WritePathLabel servers replicas → Prop
  | _, .control label =>
      match label with
      | .ask _ | .getCb _ | .noNodes | .chooseNodes _ | .mapRow | .sendDone _ => True
      | .recv _ (.query _) => True
      | .recv _ (.message msg) => msg.type = .respMrMap
      | _ => False
  | _, _ => True

/-- A map reply that is taken leaves a copy of the page: in another row than the one that it maps,
and in another block than the one that it hands out. -/
def SparesCopy (swapspace : Swapspace) (page : Nat) (p : WritePath servers replicas) :
    WritePathLabel servers replicas → Prop
  | .control (.recv cb (.message msg)) => p.control.session.Alive cb →
      ∀ i, msg.firstRkey = some i → ∀ into : Fin (replicas + 1), msg.replicaIndex = into.val →
        ∀ select : Swapspace, msg.sizeGb = select.val → ∃ row other rb,
          p.control.session.CopyAt row swapspace page other rb ∧
            ¬ (row = into ∧ swapspace = select) ∧ ¬ (other = cb ∧ rb = i)
  | _ => True

/-- What a step does to the client. -/
inductive Works (p next : WritePath servers replicas) :
    WritePathLabel servers replicas → Prop where
  | control {label : ControlLabel servers replicas}
      (moves : Control.Moves p.control label next.control) : Works p next (.control label)
  | wrote {i offset len posts : Nat} (same : next.control = p.control) :
      Works p next (.rdmaWrite i offset len posts)
  | done {i : Nat} {write : Posted servers} {bitmap : Nat → Bool}
      (found : ((p.control.session.rbh write.cb).remoteBlock write.rb).bitmapG = some bitmap)
      (sets : next.control.session = p.control.session.modifyRbh write.cb fun rbh =>
        rbh.withBitmap write.rb (Machine.bitmapGroupSet bitmap write.offset write.len)) :
      Works p next (.writeDone i)

variable {p next : WritePath servers replicas} {cb : Fin servers} {rb : Block}
  {row : Fin (replicas + 1)} {swapspace : Swapspace} {page : Nat}
  {label : WritePathLabel servers replicas}

theorem works_of_step (edge : p.step label = some next) : Works p next label := by
  cases label with
  | control label =>
      obtain ⟨control, moved, rest⟩ := Option.bind_eq_some_iff.mp edge
      obtain ⟨answer, _, last⟩ := Option.bind_eq_some_iff.mp rest
      cases last
      exact .control (Control.moves_of_step moved)
  | rdmaWrite i offset len posts =>
      obtain ⟨⟨swapspace, replicaCbList⟩, _, rest⟩ := Option.bind_eq_some_iff.mp edge
      obtain ⟨posted, _, last⟩ := Option.bind_eq_some_iff.mp rest
      cases last
      exact .wrote rfl
  | writeDone i =>
      obtain ⟨write, _, rest⟩ := Option.bind_eq_some_iff.mp edge
      obtain ⟨session, done, last⟩ := Option.bind_eq_some_iff.mp rest
      cases last
      have ran := toOption_eq_some done
      unfold ValetSession.writeDone at ran
      split at ran
      · cases ran
      · rename_i bitmap found
        cases ran
        exact .done found rfl

/-- The steps of a thread that touch neither rows nor blocks. -/
def Aside : ControlLabel servers replicas → Prop
  | .ask _ | .getCb _ | .noNodes | .chooseNodes _ | .mapRow | .sendDone _ | .recv _ (.query _) |
      .noDest _ | .chooseDest _ _ | .readSlot _ | .postDelete _ => True
  | _ => False

theorem sameBlocks_aside {m next : Control servers replicas} {label : ControlLabel servers replicas}
    (moves : Control.Moves m label next) (aside : Aside label) :
    SameBlocks m.session next.session := by
  cases moves with
  | ask => exact sameBlocks_queried
  | getFinding | getMapped | noNodes | noDest | readSlot => exact .refl
  | chooseNodes => exact (sameBlocks_foldl_queried _).trans sameBlocks_requestMrMap
  | mapRow => exact Control.sameBlocks_mapRow
  | @recv cb recv session receives =>
      cases recv with
      | message msg => exact aside.elim
      | query qmsg =>
          cases receives with
          | ignored => exact .refl
          | refused => exact sameBlocks_setState
          | query => exact sameBlocks_query
  | sendDone => exact sameBlocks_sendDone
  | chooseDest => exact sameBlocks_queried.trans sameBlocks_modifySendBuf
  | postDelete => exact sameBlocks_sendDeleteRb
  | takeEvict | remap | copyBitmap | clean => exact aside.elim

theorem rowsValid_step (valid : p.control.session.RowsValid) (exist : DestsExist p label)
    (edge : p.step label = some next) : next.control.session.RowsValid := by
  cases works_of_step edge with
  | wrote same =>
      rw [same]
      exact valid
  | done found sets =>
      rw [sets]
      exact valid.keeps keepsRows_withBitmap
  | @control label moves =>
      generalize next.control = control at moves
      cases label with
      | recv at_ recv =>
          cases moves with
          | recv receives => exact valid.recv receives
      | takeEvict at_ =>
          cases moves with
          | takeEvict waits takes => exact valid.keeps takes.keepsRows
      | remap at_ =>
          cases moves with
          | @remap _ newCb round dest session waits remaps =>
              simp only [DestsExist, waits] at exist
              obtain ⟨destCb, rb, isServer, isBlock, allocated⟩ := exist
              exact remaps.rowsValid valid isServer isBlock allocated
      | copyBitmap at_ =>
          cases moves with
          | copyBitmap remapped copies => exact valid.keeps copies.keepsRows
      | clean at_ =>
          cases moves with
          | clean waits cleans => exact valid.keeps cleans.keepsRows
      | _ => exact valid.keeps (sameBlocks_aside moves trivial).keepsRows

/-- Evictions and writes give no row a destination. -/
theorem EvictsOthers.destsExist (evicts : EvictsOthers row swapspace cb p label) :
    DestsExist p label := by
  unfold DestsExist
  split
  · exact evicts.elim
  · trivial

theorem Writes.destsExist (writes : Writes p label) : DestsExist p label := by
  unfold DestsExist
  split
  · exact writes.elim
  · trivial

/-- What the evictions of other servers leave as it is. -/
structure Undestroyed (row : Fin (replicas + 1)) (swapspace : Swapspace) (page : Nat)
    (cb : Fin servers) (rb : Block) (p : WritePath servers replicas) : Prop where
  valid : p.control.session.RowsValid
  on : p.control.session.rdmaOn = true
  copy : p.control.session.CopyAt row swapspace page cb rb

theorem rdmaOn_step (on : p.control.session.rdmaOn = true) (edge : p.step label = some next) :
    next.control.session.rdmaOn = true := by
  cases works_of_step edge with
  | wrote same =>
      rw [same]
      exact on
  | done found sets =>
      rw [sets]
      exact on
  | @control label moves =>
      generalize next.control = control at moves
      cases label with
      | recv at_ recv =>
          cases moves with
          | recv receives => exact receives.rdmaOn on
      | takeEvict at_ =>
          cases moves with
          | takeEvict waits takes =>
              cases takes with
              | taken => exact on
      | remap at_ =>
          cases moves with
          | remap waits remaps =>
              cases remaps with
              | moved => exact on
      | copyBitmap at_ =>
          cases moves with
          | copyBitmap remapped copies =>
              cases copies with
              | copied => exact on
      | clean at_ =>
          cases moves with
          | clean waits cleans => exact cleans.rdmaOn on
      | _ => exact (sameBlocks_aside moves trivial).on on

theorem Undestroyed.step (kept : Undestroyed row swapspace page cb rb p)
    (evicts : EvictsOthers row swapspace cb p label) (edge : p.step label = some next) :
    Undestroyed row swapspace page cb rb next := by
  refine ⟨rowsValid_step kept.valid evicts.destsExist edge, rdmaOn_step kept.on edge, ?_⟩
  cases works_of_step edge with
  | wrote same =>
      rw [same]
      exact kept.copy
  | done found sets =>
      rw [sets]
      exact kept.copy.writeDone found
  | @control label moves =>
      generalize next.control = control at moves
      cases label with
      | recv at_ recv =>
          cases recv with
          | query qmsg => exact kept.copy.same (sameBlocks_aside moves trivial)
          | message msg =>
              obtain ⟨type, other⟩ := evicts
              cases moves with
              | recv receives => exact kept.copy.same (receives.sameBlocks_of_evict type)
      | takeEvict at_ =>
          cases moves with
          | takeEvict waits takes => exact kept.copy.takeEvict takes (Ne.symm evicts)
      | clean at_ =>
          cases moves with
          | @clean _ round newCb session waits cleans =>
              simp only [EvictsOthers, waits] at evicts
              exact kept.copy.clean cleans evicts.1.symm evicts.2
      | remap | copyBitmap => exact evicts.elim
      | _ => exact kept.copy.same (sameBlocks_aside moves trivial)

/-- A copy of the page can be found. -/
structure Findable (swapspace : Swapspace) (page : Nat) (p : WritePath servers replicas) :
    Prop where
  valid : p.control.session.RowsValid
  on : p.control.session.rdmaOn = true
  copy : ∃ row cb rb, p.control.session.CopyAt row swapspace page cb rb

theorem Findable.finds (findable : Findable swapspace page p) : p.Finds swapspace page :=
  (requestRead_iff findable.valid findable.on).mpr findable.copy

theorem Findable.step (findable : Findable swapspace page p) (writes : Writes p label)
    (spares : SparesCopy swapspace page p label) (edge : p.step label = some next) :
    Findable swapspace page next := by
  refine ⟨rowsValid_step findable.valid writes.destsExist edge, rdmaOn_step findable.on edge, ?_⟩
  obtain ⟨row, cb, rb, copy⟩ := findable.copy
  cases works_of_step edge with
  | wrote same =>
      rw [same]
      exact ⟨row, cb, rb, copy⟩
  | done found sets =>
      rw [sets]
      exact ⟨row, cb, rb, copy.writeDone found⟩
  | @control label moves =>
      generalize next.control = control at moves
      cases label with
      | recv at_ recv =>
          cases recv with
          | query qmsg => exact ⟨row, cb, rb, copy.same (sameBlocks_aside moves trivial)⟩
          | message msg =>
              cases moves with
              | @recv _ _ session receives =>
                  rcases receives.mapsRow writes with same |
                    ⟨alive, i, first, into, isRow, select, isSelect, started, same, rfl⟩
                  · exact ⟨row, cb, rb, copy.same same⟩
                  · obtain ⟨kept, other, found, still, otherRow, elsewhere⟩ :=
                      spares alive i first into isRow select isSelect
                    exact ⟨kept, other, found,
                      copyAt_mapBlock.mpr ⟨still.same same, otherRow, elsewhere⟩⟩
      | takeEvict | noDest | chooseDest | readSlot | remap | copyBitmap | postDelete | clean =>
          exact writes.elim
      | _ => exact ⟨row, cb, rb, copy.same (sameBlocks_aside moves trivial)⟩

/-- A step after which the page is found has spared a copy. -/
theorem Findable.spares (findable : Findable swapspace page p) (writes : Writes p label)
    (edge : p.step label = some next) (finds : next.Finds swapspace page) :
    SparesCopy swapspace page p label := by
  have valid := rowsValid_step findable.valid writes.destsExist edge
  obtain ⟨row, other, rb, copy⟩ :=
    (requestRead_iff valid (rdmaOn_step findable.on edge)).mp finds
  unfold SparesCopy
  split
  · rename_i cb msg
    intro alive i first into isRow select isSelect
    cases works_of_step edge with
    | control moves =>
        generalize next.control = control at moves copy
        cases moves with
        | @recv _ _ session receives =>
            obtain ⟨started, same, rfl⟩ :=
              receives.mapped_of_alive writes alive first isRow isSelect
            obtain ⟨before, otherRow, elsewhere⟩ := copyAt_mapBlock.mp copy
            exact ⟨row, other, rb, before.of_same same, otherRow, elsewhere⟩
  · trivial

/-- A row leads to an unstopped block that records a page, and other servers evict their blocks.
Through the writes that follow, `request_read` finds the page just as long as every map reply leaves
a copy. -/
theorem read_survives_iff {before rounds writes : List (WritePathLabel servers replicas)}
    {start evicted last : WritePath servers replicas}
    (reach : Run step DestsExist init before start) (on : start.control.session.rdmaOn = true)
    (copy : start.control.session.CopyAt row swapspace page cb rb)
    (evictions : Run step (EvictsOthers row swapspace cb) start rounds evicted)
    (run : Run step Writes evicted writes last) :
    (∀ count middle, exec step evicted (writes.take count) = some middle →
        middle.Finds swapspace page) ↔
      Run step (fun p label => Writes p label ∧ SparesCopy swapspace page p label) evicted writes
        last := by
  have unmapped : (init : WritePath servers replicas).control.session.RowsValid :=
    fun _ _ mapped => absurd rfl mapped
  have valid : start.control.session.RowsValid :=
    reach.preserves (fun valid exist edge => rowsValid_step valid exist edge) unmapped
  have kept : Undestroyed row swapspace page cb rb evicted :=
    evictions.preserves (fun kept evicts edge => kept.step evicts edge) ⟨valid, on, copy⟩
  have findable : Findable swapspace page evicted :=
    ⟨kept.valid, kept.on, row, cb, rb, kept.copy⟩
  exact guarded_iff_within
    (fun findable writes spares edge => Findable.step findable writes spares edge)
    (fun findable => Findable.finds findable)
    (fun findable writes edge finds => Findable.spares findable writes edge finds) findable run

instance (s : ValetSession servers replicas) (row : Fin (replicas + 1)) (swapspace : Swapspace)
    (page : Nat) (cb : Fin servers) (rb : Block) : Decidable (s.CopyAt row swapspace page cb rb) :=
  inferInstanceAs (Decidable (_ ∧ _))

instance (s : ValetSession servers replicas) (cb : Fin servers) (rb : Block) :
    Decidable (s.Allocated cb rb) :=
  inferInstanceAs (Decidable (_ = _))

instance (p : WritePath servers replicas) (label : WritePathLabel servers replicas) :
    Decidable (DestsExist p label) := by
  unfold DestsExist
  split
  · split <;> infer_instance
  · infer_instance

instance (p : WritePath servers replicas) (label : WritePathLabel servers replicas) :
    Decidable (EvictsOthers row swapspace cb p label) :=
  match label with
  | .rdmaWrite .. | .writeDone _ => isTrue trivial
  | .control label => by
      apply @ControlLabel.casesOn _ _
        (fun label => Decidable (EvictsOthers row swapspace cb p (.control label))) label <;> intros
      case recv at_ recv =>
        match recv with
        | .query _ | .message _ => unfold EvictsOthers; infer_instance
      case clean at_ =>
        unfold EvictsOthers
        dsimp only
        match p.control.handler at_ with
        | .waitEvict | .findDest _ | .waitMigMap .. | .waitDone .. | .copyBitmap ..
        | .sendDelete .. | .waitDelete .. => infer_instance
      all_goals unfold EvictsOthers; infer_instance

instance (p : WritePath servers replicas) (label : WritePathLabel servers replicas) :
    Decidable (Writes p label) :=
  match label with
  | .rdmaWrite .. | .writeDone _ => isTrue trivial
  | .control label => by
      apply @ControlLabel.casesOn _ _ (fun label => Decidable (Writes p (.control label))) label <;>
        intros
      case recv at_ recv =>
        match recv with
        | .query _ | .message _ => unfold Writes; infer_instance
      all_goals unfold Writes; infer_instance

instance (p : WritePath servers replicas) (label : WritePathLabel servers replicas) :
    Decidable (SparesCopy swapspace page p label) := by
  unfold SparesCopy
  split <;> infer_instance

/-- A reply for a row. -/
def rowReply (row : Fin 2) (cb : Fin 4) : WritePathLabel 4 1 :=
  .control (.recv cb (.message
    { blockMessage .respMrMap 0 firstSwapspace firstBlock with replicaIndex := row.val }))

/-- Both rows of the first swapspace are mapped. -/
def mapBoth (first second : Fin 4) : List (WritePathLabel 4 1) :=
  [.control (.getCb firstSwapspace), .control (.chooseNodes ![first, second]), rowReply 0 first,
    .control .mapRow, rowReply 1 second, .control .mapRow]

/-- The first page is written to servers 0 and 1. -/
def writePage : List (WritePathLabel 4 1) :=
  mapBoth 0 1 ++ [.rdmaWrite 0 0 valetPageSize 2, .writeDone 0, .writeDone 0]

/-- Server 0 evicts the block of row 0, and there is no destination. -/
def evictPrimary : List (WritePathLabel 4 1) :=
  [.control (.recv 0 (.message (blockMessage .evict 0 firstSwapspace firstBlock))),
    .control (.takeEvict 0), .control (.noDest 0), .control (.postDelete 0),
    .control (.sendDone 0), .control (.clean 0)]

/-- The next write has mapped row 0 again, and waits for the reply of row 1. -/
def mapPrimary : List (WritePathLabel 4 1) := (mapBoth 2 3).take 4

theorem read_survives_mapPrimary : ∃ start evicted : WritePath 4 1,
    exec step init writePage = some start ∧ exec step start evictPrimary = some evicted ∧
      ∀ count middle, exec step evicted (mapPrimary.take count) = some middle →
        middle.Finds firstSwapspace 0 := by
  have ran : ((exec (guardedStep step DestsExist) (init : WritePath 4 1) writePage).bind
      fun start => if start.control.session.rdmaOn = true ∧
          start.control.session.CopyAt 1 firstSwapspace 0 1 firstBlock then
        (exec (guardedStep step (EvictsOthers 1 firstSwapspace 1)) start evictPrimary).bind
          fun evicted => exec (guardedStep step fun p label => Writes p label ∧
            SparesCopy firstSwapspace 0 p label) evicted mapPrimary
      else none).isSome = true := by
    decide +kernel
  obtain ⟨last, ran⟩ := Option.isSome_iff_exists.mp ran
  obtain ⟨start, reach, ran⟩ := Option.bind_eq_some_iff.mp ran
  split at ran
  · rename_i ready
    obtain ⟨evicted, rounds, spares⟩ := Option.bind_eq_some_iff.mp ran
    have reach := run_of_guarded reach
    have rounds := run_of_guarded rounds
    have spares := run_of_guarded spares
    refine ⟨start, evicted, reach.exec_eq, rounds.exec_eq, ?_⟩
    have writes := spares.mono fun _ _ both => both.1
    exact (read_survives_iff reach ready.1 ready.2 rounds writes).mpr spares
  · cases ran

/-- The reply for row 1 replaces the block that has the page by an empty one. -/
theorem remap_loses_copy : ¬ ∀ (start evicted last : WritePath 4 1)
    (before rounds writes : List (WritePathLabel 4 1)),
    Run step DestsExist init before start →
      start.control.session.rdmaOn = true ∧
        start.control.session.CopyAt 1 firstSwapspace 0 1 firstBlock →
        Run step (EvictsOthers 1 firstSwapspace 1) start rounds evicted →
          evicted.control.session.cbIndexMap 0 firstSwapspace = noCbMapped →
            Run step Writes evicted writes last → last.Finds firstSwapspace 0 := by
  intro claim
  have ran : ((exec (guardedStep step DestsExist) (init : WritePath 4 1) writePage).bind
      fun start => if start.control.session.rdmaOn = true ∧
          start.control.session.CopyAt 1 firstSwapspace 0 1 firstBlock then
        (exec (guardedStep step (EvictsOthers 1 firstSwapspace 1)) start evictPrimary).bind
          fun evicted => if evicted.control.session.cbIndexMap 0 firstSwapspace = noCbMapped then
            (exec (guardedStep step Writes) evicted (mapBoth 2 3)).map fun last =>
              (last.control.session.requestRead firstSwapspace 0).toOption
          else none
      else none) = some (some none) := by
    decide +kernel
  obtain ⟨start, reach, ran⟩ := Option.bind_eq_some_iff.mp ran
  split at ran
  · rename_i ready
    obtain ⟨evicted, rounds, ran⟩ := Option.bind_eq_some_iff.mp ran
    split at ran
    · rename_i unmapped
      obtain ⟨last, writes, missing⟩ := Option.map_eq_some_iff.mp ran
      obtain ⟨copy, found⟩ := claim start evicted last _ _ _ (run_of_guarded reach) ready
        (run_of_guarded rounds) unmapped (run_of_guarded writes)
      rw [found] at missing
      cases missing
    · cases ran
  · cases ran

end WritePath

end Valet.Bd
