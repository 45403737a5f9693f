import Valet.Bd.ReplicaRepair
import Valet.Daemon.OwnRegions

/-!
# An eviction without a destination

With one replica and without a disk, a page that was reclaimed is only on its
server.  When a server evicts a block and no other server takes it, the block is
given up: `migration_handler` unmaps the swapspace and `recv_delete_rb` frees the
region.  What is left of the swapspace are its local pages.
-/

namespace Valet.Bd

open Valet.Wire Valet.Library Valet.Daemon

/-- A client, its local pages, and the servers with the contents of their regions. -/
structure Backing (servers : Nat) (Data : Type) where
  session : ValetSession servers 0
  store : PageStore Data
  client : Nat
  server : Fin servers → Daemon.Session
  contents : Fin servers → Region → Nat → Data

namespace Backing

open ValetSession

variable {servers : Nat} {Data : Type}

/-- What a server answers to the read of a page; it may have no region there any more. -/
def fetch (b : Backing servers Data) (cb : Fin servers) (rb : Block) (page : Nat) : Option Data :=
  match ((b.server cb).cbList b.client).rbIdxMap rb with
  | none => none
  | some region =>
      if (b.server cb).mrh.mallocMap region then some (b.contents cb region page) else none

/-- The page of a block that a page of the device is. -/
def pageOfBlock (i : Nat) : Nat := (startOf i &&& oneGbMask) / valetPageSize

/-- `read_from_brd`: what the buffer of the request gets. -/
def readFromBrd (b : Backing servers Data) (i : Nat) : Except Halt (Option Data) :=
  match b.store.pageOf (some i) with
  | some page => .ok (some (b.store.memory page))
  | none => do
      let swapspace ← index swapspaceSizeG (startOf i >>> oneGbShift : Nat)
      match ← b.session.requestRead swapspace (pageOfBlock i) with
      | none => return none
      | some (cb, rb) => return b.fetch cb rb (pageOfBlock i)

/-- A round of `migration_handler` for which `find_the_best_node` asks servers and finds none, with
`recv_delete_rb` of the server. -/
def evictWithoutDest (b : Backing servers Data) (oldCb : Fin servers) (evict : Message)
    (asked : List (Fin servers)) : Except Halt (Backing servers Data) := do
  let s ← b.session.recvDone oldCb (.message evict)
  let (round, s) ← s.takeEvict oldCb
  let s := (asked.foldl queried s).sendDeleteRb oldCb
  let server ← (b.server oldCb).recvDeleteRb b.client (s.cbList oldCb).sendBuf
  let s ← (s.sendDone oldCb).cleanRound oldCb none round
  return { b with session := s, server := Function.update b.server oldCb server }

/-- The swapspace of a page. -/
def InSwapspace (i : Nat) (swapspace : Swapspace) : Prop := startOf i >>> oneGbShift = swapspace.val

end Backing

namespace ValetSession

variable {servers : Nat} {s middle next : ValetSession servers 0} {oldCb cb : Fin servers}
  {rb : Block} {swapspace other : Swapspace} {page : Nat}

/-- One block of a server changes, and at most one swapspace is unmapped. -/
structure ChangesOne (s next : ValetSession servers 0) (oldCb : Fin servers) (rb : Block)
    (swapspace : Swapspace) : Prop where
  servers : ∀ other, other ≠ swapspace → next.cbIndexMap 0 other = s.cbIndexMap 0 other
  blocks : next.mappingSwapspaceToRb = s.mappingSwapspaceToRb
  remote : ∀ cb i, ¬ (cb = oldCb ∧ i = rb) →
    (next.rbh cb).remoteBlock i = (s.rbh cb).remoteBlock i
  on : s.rdmaOn = true → next.rdmaOn = true

theorem SameBlocks.changesOne (same : SameBlocks s next) : ChangesOne s next oldCb rb swapspace where
  servers := fun _ _ => by rw [same.servers]
  blocks := same.blocks
  remote := fun _ _ _ => by rw [same.remote]
  on := same.on

theorem ChangesOne.trans (first : ChangesOne s middle oldCb rb swapspace)
    (second : ChangesOne middle next oldCb rb swapspace) : ChangesOne s next oldCb rb swapspace where
  servers := fun other different =>
    (second.servers other different).trans (first.servers other different)
  blocks := second.blocks.trans first.blocks
  remote := fun cb i away => (second.remote cb i away).trans (first.remote cb i away)
  on := fun on => second.on (first.on on)

theorem changesOne_withRbState {state : RemoteBlockState} : ChangesOne s
    (s.modifyRbh oldCb fun rbh => rbh.withRbState rb state) oldCb rb swapspace := by
  refine ⟨fun _ _ => rfl, rfl, fun cb i away => ?_, id⟩
  rcases eq_or_ne cb oldCb with rfl | different
  · have elsewhere : i ≠ rb := fun same => away ⟨rfl, same⟩
    rw [rbh_modifyRbh]
    simp [RemoteBlockHandler.withRbState, elsewhere]
  · rw [rbh_modifyRbh_of_ne _ different]

theorem changesOne_clearMarked (marks : s.MarksOnly oldCb rb) : ChangesOne s
    (s.modifyRbh oldCb RemoteBlockHandler.clearMarked) oldCb rb swapspace := by
  refine ⟨fun _ _ => rfl, rfl, fun cb i away => ?_, id⟩
  rcases eq_or_ne cb oldCb with rfl | different
  · have unmarked : ¬ (s.rbh cb).migRbIdx i = true := by
      rw [marks i]
      exact fun same => away ⟨rfl, same⟩
    rw [rbh_modifyRbh]
    simp [RemoteBlockHandler.clearMarked, unmarked]
  · rw [rbh_modifyRbh_of_ne _ different]

/-- A read that finds a block other than the changed one finds it still. -/
theorem ChangesOne.requestRead (changes : ChangesOne s next oldCb rb swapspace)
    (different : other ≠ swapspace) (away : ¬ s.Leads 0 other oldCb rb)
    {copy : Fin servers × Block} (found : s.requestRead other page = .ok (some copy)) :
    next.requestRead other page = .ok (some copy) := by
  unfold ValetSession.requestRead at found ⊢
  split at found
  · rename_i on
    rw [if_pos (changes.on on)]
    have rows : List.finRange (0 + 1) = [(0 : Fin 1)] := rfl
    rw [rows, findCopy] at found ⊢
    rw [changes.servers other different, changes.blocks]
    split at found
    · cases found
    · rename_i mapped
      rw [if_neg mapped]
      obtain ⟨cb, isCb, rest⟩ := bind_eq_ok.mp found
      obtain ⟨block, isBlock, read⟩ := bind_eq_ok.mp rest
      refine bind_eq_ok.mpr ⟨cb, isCb, bind_eq_ok.mpr ⟨block, isBlock, ?_⟩⟩
      have same : (next.rbh cb).remoteBlock block = (s.rbh cb).remoteBlock block := by
        refine changes.remote cb block ?_
        rintro ⟨rfl, rfl⟩
        exact away ⟨index_eq_ok.mp isCb, index_eq_ok.mp isBlock⟩
      have state : next.rbState cb block = s.rbState cb block := by
        rw [rbState, same]
        rfl
      rw [state, same]
      split at read
      · cases read
      · rename_i readable
        rw [if_neg readable]
        split at read
        · cases read
        · rename_i bitmap isBitmap
          split at read
          · rename_i recorded
            cases read
            exact if_pos recorded
          · cases read
  · cases found

theorem leads_of_requestRead {cb : Fin servers} {block : Block}
    (found : s.requestRead other page = .ok (some (cb, block))) : s.Leads 0 other cb block := by
  unfold ValetSession.requestRead at found
  split at found
  · have rows : List.finRange (0 + 1) = [(0 : Fin 1)] := rfl
    rw [rows, findCopy] at found
    split at found
    · cases found
    · obtain ⟨at_, isCb, rest⟩ := bind_eq_ok.mp found
      obtain ⟨number, isBlock, read⟩ := bind_eq_ok.mp rest
      split at read
      · cases read
      · split at read
        · cases read
        · split at read
          · cases read
            exact ⟨index_eq_ok.mp isCb, index_eq_ok.mp isBlock⟩
          · cases read
  · cases found

/-- The block that an `EVICT` names has the number that row 0 has for the swapspace. -/
theorem TakesEvict.changesOne {round : Round} {evict : Message}
    (names : NamesBlock s oldCb evict 0 swapspace rb)
    (received : Receives s oldCb (.message evict) middle)
    (takes : TakesEvict middle oldCb round next) : ChangesOne s next oldCb rb swapspace := by
  have arrived := received.sameBlocks_of_evict names.type
  have evicted := received.evicted names.alive names.type
  refine ChangesOne.trans arrived.changesOne ?_
  cases takes with
  | @taken src at_ block evict isSrc isAt isBlock =>
      have isSwapspace : at_ = swapspace := by
        rw [evicted, rbh_modifyRbh] at isAt
        exact Fin.ext (Int.ofNat.inj (isAt.symm.trans names.isSwapspace))
      have isRb : block = rb := by
        rw [isSwapspace, arrived.blocks] at isBlock
        exact Fin.ext (Int.ofNat.inj (isBlock.symm.trans names.leads.2))
      subst isRb
      have migrates : ChangesOne middle (middle.setCbState src .migrating) oldCb block swapspace :=
        sameBlocks_setCbState.changesOne
      exact migrates.trans changesOne_withRbState

theorem Cleans.changesOne {round : Round} (cleans : Cleans s oldCb none round next)
    (marks : s.MarksOnly oldCb rb) (isSwapspace : round.clientEvictRbIndex = swapspace.val)
    (isRb : s.mappingSwapspaceToRb 0 swapspace = rb.val) :
    ChangesOne s next oldCb rb swapspace := by
  cases cleans with
  | @cleaned middle src at_ block deleted resets isSrc isAt isBlock =>
      have reset : ChangesOne s middle oldCb rb swapspace := by
        cases resets with
        | unmarked => exact SameBlocks.refl.changesOne
        | @cleared i row resetAt marked isRow isResetAt =>
            have same : resetAt = swapspace :=
              Fin.ext (Int.ofNat.inj (isResetAt.symm.trans isSwapspace))
            have clears : ChangesOne s (s.modifyRbh oldCb RemoteBlockHandler.clearMarked) oldCb rb
                swapspace := changesOne_clearMarked marks
            refine clears.trans ⟨fun other different => ?_, rfl, fun _ _ _ => rfl, id⟩
            rw [same, Fin.fin_one_eq_zero row]
            simp [clearNew, setCbIndex, different]
      have sameAt : at_ = swapspace := Fin.ext (Int.ofNat.inj (isAt.symm.trans isSwapspace))
      have sameBlock : block = rb := by
        rw [sameAt, reset.blocks] at isBlock
        exact Fin.ext (Int.ofNat.inj (isBlock.symm.trans isRb))
      subst sameBlock
      exact reset.trans changesOne_withRbState

/-- The keys of a `DELETE_RB` are the marks. -/
theorem rkey_sendDeleteRb (i : Block) :
    ((s.sendDeleteRb cb).cbList cb).sendBuf.rkey i = if (s.rbh cb).migRbIdx i then 1 else 0 := by
  simp [sendDeleteRb, modifySendBuf, setCb]

end ValetSession

namespace Backing

open ValetSession

variable {servers : Nat} {Data : Type} {b after : Backing servers Data} {oldCb : Fin servers}
  {evict : Message} {asked : List (Fin servers)} {swapspace : Swapspace} {rb : Block}

/-- What a round without a destination does. -/
structure GivesUp (b after : Backing servers Data) (oldCb : Fin servers) (rb : Block)
    (swapspace : Swapspace) : Prop where
  store : after.store = b.store
  client : after.client = b.client
  contents : after.contents = b.contents
  changes : ChangesOne b.session after.session oldCb rb swapspace
  unmapped : after.session.cbIndexMap 0 swapspace = noCbMapped
  others : ∀ cb, cb ≠ oldCb → after.server cb = b.server cb
  deletes : ∃ (msg : Message) (server : Daemon.Session), msg.firstRkey = some rb ∧
    (b.server oldCb).recvDeleteRb b.client msg = .ok server ∧ after.server oldCb = server

theorem givesUp_of_ok (names : NamesBlock b.session oldCb evict 0 swapspace rb)
    (ran : b.evictWithoutDest oldCb evict asked = .ok after) :
    GivesUp b after oldCb rb swapspace := by
  obtain ⟨evicted, received, ran⟩ := bind_eq_ok.mp ran
  obtain ⟨⟨round, taken⟩, took, ran⟩ := bind_eq_ok.mp ran
  obtain ⟨server, deleted, ran⟩ := bind_eq_ok.mp ran
  obtain ⟨last, cleaned, ran⟩ := bind_eq_ok.mp ran
  cases ran
  have received := receives_of_ok received
  have takes := takesEvict_of_ok took
  have cleans := cleans_of_ok cleaned
  obtain ⟨_, marks, isRound⟩ := evict_taken names received takes
  have asks : SameBlocks taken (asked.foldl queried taken) := sameBlocks_foldl_queried asked
  have sent : SameBlocks taken (((asked.foldl queried taken).sendDeleteRb oldCb).sendDone oldCb) :=
    (asks.trans sameBlocks_sendDeleteRb).trans sameBlocks_sendDone
  have changes : ChangesOne b.session
      (((asked.foldl queried taken).sendDeleteRb oldCb).sendDone oldCb) oldCb rb swapspace :=
    (TakesEvict.changesOne names received takes).trans sent.changesOne
  have marked : (((asked.foldl queried taken).sendDeleteRb oldCb).sendDone oldCb).MarksOnly oldCb
      rb := by
    apply marks.of_eq
    rw [migRbIdx_sendDone, rbh_sendDeleteRb, rbh_foldl_queried]
  have isSwapspace : round.clientEvictRbIndex = swapspace.val := by
    rw [isRound]
    exact names.isSwapspace
  refine ⟨rfl, rfl, rfl, changes.trans (cleans.changesOne marked isSwapspace ?_), ?_, ?_, ?_⟩
  · rw [changes.blocks]
    exact names.leads.2
  · refine cleans.unmaps ⟨rb, (marked rb).mpr rfl⟩ ?_ isSwapspace
    rw [isRound]
    exact names.isRow
  · exact fun cb different => Function.update_of_ne different ..
  · refine ⟨_, server, Message.firstRkey_eq_some fun i => ?_, deleted, Function.update_self ..⟩
    rw [rkey_sendDeleteRb, rbh_foldl_queried, ← marks i]
    split
    · rename_i mark
      simp [mark]
    · rename_i unmarked
      simp [unmarked]

theorem GivesUp.fetch_evicted (gives : GivesUp b after oldCb rb swapspace) (page : Nat) :
    after.fetch oldCb rb page = none := by
  obtain ⟨msg, server, first, deleted, isServer⟩ := gives.deletes
  have gone : (server.cbList b.client).rbIdxMap rb = none := by
    unfold Daemon.Session.recvDeleteRb at deleted
    simp only [first] at deleted
    split at deleted
    · cases deleted
    · cases deleted
      simp [Daemon.Session.setCb]
  unfold fetch
  rw [gives.client, isServer, gone]

/-- The other regions stay. -/
theorem GivesUp.fetch_other (gives : GivesUp b after oldCb rb swapspace)
    (owns : (b.server oldCb).OwnsRegions) {cb : Fin servers} {block : Block} {page : Nat}
    (away : ¬ (cb = oldCb ∧ block = rb)) : after.fetch cb block page = b.fetch cb block page := by
  unfold fetch
  rw [gives.client, gives.contents]
  rcases eq_or_ne cb oldCb with rfl | different
  · have elsewhere : block ≠ rb := fun same => away ⟨rfl, same⟩
    obtain ⟨msg, server, first, deleted, isServer⟩ := gives.deletes
    unfold Daemon.Session.recvDeleteRb at deleted
    simp only [first] at deleted
    split at deleted
    · cases deleted
    · rename_i region has
      have isRb : region = rb := owns _ _ _ has
      cases deleted
      have entry : ((after.server cb).cbList b.client).rbIdxMap block =
          ((b.server cb).cbList b.client).rbIdxMap block := by
        rw [isServer]
        simp [Daemon.Session.setCb, elsewhere]
      rw [entry]
      cases found : ((b.server cb).cbList b.client).rbIdxMap block with
      | none => rfl
      | some other =>
          have isBlock : other = block := owns _ _ _ found
          have malloced : (after.server cb).mrh.mallocMap other =
              (b.server cb).mrh.mallocMap other := by
            rw [isServer, isRb, isBlock]
            simp [Daemon.Session.setCb, elsewhere]
          dsimp only
          rw [malloced]
  · rw [gives.others cb different]

/-- A page of the evicted swapspace is read from the local pages or not at all. -/
theorem GivesUp.reads_local (gives : GivesUp b after oldCb rb swapspace) {i : Nat}
    (inside : InSwapspace i swapspace) :
    after.readFromBrd i = .ok ((b.store.pageOf (some i)).map b.store.memory) := by
  unfold readFromBrd
  rw [gives.store]
  cases held : b.store.pageOf (some i) with
  | some page => rfl
  | none =>
      have isSwapspace : index swapspaceSizeG (startOf i >>> oneGbShift : Nat) = .ok swapspace :=
        index_eq_ok.mpr (by rw [inside])
      have misses : after.session.requestRead swapspace (pageOfBlock i) = .ok none := by
        unfold ValetSession.requestRead
        split
        · have rows : List.finRange (0 + 1) = [(0 : Fin 1)] := rfl
          rw [rows, findCopy, if_pos gives.unmapped]
          rfl
        · rfl
      refine bind_eq_ok.mpr ⟨swapspace, isSwapspace, ?_⟩
      exact bind_eq_ok.mpr ⟨none, misses, rfl⟩

/-- A page of another swapspace with another block is read as before. -/
theorem GivesUp.reads_other (gives : GivesUp b after oldCb rb swapspace)
    (owns : (b.server oldCb).OwnsRegions) {i : Nat} {other : Swapspace} {data : Data}
    (inside : InSwapspace i other) (different : other ≠ swapspace)
    (away : ¬ b.session.Leads 0 other oldCb rb) (readable : b.readFromBrd i = .ok (some data)) :
    after.readFromBrd i = .ok (some data) := by
  unfold readFromBrd at readable ⊢
  rw [gives.store]
  cases held : b.store.pageOf (some i) with
  | some page =>
      rw [held] at readable
      exact readable
  | none =>
      rw [held] at readable
      obtain ⟨at_, isAt, rest⟩ := bind_eq_ok.mp readable
      obtain ⟨copy, found, fetched⟩ := bind_eq_ok.mp rest
      have isOther : at_ = other := by
        have named := index_eq_ok.mp isAt
        rw [inside] at named
        exact Fin.ext (Int.ofNat.inj named).symm
      subst isOther
      cases copy with
      | none => cases fetched
      | some copy =>
          obtain ⟨cb, block⟩ := copy
          have still := gives.changes.requestRead different away found
          refine bind_eq_ok.mpr ⟨at_, isAt, bind_eq_ok.mpr ⟨_, still, ?_⟩⟩
          have elsewhere : ¬ (cb = oldCb ∧ block = rb) := by
            rintro ⟨rfl, rfl⟩
            exact away (leads_of_requestRead found)
          dsimp only
          rw [gives.fetch_other owns elsewhere]
          exact fetched

/-- After a round without a destination the local pages of the swapspace are read as before and its
other pages not at all: the server has given their region up.  Pages of swapspaces that lead to
other blocks are read as before. -/
theorem eviction_keeps_local (names : NamesBlock b.session oldCb evict 0 swapspace rb)
    (reachable : (b.server oldCb).Reachable)
    (ran : b.evictWithoutDest oldCb evict asked = .ok after) :
    (∀ i, InSwapspace i swapspace →
        after.readFromBrd i = .ok ((b.store.pageOf (some i)).map b.store.memory)) ∧
      (∀ page, after.fetch oldCb rb page = none) ∧
        ∀ i other data, InSwapspace i other → other ≠ swapspace →
          ¬ b.session.Leads 0 other oldCb rb → b.readFromBrd i = .ok (some data) →
            after.readFromBrd i = .ok (some data) := by
  have gives := givesUp_of_ok names ran
  refine ⟨fun i inside => gives.reads_local inside, gives.fetch_evicted, ?_⟩
  intro i other data inside different away readable
  exact gives.reads_other reachable.ownsRegions inside different away readable

/-- The first page was reclaimed, and the second one is local. -/
def onePageLocal : PageStore Nat where
  pool := .valetMempoolCreate 0
  gptPages := fun i =>
    if i = 0 then some ⟨none, fun _ => false, 0⟩
    else if i = 1 then some ⟨some 0, fun _ => false, 0⟩
    else none
  reclaimList := alfQueueAlloc 1
  memory := fun _ => 3

/-- The first swapspace is mapped to the first region of a server, and two pages are written. -/
def twoWritten : Option (Backing 1 Nat) := do
  let s ← (ValetSession.init.getCb firstSwapspace (fun _ => 0) fun _ =>
    blockMessage .respMrMap 0 firstSwapspace firstBlock).toOption
  let s ← (s.writeDone ⟨0, firstBlock, 0, 2 * valetPageSize⟩).toOption
  let server ← Daemon.Session.oneRegion.step Daemon.Session.weighInt (Daemon.Session.mapRequest 1)
  return ⟨s, onePageLocal, 1, fun _ => server, fun _ _ _ => 5⟩

/-- The server evicts the block, and the first page has its bit set. -/
theorem twoWritten_evicted : ∃ b after : Backing 1 Nat, (b.server 0).Reachable ∧
    NamesBlock b.session 0 evictFirst 0 firstSwapspace firstBlock ∧
      b.evictWithoutDest 0 evictFirst [] = .ok after ∧ b.store = onePageLocal ∧
        ((b.session.rbh 0).remoteBlock firstBlock).bitmapG.any (fun bitmap => bitmap 0) = true ∧
          b.readFromBrd 0 = .ok (some 5) ∧ after.readFromBrd 0 = .ok none := by
  have ran : (twoWritten.bind fun b => if b.session.Alive 0 ∧
      b.session.Leads 0 firstSwapspace 0 firstBlock ∧
        ((b.session.rbh 0).remoteBlock firstBlock).bitmapG.any (fun bitmap => bitmap 0) = true ∧
          (b.readFromBrd 0).toOption = some (some 5) then
      (b.evictWithoutDest 0 evictFirst []).toOption.map fun after => (after.readFromBrd 0).toOption
    else none) = some (some none) := by
    decide +kernel
  obtain ⟨b, written, ran⟩ := Option.bind_eq_some_iff.mp ran
  split at ran
  · rename_i ready
    obtain ⟨alive, leads, recorded, before⟩ := ready
    obtain ⟨after, evicted, lost⟩ := Option.map_eq_some_iff.mp ran
    unfold twoWritten at written
    obtain ⟨s, mapped, written⟩ := Option.bind_eq_some_iff.mp written
    obtain ⟨s, wrote, written⟩ := Option.bind_eq_some_iff.mp written
    obtain ⟨server, handed, built⟩ := Option.bind_eq_some_iff.mp written
    cases built
    refine ⟨_, after, ?_, ⟨alive, rfl, rfl, rfl, key_blockMessage, leads⟩, toOption_eq_some evicted,
      rfl, recorded, toOption_eq_some before, toOption_eq_some lost⟩
    exact ⟨Daemon.Session.weighInt, _, _, _, _, [Daemon.Session.mapRequest 1],
      .head trivial handed (.refl server)⟩
  · cases ran

/-- The second page is still read after the eviction. -/
theorem eviction_keeps_second : ∃ b after : Backing 1 Nat,
    b.evictWithoutDest 0 evictFirst [] = .ok after ∧ after.readFromBrd 1 = .ok (some 3) := by
  obtain ⟨b, after, reachable, names, ran, store, _⟩ := twoWritten_evicted
  have kept := (eviction_keeps_local names reachable ran).1 1 rfl
  rw [store] at kept
  exact ⟨b, after, ran, kept⟩

/-- The first page is lost. -/
theorem eviction_loses_first : ¬ ∀ (b after : Backing 1 Nat) (oldCb : Fin 1) (evict : Message)
    (asked : List (Fin 1)) (swapspace : Swapspace) (rb : Block),
    NamesBlock b.session oldCb evict 0 swapspace rb →
      b.evictWithoutDest oldCb evict asked = .ok after → ∀ i data, InSwapspace i swapspace →
        ((b.session.rbh oldCb).remoteBlock rb).bitmapG.any (fun bitmap => bitmap (pageOfBlock i)) =
            true →
          b.store.pageOf (some i) = none → b.readFromBrd i = .ok (some data) →
            after.readFromBrd i = .ok (some data) := by
  intro claim
  obtain ⟨b, after, _, names, ran, store, recorded, before, lost⟩ := twoWritten_evicted
  have still := claim b after 0 _ [] firstSwapspace firstBlock names ran 0 5 rfl recorded
    (by rw [store]; rfl) before
  rw [lost] at still
  cases still

end Backing

end Valet.Bd
