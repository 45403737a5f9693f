import Valet.Daemon.Regions
import Valet.Library.Census
import Valet.Library.Runs

/-!
# The counters of a memory server

`size_gb` counts the allocated regions and `mapped_size` those that clients
have.  `prepare_single_mr` counts a region also when it finds none to hand out,
so the counters are right as long as it always finds one.
-/

namespace Valet.Daemon

open Valet.Wire Valet.Library

namespace RdmaMrHandler

/-- Which regions clients have. -/
def isMapped (mrh : RdmaMrHandler) (i : Region) : Bool := (mrh.cbIndexMap i).isSome

/-- The counters count what they should, and clients have allocated regions only. -/
structure Accounts (mrh : RdmaMrHandler) : Prop where
  size : mrh.sizeGb = census mrh.mallocMap
  mapped : mrh.mappedSize = census mrh.isMapped
  backed : ∀ i, mrh.isMapped i = true → mrh.mallocMap i = true

/-- What follows for the memory that is offered. -/
structure Consistent (mrh : RdmaMrHandler) : Prop extends Accounts mrh where
  nonneg : 0 ≤ mrh.mappedSize
  enough : mrh.mappedSize ≤ mrh.sizeGb
  bounded : mrh.sizeGb ≤ maxMrSizeGb
  advertised : ∀ stamps, (mrh.replyQuery stamps).sizeGb = census mrh.isFree

variable {mrh : RdmaMrHandler}

theorem isFree_eq (mrh : RdmaMrHandler) :
    mrh.isFree = fun i => mrh.mallocMap i && !mrh.isMapped i := by
  funext i
  unfold isFree isMapped
  cases mrh.cbIndexMap i <;> rfl

theorem Accounts.consistent (accounts : mrh.Accounts) : mrh.Consistent where
  toAccounts := accounts
  nonneg := by
    rw [accounts.mapped]
    exact Int.natCast_nonneg _
  enough := by
    rw [accounts.mapped, accounts.size]
    exact Int.ofNat_le.mpr (census_mono accounts.backed)
  bounded := by
    rw [accounts.size]
    exact Int.ofNat_le.mpr (census_le _)
  advertised := by
    intro stamps
    have parts : census mrh.isFree + census mrh.isMapped = census mrh.mallocMap := by
      rw [isFree_eq]
      exact census_diff accounts.backed
    have size := accounts.size
    have mapped := accounts.mapped
    unfold replyQuery
    dsimp only
    split <;> omega

/-- Freeing a region that nobody has. -/
theorem isMapped_of_isFree {i : Region} (free : mrh.isFree i = true) :
    mrh.isMapped i = false ∧ mrh.mallocMap i = true := by
  rw [isFree_eq] at free
  simpa [and_comm] using free

/-- The first loop of `do_evict` frees as many regions as it counts, and none that is mapped. -/
structure Frees (mrh : RdmaMrHandler) (freedG : Int) (next : RdmaMrHandler) : Prop where
  same : next = { mrh with mallocMap := next.mallocMap }
  count : freedG + census next.mallocMap = census mrh.mallocMap
  backed : (∀ i, mrh.isMapped i = true → mrh.mallocMap i = true) →
    ∀ i, next.isMapped i = true → next.mallocMap i = true

theorem frees_freeUnmapped (evictSize : Int) (regions : List Region) (freedG : Int)
    (mrh : RdmaMrHandler) :
    Frees mrh ((mrh.freeUnmapped evictSize regions freedG).1 - freedG)
      (mrh.freeUnmapped evictSize regions freedG).2 := by
  induction regions generalizing freedG mrh with
  | nil => exact ⟨rfl, by simp [freeUnmapped], id⟩
  | cons i rest ih =>
      unfold freeUnmapped
      by_cases free : mrh.isFree i = true
      · rw [if_pos free]
        obtain ⟨unmapped, malloced⟩ := isMapped_of_isFree free
        have cleared := census_clear malloced
        have backed : (∀ j, mrh.isMapped j = true → mrh.mallocMap j = true) → ∀ j,
            mrh.isMapped j = true → Function.update mrh.mallocMap i false j = true := by
          intro before j mapped
          have other : j ≠ i := by
            rintro rfl
            rw [unmapped] at mapped
            cases mapped
          rw [Function.update_of_ne other]
          exact before j mapped
        dsimp only
        split
        · refine ⟨rfl, ?_, backed⟩
          dsimp only
          omega
        · obtain ⟨same, count, more⟩ :=
            ih (freedG + 1) { mrh with mallocMap := Function.update mrh.mallocMap i false }
          refine ⟨same, ?_, fun before => more (backed before)⟩
          dsimp only at count
          omega
      · rw [if_neg free]
        exact ih freedG mrh

theorem Frees.accounts {freedG : Int} {next : RdmaMrHandler} (accounts : mrh.Accounts)
    (frees : Frees mrh freedG next) :
    Accounts { next with sizeGb := next.sizeGb - freedG } where
  size := by
    have count := frees.count
    have size := accounts.size
    have same := congrArg sizeGb frees.same
    dsimp only at same ⊢
    omega
  mapped := by
    have mapped := accounts.mapped
    rw [frees.same]
    exact mapped
  backed := frees.backed accounts.backed

theorem Accounts.doEvict {evictSize : Int} (accounts : mrh.Accounts) :
    (mrh.doEvict evictSize).2.Accounts := by
  have frees := frees_freeUnmapped evictSize (List.finRange maxMrSizeGb) 0 mrh
  rw [Int.sub_zero] at frees
  have after := frees.accounts accounts
  unfold RdmaMrHandler.doEvict
  dsimp only
  split
  · rename_i all
    rw [all] at after
    exact after
  · exact after

theorem doEvict_map {evictSize : Int} :
    (mrh.doEvict evictSize).2.cbIndexMap = mrh.cbIndexMap := by
  have frees := frees_freeUnmapped evictSize (List.finRange maxMrSizeGb) 0 mrh
  have same := congrArg cbIndexMap frees.same
  unfold RdmaMrHandler.doEvict
  dsimp only
  split <;> exact same

/-- The expansion allocates what it counts; it ends early only with `expand_size_g` regions. -/
theorem mallocEmpty_spec (expandSizeG : Int) (regions : List Region) (j : Int)
    (mrh : RdmaMrHandler) (less : j < expandSizeG) :
    ∃ mallocMap, mrh.mallocEmpty expandSizeG regions j = { mrh with mallocMap := mallocMap } ∧
      (∀ i, mrh.mallocMap i = true → mallocMap i = true) ∧
      ((census mallocMap : Int) = census mrh.mallocMap + (expandSizeG - j) ∨
        ((census mallocMap : Int) < census mrh.mallocMap + (expandSizeG - j) ∧
          ∀ i ∈ regions, mallocMap i = true)) := by
  induction regions generalizing j mrh with
  | nil => exact ⟨mrh.mallocMap, rfl, fun _ => id, Or.inr ⟨by omega, fun _ member => nomatch member⟩⟩
  | cons i rest ih =>
      unfold mallocEmpty
      by_cases malloced : mrh.mallocMap i = true
      · rw [if_pos malloced]
        obtain ⟨mallocMap, same, more, count⟩ := ih j mrh less
        refine ⟨mallocMap, same, more, count.imp_right ?_⟩
        rintro ⟨few, all⟩
        refine ⟨few, fun k member => ?_⟩
        rcases List.mem_cons.mp member with rfl | later
        · exact more _ malloced
        · exact all k later
      · rw [if_neg malloced]
        have marked := census_mark (Bool.not_eq_true _ ▸ malloced)
        have grown : ∀ k, mrh.mallocMap k = true →
            Function.update mrh.mallocMap i true k = true := by
          intro k before
          by_cases same : k = i
          · simp [same]
          · simpa [same] using before
        dsimp only
        split
        · exact ⟨_, rfl, grown, Or.inl (by rw [marked]; push_cast; omega)⟩
        · obtain ⟨mallocMap, same, more, count⟩ := ih (j + 1)
            { mrh with mallocMap := Function.update mrh.mallocMap i true } (by omega)
          dsimp only at same more count
          rw [marked] at count
          push_cast at count
          refine ⟨mallocMap, same, fun k before => more k (grown k before), ?_⟩
          rcases count with reached | ⟨few, all⟩
          · exact Or.inl (by omega)
          · refine Or.inr ⟨by omega, fun k member => ?_⟩
            rcases List.mem_cons.mp member with rfl | later
            · exact more _ (by simp)
            · exact all k later

/-- The expansion of `free_mem_monitor_fn` for a reading above the threshold. -/
theorem Accounts.expand {lastFreeMemG : Int} (accounts : mrh.Accounts)
    (plenty : lastFreeMemG > freeMemExpandThreshold) :
    (mrh.expand (mrh.expandSize lastFreeMemG)).Accounts := by
  have size := accounts.size
  have bound := census_le mrh.mallocMap
  have range : mrh.expandSize lastFreeMemG ≤ maxMrSizeGb - mrh.sizeGb ∧
      (0 < mrh.expandSize lastFreeMemG ∨ mrh.expandSize lastFreeMemG = maxMrSizeGb - mrh.sizeGb) := by
    unfold expandSize freeMemExpandThreshold at *
    dsimp only
    split <;> omega
  generalize mrh.expandSize lastFreeMemG = expandSizeG at range
  unfold RdmaMrHandler.expand
  by_cases positive : 0 < expandSizeG
  · obtain ⟨mallocMap, same, more, count⟩ :=
      mallocEmpty_spec expandSizeG (List.finRange maxMrSizeGb) 0 mrh positive
    rw [same]
    refine ⟨?_, accounts.mapped, fun i mapped => more i (accounts.backed i mapped)⟩
    dsimp only
    rcases count with reached | ⟨few, all⟩
    · omega
    · have full := census_full fun i => all i (List.mem_finRange i)
      omega
  · have full : ∀ i ∈ List.finRange maxMrSizeGb, mrh.mallocMap i = true := by
      intro i _
      by_contra clear
      have less := census_lt (Bool.not_eq_true _ ▸ clear)
      omega
    have idle (regions : List Region) (all : ∀ i ∈ regions, mrh.mallocMap i = true) :
        mrh.mallocEmpty expandSizeG regions 0 = mrh := by
      induction regions with
      | nil => rfl
      | cons i rest ih =>
          unfold mallocEmpty
          rw [if_pos (all i List.mem_cons_self)]
          exact ih fun k later => all k (List.mem_cons_of_mem _ later)
    rw [idle _ full]
    refine ⟨?_, accounts.mapped, accounts.backed⟩
    dsimp only
    have all := census_full fun i => full i (List.mem_finRange i)
    omega

theorem expand_map {expandSizeG : Int} :
    (mrh.expand expandSizeG).cbIndexMap = mrh.cbIndexMap := by
  unfold RdmaMrHandler.expand
  have kept (regions : List Region) (j : Int) (mrh : RdmaMrHandler) :
      (mrh.mallocEmpty expandSizeG regions j).cbIndexMap = mrh.cbIndexMap := by
    induction regions generalizing j mrh with
    | nil => rfl
    | cons i rest ih =>
        unfold mallocEmpty
        dsimp only
        split
        · exact ih j mrh
        · split
          · rfl
          · exact ih (j + 1) _
  exact kept _ 0 mrh

end RdmaMrHandler

namespace Session

/-- The counters are right, and the connections know the regions of their clients. -/
structure Accounted (s : Session) : Prop where
  accounts : s.mrh.Accounts
  owners : ∀ i client, s.mrh.cbIndexMap i = some client →
    (s.cbList client).rbIdxMap i = some i

variable {s next : Session}

/-- Neither the regions nor the maps of the connections change. -/
structure SameRegions (s next : Session) : Prop where
  mrh : next.mrh = s.mrh
  maps : ∀ client, (next.cbList client).rbIdxMap = (s.cbList client).rbIdxMap

theorem Accounted.same (accounted : Accounted s) (same : SameRegions s next) : Accounted next where
  accounts := by
    rw [same.mrh]
    exact accounted.accounts
  owners := by
    intro i client mapped
    rw [same.mrh] at mapped
    rw [same.maps]
    exact accounted.owners i client mapped

theorem sameRegions_setCb {client : Nat} {cb : RpingCb}
    (map : cb.rbIdxMap = (s.cbList client).rbIdxMap) : SameRegions s (s.setCb client cb) := by
  refine ⟨rfl, fun other => ?_⟩
  by_cases same : other = client
  · subst same
    simp [setCb, map]
  · simp [setCb, same]

theorem sameRegions_postSend (client : Nat) : SameRegions s (s.postSend client) :=
  ⟨rfl, fun _ => rfl⟩

theorem sameRegions_postWrite (client : Nat) (rkey : UInt32) (addr : UInt64) (localRbIndex : Int) :
    SameRegions s (s.postWrite client rkey addr localRbIndex) := ⟨rfl, fun _ => rfl⟩

theorem sameRegions_sendEvict (client : Nat) (evictIndex : Region)
    (clientRbIndex srcCbIndex : Int) :
    SameRegions s (s.sendEvict client evictIndex clientRbIndex srcCbIndex) := by
  have kept : SameRegions s (s.setCb client { s.cbList client with
      sendBuf := s.evictMessage client evictIndex clientRbIndex srcCbIndex }) :=
    sameRegions_setCb rfl
  exact ⟨kept.mrh, kept.maps⟩

theorem sameRegions_continueEvict (evictSize : Int) (oldestRbIndex : Option Region)
    (stopSizeG : Int) : SameRegions s (s.continueEvict evictSize oldestRbIndex stopSizeG) := by
  unfold continueEvict
  split <;> exact ⟨rfl, fun _ => rfl⟩

theorem cbList_continueEvict (evictSize : Int) (oldestRbIndex : Option Region) (stopSizeG : Int) :
    (s.continueEvict evictSize oldestRbIndex stopSizeG).cbList = s.cbList := by
  unfold continueEvict
  split
  · rfl
  · rfl

/-- Handing a region to a client. -/
theorem isMapped_update (mrh : RdmaMrHandler) (i : Region) (client : Option Nat) :
    (fun j => (Function.update mrh.cbIndexMap i client j).isSome) =
      Function.update mrh.isMapped i client.isSome := by
  funext j
  by_cases same : j = i
  · subst same
    simp
  · simp [same, RdmaMrHandler.isMapped]

/-- A client that is handed a region owns it. -/
theorem Accounted.prepareSingleMr {client : Nat} {recv : Message} {isMigration : Bool}
    {mr : IbvMr} (accounted : Accounted s) (room : ∃ i, s.mrh.isFree i = true) :
    Accounted (s.prepareSingleMr client recv isMigration mr).2 := by
  obtain ⟨free, isFree⟩ := room
  unfold Session.prepareSingleMr
  cases found : (List.finRange maxMrSizeGb).find? s.mrh.isFree with
  | none =>
      have none := List.find?_eq_none.mp found free (List.mem_finRange free)
      exact absurd isFree none
  | some i =>
      obtain ⟨unmapped, malloced⟩ := RdmaMrHandler.isMapped_of_isFree (List.find?_some found)
      have before := accounted.accounts
      refine ⟨⟨before.size, ?_, ?_⟩, ?_⟩
      · have marked := census_mark unmapped
        have mapped := before.mapped
        show s.mrh.mappedSize + 1 =
          census fun j => (Function.update s.mrh.cbIndexMap i (some client) j).isSome
        rw [isMapped_update, Option.isSome_some, marked]
        omega
      · show ∀ j, (Function.update s.mrh.cbIndexMap i (some client) j).isSome = true →
          s.mrh.mallocMap j = true
        intro j mapped
        by_cases same : j = i
        · rw [same]
          exact malloced
        · rw [Function.update_of_ne same] at mapped
          exact before.backed j mapped
      · show ∀ j owner, Function.update s.mrh.cbIndexMap i (some client) j = some owner →
          (Function.update s.cbList client _ owner).rbIdxMap j = some j
        intro j owner mapped
        by_cases same : j = i
        · subst same
          rw [Function.update_self, Option.some.injEq] at mapped
          subst mapped
          simp
        · rw [Function.update_of_ne same] at mapped
          have owned := accounted.owners j owner mapped
          by_cases mine : owner = client
          · subst mine
            rw [Function.update_self]
            simpa [same] using owned
          · rw [Function.update_of_ne mine]
            exact owned

/-- A client that gives back a region that it has. -/
theorem Accounted.recvDeleteRb {client : Nat} {recv : Message} {i : Region}
    (accounted : Accounted s) (named : recv.firstRkey = some i)
    (mine : s.mrh.cbIndexMap i = some client) (ran : s.recvDeleteRb client recv = .ok next) :
    Accounted next := by
  have owned := accounted.owners i client mine
  have mapped : s.mrh.isMapped i = true := by
    unfold RdmaMrHandler.isMapped
    rw [mine]
    rfl
  have malloced := accounted.accounts.backed i mapped
  unfold Session.recvDeleteRb at ran
  simp only [named, owned] at ran
  cases ran
  have before := accounted.accounts
  refine ⟨⟨?_, ?_, ?_⟩, ?_⟩
  · have cleared := census_clear malloced
    have size := before.size
    show s.mrh.sizeGb - 1 = census (Function.update s.mrh.mallocMap i false)
    omega
  · have cleared := census_clear mapped
    have size := before.mapped
    show s.mrh.mappedSize - 1 = census fun j => (Function.update s.mrh.cbIndexMap i none j).isSome
    rw [isMapped_update, Option.isSome_none]
    omega
  · show ∀ j, (Function.update s.mrh.cbIndexMap i none j).isSome = true →
      Function.update s.mrh.mallocMap i false j = true
    intro j still
    by_cases same : j = i
    · subst same
      simp at still
    · rw [Function.update_of_ne same] at still ⊢
      exact before.backed j still
  · show ∀ j owner, Function.update s.mrh.cbIndexMap i none j = some owner →
      (Function.update s.cbList client _ owner).rbIdxMap j = some j
    intro j owner still
    by_cases same : j = i
    · subst same
      simp at still
    · rw [Function.update_of_ne same] at still
      have kept := accounted.owners j owner still
      by_cases its : owner = client
      · subst its
        rw [Function.update_self]
        simpa [same] using kept
      · rw [Function.update_of_ne its]
        exact kept

/-- Every `DELETE_RB` names a region that its sender has. -/
def DeletesOwn (s : Session) : DaemonLabel → Prop
  | .recv client msg _ _ => msg.type = .deleteRb →
      ∃ i, msg.firstRkey = some i ∧ s.mrh.cbIndexMap i = some client
  | _ => True

/-- A request to map a region finds a free one. -/
def MapsFree (s : Session) : DaemonLabel → Prop
  | .recv _ msg _ _ => msg.type = .reqMrMap ∨ msg.type = .reqMigMap → ∃ i, s.mrh.isFree i = true
  | _ => True

def RoomyStep (s : Session) (label : DaemonLabel) : Prop := DeletesOwn s label ∧ MapsFree s label

theorem sameRegions_modifyMigrbh (client : Nat)
    (change : MigrationRemoteBlockHandler → MigrationRemoteBlockHandler) :
    SameRegions s (s.modifyMigrbh client change) := sameRegions_setCb rfl

theorem Accounted.recvReqMigMap {client : Nat} {recv : Message} {mr : IbvMr}
    (accounted : Accounted s) (room : ∃ i, s.mrh.isFree i = true) :
    Accounted (s.recvReqMigMap client recv mr) := by
  have start := accounted.same (sameRegions_modifyMigrbh client (noteSource recv))
  have handed : Accounted ((s.modifyMigrbh client (noteSource recv)).prepareSingleMr client
      recv true mr).2 := start.prepareSingleMr room
  exact (handed.same (sameRegions_modifyMigrbh client _)).same (sameRegions_postSend client)

/-- What `handle_recv` does with a message. -/
inductive Handles (s : Session) (client : Nat) (msg : Message) (mr : IbvMr)
    (stamps : Region → Timeval) : Session → Prop where
  | query (type : msg.type = .reqQuery) : Handles s client msg mr stamps
      { s with sent := s.sent ++ [(client, .query (s.mrh.replyQuery stamps))] }
  | migMap (type : msg.type = .reqMigMap) :
      Handles s client msg mr stamps (s.recvReqMigMap client msg mr)
  | mrMap (type : msg.type = .reqMrMap) :
      Handles s client msg mr stamps ((s.prepareSingleMr client msg false mr).2.postSend client)
  | deleted {next : Session} (type : msg.type = .deleteRb)
      (ran : s.recvDeleteRb client msg = .ok next) : Handles s client msg mr stamps next
  | migrates {i : Region} (type : msg.type = .reqMigration) (named : msg.firstRkey = some i) :
      Handles s client msg mr stamps ((s.modifyMigrbh client fun migrbh =>
        { migrbh with localRbIndex := msg.sizeGb }).postWrite client (msg.rkey i) (msg.buf i)
          msg.sizeGb)
  | ignored (other : msg.type ∉
      [MsgOpcode.reqQuery, .reqMigMap, .reqMrMap, .deleteRb, .reqMigration]) :
      Handles s client msg mr stamps s

theorem handles_of_ok {client : Nat} {msg : Message} {mr : IbvMr} {stamps : Region → Timeval}
    (ran : s.handleRecv client msg mr stamps = .ok next) : Handles s client msg mr stamps next := by
  unfold Session.handleRecv at ran
  cases type : msg.type with
  | reqQuery =>
      rw [type] at ran
      cases ran
      exact .query type
  | reqMigMap =>
      rw [type] at ran
      cases ran
      exact .migMap type
  | reqMrMap =>
      rw [type] at ran
      cases ran
      exact .mrMap type
  | deleteRb =>
      rw [type] at ran
      exact .deleted type ran
  | reqMigration =>
      rw [type] at ran
      dsimp only at ran
      unfold doMigration at ran
      cases named : msg.firstRkey with
      | none =>
          rw [named] at ran
          cases ran
      | some i =>
          rw [named] at ran
          cases ran
          exact .migrates type named
  | done | respMrMap | respMigMap | respQuery | evict | doneMigration =>
      rw [type] at ran
      cases ran
      refine .ignored ?_
      rw [type]
      decide

theorem Accounted.handleRecv {client : Nat} {msg : Message} {mr : IbvMr}
    {stamps : Region → Timeval} (accounted : Accounted s)
    (guard : RoomyStep s (.recv client msg mr stamps))
    (ran : s.handleRecv client msg mr stamps = .ok next) : Accounted next := by
  obtain ⟨own, room⟩ := guard
  cases handles_of_ok ran with
  | query type => exact accounted.same ⟨rfl, fun _ => rfl⟩
  | migMap type => exact accounted.recvReqMigMap (room (Or.inr type))
  | mrMap type =>
      exact (accounted.prepareSingleMr (room (Or.inl type))).same ⟨rfl, fun _ => rfl⟩
  | deleted type ran =>
      obtain ⟨i, named, mine⟩ := own type
      exact accounted.recvDeleteRb named mine ran
  | migrates type named =>
      exact (accounted.same (sameRegions_modifyMigrbh client _)).same
        (sameRegions_postWrite client _ _ _)
  | ignored => exact accounted

/-- The regions with other counters, where the clients keep theirs. -/
theorem Accounted.recount {mrh : RdmaMrHandler} {monitor : Monitor} (accounted : Accounted s)
    (counted : mrh.Accounts) (map : mrh.cbIndexMap = s.mrh.cbIndexMap) :
    Accounted { s with mrh := mrh, monitor := monitor } where
  accounts := counted
  owners := by
    intro i client mapped
    dsimp only at mapped
    rw [map] at mapped
    exact accounted.owners i client mapped

theorem Accounted.monitorEvict (accounted : Accounted s) : Accounted s.monitorEvict := by
  unfold Session.monitorEvict
  dsimp only
  generalize (if s.mrh.sizeGb < freeMemEvictThreshold - s.monitor.lastFreeMemG then s.mrh.sizeGb
    else freeMemEvictThreshold - s.monitor.lastFreeMemG) = stopSizeG
  split
  · have evicted : Accounted { s with mrh := (s.mrh.doEvict stopSizeG).2 } :=
      accounted.recount accounted.accounts.doEvict RdmaMrHandler.doEvict_map
    exact evicted.same (sameRegions_continueEvict _ _ _)
  · exact accounted.same ⟨rfl, fun _ => rfl⟩

theorem Accounted.monitorExpand (accounted : Accounted s)
    (plenty : s.monitor.lastFreeMemG > freeMemExpandThreshold) : Accounted s.monitorExpand :=
  accounted.recount (accounted.accounts.expand plenty) RdmaMrHandler.expand_map

/-- A turn of the monitor evicts or expands by what it counts. -/
theorem Accounted.monitorTurn (weigh : Int → Int → Int) (freeMemG : Int)
    (accounted : Accounted s) : Accounted (s.monitorTurn weigh freeMemG) := by
  have noted (monitor : Monitor) : Accounted { s with monitor := monitor } :=
    accounted.same ⟨rfl, fun _ => rfl⟩
  unfold Session.monitorTurn
  dsimp only
  split
  · split
    · exact (noted _).monitorEvict
    · exact noted _
  · split
    · rename_i plenty
      split
      · exact (noted _).monitorExpand plenty
      · exact noted _
    · exact noted _

theorem Accounted.evictTurn {stamps : Region → Timeval} {evictSize stopSizeG : Int}
    {oldestRbIndex : Option Region} (accounted : Accounted s)
    (ran : s.evictTurn stamps evictSize oldestRbIndex stopSizeG = .ok next) :
    Accounted next := by
  unfold Session.evictTurn at ran
  split at ran
  · cases ran
  · split at ran
    · cases ran
    · cases ran
      exact (accounted.same (sameRegions_sendEvict _ _ _ _)).same ⟨rfl, fun _ => rfl⟩

theorem Accounted.evictDone {client : Nat} {evictSize stopSizeG : Int}
    {oldestRbIndex : Option Region} (accounted : Accounted s)
    (ran : s.evictDone client evictSize oldestRbIndex stopSizeG = some next) :
    Accounted next := by
  unfold Session.evictDone at ran
  dsimp only at ran
  split at ran
  · cases ran
  · cases ran
    have taken : Accounted (s.setCb client
        { s.cbList client with evictSem := (s.cbList client).evictSem - 1 }) :=
      accounted.same (sameRegions_setCb rfl)
    exact taken.same (sameRegions_continueEvict _ _ _)

theorem Accounted.step {weigh : Int → Int → Int} {label : DaemonLabel} (accounted : Accounted s)
    (guard : RoomyStep s label) (edge : s.step weigh label = some next) : Accounted next := by
  cases label with
  | recv client msg mr stamps => exact accounted.handleRecv guard (toOption_eq_some edge)
  | monitor freeMemG =>
      simp only [Session.step] at edge
      split at edge
      · cases edge
        exact accounted.monitorTurn weigh freeMemG
      · cases edge
  | evict stamps =>
      simp only [Session.step] at edge
      split at edge
      · exact accounted.evictTurn (toOption_eq_some edge)
      · cases edge
  | evictDone =>
      simp only [Session.step] at edge
      split at edge
      · exact accounted.evictDone edge
      · cases edge

theorem accounts_init (mrList : Region → IbvMr) (freeMemG : Int) :
    (RdmaMrHandler.init mrList freeMemG).Accounts := by
  unfold RdmaMrHandler.init
  dsimp only
  generalize sized : (if (if freeMemG > freeMemExpandThreshold then
    freeMemG - (freeMemEvictThreshold + freeMemExpandThreshold) / 2
    else if freeMemG > freeMemEvictThreshold then freeMemG - freeMemEvictThreshold else 0) >
      maxMrSizeGb then (maxMrSizeGb : Int)
    else if freeMemG > freeMemExpandThreshold then
      freeMemG - (freeMemEvictThreshold + freeMemExpandThreshold) / 2
    else if freeMemG > freeMemEvictThreshold then freeMemG - freeMemEvictThreshold else 0) = size
  have range : 0 ≤ size ∧ size ≤ maxMrSizeGb := by
    unfold freeMemExpandThreshold freeMemEvictThreshold at sized
    omega
  obtain ⟨count, rfl⟩ := Int.eq_ofNat_of_zero_le range.1
  refine ⟨?_, ?_, fun i mapped => by cases mapped⟩
  · have below := census_below (Int.ofNat_le.mp range.2)
    simp only [Int.ofNat_lt, below]
  · have none : census (fun _ : Region => false) = 0 := census_none
    exact (congrArg Nat.cast none).symm

theorem accounted_init (myIndex : Int) (mrList : Region → IbvMr) (freeMemG lastFreeMemG : Int) :
    Accounted (init myIndex mrList freeMemG lastFreeMemG) where
  accounts := accounts_init mrList freeMemG
  owners := fun _ _ mapped => nomatch mapped

/-- As long as every request to map a region finds a free one, the counters of the server are
right, whatever the clients and the readings do. -/
theorem counters_consistent {weigh : Int → Int → Int} {myIndex freeMemG lastFreeMemG : Int}
    {mrList : Region → IbvMr} {labels : List DaemonLabel} {last : Session}
    (run : Run (step weigh) RoomyStep (init myIndex mrList freeMemG lastFreeMemG) labels last) :
    last.mrh.Consistent := by
  have accounted := run.preserves (fun accounted guard edge => accounted.step guard edge)
    (accounted_init myIndex mrList freeMemG lastFreeMemG)
  exact accounted.accounts.consistent

instance (s : Session) (label : DaemonLabel) : Decidable (DeletesOwn s label) :=
  match label with
  | .recv client msg _ _ => inferInstanceAs (Decidable (msg.type = .deleteRb →
      ∃ i, msg.firstRkey = some i ∧ s.mrh.cbIndexMap i = some client))
  | .monitor _ | .evict _ | .evictDone => isTrue trivial

instance (s : Session) (label : DaemonLabel) : Decidable (MapsFree s label) :=
  match label with
  | .recv _ msg _ _ => inferInstanceAs (Decidable (msg.type = .reqMrMap ∨ msg.type = .reqMigMap →
      ∃ i, s.mrh.isFree i = true))
  | .monitor _ | .evict _ | .evictDone => isTrue trivial

instance (s : Session) (label : DaemonLabel) : Decidable (RoomyStep s label) :=
  inferInstanceAs (Decidable (_ ∧ _))

/-- The weights 0.7 and 0.3, in whole numbers. -/
def weighInt (freeMemG lastFreeMemG : Int) : Int := (7 * freeMemG + 3 * lastFreeMemG) / 10

/-- A server with 11 GB of memory, which offers one region. -/
def oneRegion : Session := init 0 (fun _ => ⟨0, 0⟩) 11 11

def mapRequest (client : Nat) : DaemonLabel :=
  .recv client { Message.empty with type := .reqMrMap } ⟨4096, 7⟩ fun _ => ⟨1, 0⟩

def deleteRequest (client : Nat) : DaemonLabel :=
  .recv client { Message.empty with type := .deleteRb, rkey := fun i => if i.val = 0 then 1 else 0 }
    ⟨0, 0⟩ fun _ => ⟨1, 0⟩

/-- The region is mapped; memory gets short, and the client gives the region back. -/
def calmEviction : List DaemonLabel :=
  [mapRequest 0, .monitor 0, .evict fun _ => ⟨1, 0⟩, deleteRequest 0, .evictDone, .monitor 60]

theorem counters_consistent_calm :
    ∃ last, exec (step weighInt) oneRegion calmEviction = some last ∧ last.mrh.Consistent := by
  have ran : (exec (guardedStep (step weighInt) RoomyStep) oneRegion calmEviction).isSome = true := by
    decide +kernel
  obtain ⟨last, guarded⟩ := Option.isSome_iff_exists.mp ran
  have run := run_of_guarded guarded
  exact ⟨last, run.exec_eq, counters_consistent run⟩

/-- The second client is promised a region that is not there. -/
theorem secondMap_overcounts : ¬ ∀ (labels : List DaemonLabel) (last : Session),
    Run (step weighInt) DeletesOwn oneRegion labels last → last.mrh.Consistent := by
  intro claim
  have counted : ((exec (guardedStep (step weighInt) DeletesOwn) oneRegion
      [mapRequest 0, mapRequest 1]).map fun s => decide (s.mrh.sizeGb < s.mrh.mappedSize)) =
        some true := by
    decide +kernel
  obtain ⟨last, guarded, more⟩ := Option.map_eq_some_iff.mp counted
  have consistent := claim _ last (run_of_guarded guarded)
  have enough := consistent.enough
  have less := of_decide_eq_true more
  omega

end Session

end Valet.Daemon
