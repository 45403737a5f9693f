import Valet.Daemon.Lender

/-!
# The turns of the lender

Requests, evictions and the turns of the monitor one by one.  A region that is
handed out was free, one that is taken back was its sender's, and an `EVICT` is
about a region that its receiver has.
-/

namespace Valet.Daemon

open Valet.Wire Valet.Library

/-- Regions are registered under keys that are not zero. -/
def ServerLabel.Registers : ServerLabel → Prop
  | .daemon (.recv _ _ mr _) => mr.rkey ≠ 0
  | _ => True

instance (label : ServerLabel) : Decidable label.Registers :=
  match label with
  | .daemon (.recv _ _ mr _) => inferInstanceAs (Decidable (mr.rkey ≠ 0))
  | .daemon (.monitor _) | .daemon (.evict _) | .daemon .evictDone | .established _ _
  | .wcRdmaWrite _ => isTrue trivial

namespace Session

variable {s next : Session} {client : Nat} {msg : Message} {mr : IbvMr}

/-! ## Requests to map -/

/-- The regions are the same, and the connections but for what they note about migrations. -/
structure SameBooks (s next : Session) : Prop where
  mrh : next.mrh = s.mrh
  monitor : next.monitor = s.monitor
  maps : ∀ client, (next.cbList client).rbIdxMap = (s.cbList client).rbIdxMap
  sems : ∀ client, (next.cbList client).evictSem = (s.cbList client).evictSem
  bufs : ∀ client, (next.cbList client).sendBuf = (s.cbList client).sendBuf

theorem sameBooks_modifyMigrbh (client : Nat)
    (change : MigrationRemoteBlockHandler → MigrationRemoteBlockHandler) :
    SameBooks s (s.modifyMigrbh client change) := by
  refine ⟨rfl, rfl, (sameRegions_modifyMigrbh client change).maps, fun other => ?_, fun other => ?_⟩
  · rcases eq_or_ne other client with rfl | different
    · simp [modifyMigrbh, setCb]
    · simp [modifyMigrbh, setCb, different]
  · rcases eq_or_ne other client with rfl | different
    · simp [modifyMigrbh, setCb]
    · simp [modifyMigrbh, setCb, different]

/-- What every reply to a request to map does; it lies in the buffer of the client. -/
structure Replies (s : Session) (client : Nat) (msg : Message) (type : MsgOpcode)
    (next : Session) : Prop where
  monitor : next.monitor = s.monitor
  malloc : next.mrh.mallocMap = s.mrh.mallocMap
  sems : ∀ other, (next.cbList other).evictSem = (s.cbList other).evictSem
  others : ∀ other, other ≠ client →
    (next.cbList other).rbIdxMap = (s.cbList other).rbIdxMap
  type : (next.cbList client).sendBuf.type = type
  size : (next.cbList client).sendBuf.sizeGb = msg.sizeGb
  replica : (next.cbList client).sendBuf.replicaIndex = msg.replicaIndex

/-- The reply hands out a free region, or there is none. -/
inductive HandsOut (s : Session) (client : Nat) (mr : IbvMr) (next : Session) : Prop where
  | region {i : Region} (free : s.mrh.isFree i = true)
      (map : next.mrh.cbIndexMap = Function.update s.mrh.cbIndexMap i (some client))
      (mrs : next.mrh.mrList = Function.update s.mrh.mrList i mr)
      (maps : (next.cbList client).rbIdxMap =
        Function.update (s.cbList client).rbIdxMap i (some i))
      (keys : (next.cbList client).sendBuf.rkey = Function.update (fun _ => 0) i mr.rkey)
      (addr : (next.cbList client).sendBuf.buf i = mr.addr)
  | full (map : next.mrh.cbIndexMap = s.mrh.cbIndexMap) (mrs : next.mrh.mrList = s.mrh.mrList)
      (maps : (next.cbList client).rbIdxMap = (s.cbList client).rbIdxMap)
      (keyless : ∀ i, (next.cbList client).sendBuf.rkey i = 0)

theorem replies_prepareSingleMr (s : Session) (client : Nat) (msg : Message) (isMigration : Bool)
    (mr : IbvMr) : Replies s client msg (if isMigration then .respMigMap else .respMrMap)
      (s.prepareSingleMr client msg isMigration mr).2 := by
  unfold prepareSingleMr
  cases (List.finRange maxMrSizeGb).find? s.mrh.isFree with
  | none =>
      refine ⟨rfl, rfl, fun other => ?_, fun other different => ?_, ?_, ?_, ?_⟩
      · refine (evictSem_setCb client other _).trans ?_
        split
        · rename_i same
          rw [same]
        · rfl
      · simp [setCb, different]
      · cases isMigration <;> simp [setCb]
      · cases isMigration <;> simp [setCb]
      · cases isMigration <;> simp [setCb]
  | some i =>
      refine ⟨rfl, rfl, fun other => ?_, fun other different => ?_, ?_, ?_, ?_⟩
      · refine (evictSem_setCb client other _).trans ?_
        split
        · rename_i same
          rw [same]
        · rfl
      · simp [setCb, different]
      · cases isMigration <;> simp [setCb]
      · cases isMigration <;> simp [setCb]
      · cases isMigration <;> simp [setCb]

theorem handsOut_prepareSingleMr (s : Session) (client : Nat) (msg : Message) (isMigration : Bool)
    (mr : IbvMr) : HandsOut s client mr (s.prepareSingleMr client msg isMigration mr).2 := by
  unfold prepareSingleMr
  cases found : (List.finRange maxMrSizeGb).find? s.mrh.isFree with
  | none =>
      refine .full rfl rfl ?_ fun i => ?_
      · simp [setCb]
      · cases isMigration <;> simp [setCb]
  | some i =>
      refine .region (List.find?_some found) rfl rfl ?_ ?_ ?_
      · simp [setCb]
      · cases isMigration <;> simp [setCb]
      · cases isMigration <;> simp [setCb]

/-- Noting something about a migration before and after, and posting the reply, changes nothing
of this. -/
theorem Replies.between {noted given : Session} {type : MsgOpcode} (before : SameBooks s noted)
    (replies : Replies noted client msg type given) (after : SameBooks given next) :
    Replies s client msg type next where
  monitor := (after.monitor.trans replies.monitor).trans before.monitor
  malloc := by rw [after.mrh, replies.malloc, before.mrh]
  sems := fun other => ((after.sems other).trans (replies.sems other)).trans (before.sems other)
  others := fun other different =>
    ((after.maps other).trans (replies.others other different)).trans (before.maps other)
  type := by rw [after.bufs, replies.type]
  size := by rw [after.bufs, replies.size]
  replica := by rw [after.bufs, replies.replica]

theorem HandsOut.between {noted given : Session} (before : SameBooks s noted)
    (out : HandsOut noted client mr given) (after : SameBooks given next) :
    HandsOut s client mr next := by
  cases out with
  | @region i free map mrs maps keys addr =>
      refine .region (i := i) ?_ ?_ ?_ ?_ ?_ ?_
      · rw [← before.mrh]
        exact free
      · rw [after.mrh, map, before.mrh]
      · rw [after.mrh, mrs, before.mrh]
      · rw [after.maps, maps, before.maps]
      · rw [after.bufs, keys]
      · rw [after.bufs, addr]
  | full map mrs maps keyless =>
      refine .full ?_ ?_ ?_ fun i => ?_
      · rw [after.mrh, map, before.mrh]
      · rw [after.mrh, mrs, before.mrh]
      · rw [after.maps, maps, before.maps]
      · rw [after.bufs, keyless]

theorem sameBooks_refl : SameBooks s s := ⟨rfl, rfl, fun _ => rfl, fun _ => rfl, fun _ => rfl⟩

theorem sameBooks_postSend : SameBooks s (s.postSend client) :=
  ⟨rfl, rfl, fun _ => rfl, fun _ => rfl, fun _ => rfl⟩

/-- Both requests to map. -/
theorem replies_recvReqMigMap (s : Session) (client : Nat) (msg : Message) (mr : IbvMr) :
    Replies s client msg .respMigMap (s.recvReqMigMap client msg mr) ∧
      HandsOut s client mr (s.recvReqMigMap client msg mr) ∧
        (s.recvReqMigMap client msg mr).sent =
          s.sent ++ [(client, .message ((s.recvReqMigMap client msg mr).cbList client).sendBuf)] := by
  have before : SameBooks s (s.modifyMigrbh client (noteSource msg)) :=
    sameBooks_modifyMigrbh client (noteSource msg)
  have given := replies_prepareSingleMr (s.modifyMigrbh client (noteSource msg)) client msg true mr
  have out := handsOut_prepareSingleMr (s.modifyMigrbh client (noteSource msg)) client msg true mr
  have after : SameBooks ((s.modifyMigrbh client (noteSource msg)).prepareSingleMr client msg true
      mr).2 (s.recvReqMigMap client msg mr) := by
    have noted : SameBooks ((s.modifyMigrbh client (noteSource msg)).prepareSingleMr client msg true
        mr).2 (((s.modifyMigrbh client (noteSource msg)).prepareSingleMr client msg true
          mr).2.modifyMigrbh client fun migrbh => { migrbh with localRbIndex :=
            ((s.modifyMigrbh client (noteSource msg)).prepareSingleMr client msg true mr).1 }) :=
      sameBooks_modifyMigrbh client _
    exact ⟨noted.mrh, noted.monitor, noted.maps, noted.sems, noted.bufs⟩
  exact ⟨Replies.between before given after, HandsOut.between before out after, rfl⟩

theorem replies_reqMrMap (s : Session) (client : Nat) (msg : Message) (mr : IbvMr) :
    Replies s client msg .respMrMap ((s.prepareSingleMr client msg false mr).2.postSend client) ∧
      HandsOut s client mr ((s.prepareSingleMr client msg false mr).2.postSend client) :=
  ⟨Replies.between sameBooks_refl (replies_prepareSingleMr s client msg false mr)
      sameBooks_postSend,
    HandsOut.between sameBooks_refl (handsOut_prepareSingleMr s client msg false mr)
      sameBooks_postSend⟩

theorem waitsFor_of_monitor (same : next.monitor = s.monitor) (other : Nat) :
    next.waitsFor other = s.waitsFor other := by
  unfold waitsFor
  rw [same]

/-- An owner of a free region would be known to the server. -/
theorem unmapped_of_isFree {i : Region} (free : s.mrh.isFree i = true) :
    s.mrh.cbIndexMap i = none := by
  have unmapped := (RdmaMrHandler.isMapped_of_isFree free).1
  simpa [RdmaMrHandler.isMapped] using unmapped

theorem Lends.handsOut {type : MsgOpcode} (lends : s.Lends) (keyed : mr.rkey ≠ 0)
    (replies : Replies s client msg type next) (out : HandsOut s client mr next) : next.Lends := by
  cases out with
  | full map mrs maps keyless =>
      refine lends.same ⟨map, mrs, ?_, ?_, replies.sems⟩
      · intro before i mapped
        unfold RdmaMrHandler.isMapped at before mapped
        rw [map] at mapped
        rw [replies.malloc]
        exact before i mapped
      · intro other
        rcases eq_or_ne other client with rfl | different
        · exact maps
        · exact replies.others other different
  | @region i free map mrs maps keys addr =>
      have unmapped := unmapped_of_isFree free
      have isMapped (j : Region) (different : j ≠ i) :
          next.mrh.isMapped j = s.mrh.isMapped j := by
        unfold RdmaMrHandler.isMapped
        rw [map, Function.update_of_ne different]
      refine ⟨?_, ?_, ?_, ?_⟩
      · intro other j k has
        rcases eq_or_ne other client with rfl | different
        · rw [maps] at has
          rcases eq_or_ne j i with rfl | elsewhere
          · rw [Function.update_self] at has
            exact (Option.some.inj has).symm
          · rw [Function.update_of_ne elsewhere] at has
            exact lends.own other j k has
        · rw [replies.others other different] at has
          exact lends.own other j k has
      · intro other j
        have owners := lends.owners other j
        rw [map]
        rcases eq_or_ne j i with rfl | elsewhere
        · rw [Function.update_self]
          rw [unmapped] at owners
          rcases eq_or_ne other client with rfl | different
          · rw [maps, Function.update_self]
            exact ⟨fun _ => rfl, fun _ => rfl⟩
          · rw [replies.others other different, ← owners]
            constructor
            · intro same
              exact absurd (Option.some.inj same).symm different
            · rintro ⟨⟩
        · rw [Function.update_of_ne elsewhere]
          rcases eq_or_ne other client with rfl | different
          · rw [maps, Function.update_of_ne elsewhere]
            exact owners
          · rw [replies.others other different]
            exact owners
      · intro j mapped
        rw [replies.malloc]
        rcases eq_or_ne j i with rfl | elsewhere
        · exact (RdmaMrHandler.isMapped_of_isFree free).2
        · rw [isMapped j elsewhere] at mapped
          exact lends.backed j mapped
      · intro j mapped
        rw [mrs]
        rcases eq_or_ne j i with rfl | elsewhere
        · rw [Function.update_self]
          exact keyed
        · rw [Function.update_of_ne elsewhere]
          rw [isMapped j elsewhere] at mapped
          exact lends.keyed j mapped

/-- A request to map is a turn of lending with its sender. -/
theorem turns_handsOut {type : MsgOpcode} (keyed : mr.rkey ≠ 0)
    (isReply : type = .respMrMap ∨ type = .respMigMap)
    (replies : Replies s client msg type next) (out : HandsOut s client mr next) (c : Nat) :
    Turns s c none next [(client, .message (next.cbList client).sendBuf)] := by
  have waits := waitsFor_of_monitor replies.monitor c
  have seen := replies.sems c
  have notice : noticeOf (next.cbList client).sendBuf =
      (next.cbList client).sendBuf.firstRkey.map fun i =>
        .offer i ⟨(next.cbList client).sendBuf.buf i, (next.cbList client).sendBuf.rkey i⟩ := by
    unfold noticeOf
    rw [replies.type]
    rcases isReply with rfl | rfl
    · rfl
    · rfl
  cases out with
  | full map mrs maps keyless =>
      refine .calm ?_ seen waits ?_
      · funext j
        unfold lentTo
        rw [map, mrs]
      · intro post member _
        rw [List.mem_singleton.mp member]
        show noticeOf _ = none
        rw [notice, Message.firstRkey_eq_none.mpr keyless]
        rfl
  | @region i free map mrs maps keys addr =>
      have unmapped := unmapped_of_isFree free
      rcases eq_or_ne c client with rfl | different
      · have key : (next.cbList c).sendBuf.rkey i = mr.rkey := by rw [keys, Function.update_self]
        have first := (Message.lone_update keys).firstRkey (by rw [key]; exact keyed)
        have offer : noticeOf (next.cbList c).sendBuf = some (.offer i mr) := by
          rw [notice, first, Option.map_some, addr, key]
        refine .lends ?_ ?_ seen waits offer
        · rw [lentTo_eq_none, unmapped]
          rintro ⟨⟩
        · funext j
          rcases eq_or_ne j i with rfl | elsewhere
          · rw [Function.update_self, lentTo_eq_some, map, mrs, Function.update_self,
              Function.update_self]
            exact ⟨rfl, rfl⟩
          · unfold lentTo
            rw [Function.update_of_ne elsewhere, map, mrs, Function.update_of_ne elsewhere,
              Function.update_of_ne elsewhere]
      · refine .calm ?_ seen waits ?_
        · funext j
          unfold lentTo
          rw [map, mrs]
          rcases eq_or_ne j i with rfl | elsewhere
          · have mine : some client ≠ some c := fun same => different (Option.some.inj same).symm
            have none : (none : Option Nat) ≠ some c := by rintro ⟨⟩
            rw [Function.update_self, unmapped, if_neg mine, if_neg none]
          · rw [Function.update_of_ne elsewhere, Function.update_of_ne elsewhere]
        · intro post member same
          rw [List.mem_singleton.mp member] at same
          exact absurd same.symm different

theorem lone_handsOut (out : HandsOut s client mr next) : (next.cbList client).sendBuf.Lone := by
  cases out with
  | region free map mrs maps keys addr => exact Message.lone_update keys
  | full map mrs maps keyless => exact fun i _ keyed => absurd (keyless i) keyed

/-! ## `DELETE_RB` -/

/-- What a `DELETE_RB` does. -/
inductive Deletes (s : Session) (client : Nat) (msg : Message) (next : Session) : Prop where
  | nothing (unnamed : msg.firstRkey = none) (map : next.mrh.cbIndexMap = s.mrh.cbIndexMap)
      (malloc : next.mrh.mallocMap = s.mrh.mallocMap)
      (maps : (next.cbList client).rbIdxMap = (s.cbList client).rbIdxMap)
  | region {i index : Region} (first : msg.firstRkey = some i)
      (has : (s.cbList client).rbIdxMap i = some index)
      (map : next.mrh.cbIndexMap = Function.update s.mrh.cbIndexMap index none)
      (malloc : next.mrh.mallocMap = Function.update s.mrh.mallocMap index false)
      (maps : (next.cbList client).rbIdxMap = Function.update (s.cbList client).rbIdxMap i none)

structure Collects (s : Session) (client : Nat) (msg : Message) (next : Session) : Prop where
  mrs : next.mrh.mrList = s.mrh.mrList
  monitor : next.monitor = s.monitor
  sent : next.sent = s.sent
  sems : ∀ other, (next.cbList other).evictSem =
    if other = client then (s.cbList client).evictSem + 1 else (s.cbList other).evictSem
  others : ∀ other, other ≠ client → (next.cbList other).rbIdxMap = (s.cbList other).rbIdxMap
  deletes : Deletes s client msg next

theorem collects_of_ok (ran : s.recvDeleteRb client msg = .ok next) :
    Collects s client msg next := by
  have sems := evictSem_recvDeleteRb ran
  unfold recvDeleteRb at ran
  dsimp only at ran
  cases first : msg.firstRkey with
  | none =>
      rw [first] at ran
      cases ran
      refine ⟨rfl, rfl, rfl, sems, fun other different => ?_, .nothing first rfl rfl ?_⟩
      · simp [setCb, different]
      · simp [setCb]
  | some i =>
      rw [first] at ran
      dsimp only at ran
      cases has : (s.cbList client).rbIdxMap i with
      | none =>
          rw [has] at ran
          cases ran
      | some index =>
          rw [has] at ran
          cases ran
          refine ⟨rfl, rfl, rfl, sems, fun other different => ?_, .region first has rfl rfl ?_⟩
          · simp [setCb, different]
          · simp [setCb]

theorem Lends.collects (lends : s.Lends) (collects : Collects s client msg next) : next.Lends := by
  cases collects.deletes with
  | nothing unnamed map malloc maps =>
      have isMapped (i : Region) : next.mrh.isMapped i = s.mrh.isMapped i := by
        unfold RdmaMrHandler.isMapped
        rw [map]
      have same : ∀ other, (next.cbList other).rbIdxMap = (s.cbList other).rbIdxMap := by
        intro other
        rcases eq_or_ne other client with rfl | different
        · exact maps
        · exact collects.others other different
      refine ⟨lends.own.maps same, ?_, ?_, ?_⟩
      · intro other i
        rw [map, same]
        exact lends.owners other i
      · intro i mapped
        rw [isMapped] at mapped
        rw [malloc]
        exact lends.backed i mapped
      · intro i mapped
        rw [isMapped] at mapped
        rw [collects.mrs]
        exact lends.keyed i mapped
  | @region i index first has map malloc maps =>
      have same := lends.own client i index has
      subst same
      have mine := (lends.owners client index).mpr has
      have isMapped (j : Region) (mapped : next.mrh.isMapped j = true) :
          j ≠ index ∧ s.mrh.isMapped j = true := by
        unfold RdmaMrHandler.isMapped at mapped ⊢
        rw [map] at mapped
        rcases eq_or_ne j index with rfl | elsewhere
        · rw [Function.update_self] at mapped
          cases mapped
        · rw [Function.update_of_ne elsewhere] at mapped
          exact ⟨elsewhere, mapped⟩
      refine ⟨?_, ?_, ?_, ?_⟩
      · intro other j k still
        rcases eq_or_ne other client with rfl | different
        · rw [maps] at still
          rcases eq_or_ne j index with rfl | elsewhere
          · rw [Function.update_self] at still
            cases still
          · rw [Function.update_of_ne elsewhere] at still
            exact lends.own other j k still
        · rw [collects.others other different] at still
          exact lends.own other j k still
      · intro other j
        have owners := lends.owners other j
        rw [map]
        rcases eq_or_ne j index with rfl | elsewhere
        · rw [Function.update_self]
          rcases eq_or_ne other client with rfl | different
          · rw [maps, Function.update_self]
            constructor
            · rintro ⟨⟩
            · rintro ⟨⟩
          · rw [collects.others other different, ← owners, mine]
            constructor
            · rintro ⟨⟩
            · intro same
              exact absurd (Option.some.inj same).symm different
        · rw [Function.update_of_ne elsewhere]
          rcases eq_or_ne other client with rfl | different
          · rw [maps, Function.update_of_ne elsewhere]
            exact owners
          · rw [collects.others other different]
            exact owners
      · intro j mapped
        obtain ⟨elsewhere, before⟩ := isMapped j mapped
        rw [malloc, Function.update_of_ne elsewhere]
        exact lends.backed j before
      · intro j mapped
        obtain ⟨_, before⟩ := isMapped j mapped
        rw [collects.mrs]
        exact lends.keyed j before

theorem turns_collects (lends : s.Lends) (collects : Collects s client msg next) (c : Nat) :
    Turns s c (if client = c then some msg.firstRkey else none) next [] := by
  have waits := waitsFor_of_monitor collects.monitor c
  have seen := collects.sems c
  rcases eq_or_ne client c with rfl | different
  · rw [if_pos rfl] at seen ⊢
    refine .collects ?_ seen waits
    funext j
    cases collects.deletes with
    | nothing unnamed map malloc maps =>
        have other : (none : Option Region) ≠ some j := by rintro ⟨⟩
        rw [unnamed, Lending.without_of_ne other]
        unfold lentTo
        rw [map, collects.mrs]
    | @region i index first has map malloc maps =>
        have same := lends.own client i index has
        subst same
        rw [first]
        rcases eq_or_ne j index with rfl | elsewhere
        · rw [Lending.without, if_pos rfl, lentTo_eq_none, map, Function.update_self]
          rintro ⟨⟩
        · have other : some index ≠ some j := fun same => elsewhere (Option.some.inj same).symm
          rw [Lending.without_of_ne other]
          unfold lentTo
          rw [map, collects.mrs, Function.update_of_ne elsewhere]
  · rw [if_neg different.symm] at seen
    rw [if_neg different]
    refine .calm ?_ seen waits fun _ member => absurd member List.not_mem_nil
    funext j
    cases collects.deletes with
    | nothing unnamed map malloc maps =>
        unfold lentTo
        rw [map, collects.mrs]
    | @region i index first has map malloc maps =>
        have same := lends.own client i index has
        subst same
        have mine := (lends.owners client index).mpr has
        unfold lentTo
        rw [map, collects.mrs]
        rcases eq_or_ne j index with rfl | elsewhere
        · have other : some client ≠ some c := fun same => different (Option.some.inj same)
          have none : (none : Option Nat) ≠ some c := by rintro ⟨⟩
          rw [Function.update_self, mine, if_neg none, if_neg other]
        · rw [Function.update_of_ne elsewhere]

/-! ## All steps -/

/-- A reply to a request to map carries the numbers of the request. -/
def Echoes (label : ServerLabel) (posts : List (Nat × Post)) : Prop :=
  ∀ client reply, (client, Post.message reply) ∈ posts → reply.type = .respMrMap →
    ∃ msg mr stamps, label = .daemon (.recv client msg mr stamps) ∧ msg.type = .reqMrMap ∧
      reply.sizeGb = msg.sizeGb ∧ reply.replicaIndex = msg.replicaIndex

/-- The server goes on being a lender; what it posts is a turn with each client. -/
structure Serves (s : Session) (label : ServerLabel) (next : Session)
    (posts : List (Nat × Post)) : Prop where
  lends : next.Lends
  sent : next.sent = s.sent ++ posts
  plain : Plain posts
  echoes : Echoes label posts
  turns : ∀ client, Turns s client (label.returned client) next posts

theorem turns_same {posts : List (Nat × Post)} (same : SameLoans s next)
    (waits : ∀ c, next.waitsFor c = s.waitsFor c) (silent : ∀ post ∈ posts, post.2.notice = none)
    (c : Nat) : Turns s c none next posts :=
  .calm (same.lentTo c) (same.sems c) (waits c) fun post member _ => silent post member

/-- Posting what says nothing about regions. -/
theorem Lends.quiet {label : ServerLabel} {to_ : Nat} {post : Post} (lends : s.Lends)
    (same : SameLoans s next) (monitor : next.monitor = s.monitor)
    (sent : next.sent = s.sent ++ [(to_, post)]) (noReturn : ∀ c, label.returned c = none)
    (silent : post.notice = none)
    (isDone : ∀ msg, post = .message msg → msg.type = .doneMigration) :
    Serves s label next [(to_, post)] where
  lends := lends.same same
  sent := sent
  plain := by
    intro client msg member
    have same := (Prod.ext_iff.mp (List.mem_singleton.mp member)).2
    have type := isDone msg same.symm
    refine ⟨Or.inr (Or.inr (Or.inr type)), ?_, ?_⟩
    · rw [type]
      rintro (⟨⟨⟩⟩ | ⟨⟨⟩⟩ | ⟨⟨⟩⟩)
    · rw [type]
      rintro ⟨⟩
  echoes := by
    intro client reply member type
    rw [isDone reply (Prod.ext_iff.mp (List.mem_singleton.mp member)).2.symm] at type
    cases type
  turns := by
    intro c
    rw [noReturn]
    refine turns_same same (waitsFor_of_monitor monitor) ?_ c
    intro other member
    rw [List.mem_singleton.mp member]
    exact silent

/-- Posting nothing. -/
theorem Lends.silent {label : ServerLabel} (lends : s.Lends) (same : SameLoans s next)
    (waits : ∀ c, next.waitsFor c = s.waitsFor c) (sent : next.sent = s.sent)
    (noReturn : ∀ c, label.returned c = none) : Serves s label next [] where
  lends := lends.same same
  sent := by rw [sent, List.append_nil]
  plain := fun _ _ member => absurd member List.not_mem_nil
  echoes := fun _ _ member => absurd member List.not_mem_nil
  turns := by
    intro c
    rw [noReturn]
    exact turns_same same waits (fun _ member => absurd member List.not_mem_nil) c

/-- A message that is no `DELETE_RB` returns nothing. -/
theorem returned_of_type {stamps : Region → Timeval} (type : msg.type ≠ .deleteRb) (c : Nat) :
    (ServerLabel.daemon (.recv client msg mr stamps)).returned c = none :=
  if_neg fun both => type both.2

theorem Lends.maps {type : MsgOpcode} {stamps : Region → Timeval} (lends : s.Lends)
    (keyed : mr.rkey ≠ 0) (isReply : type = .respMrMap ∨ type = .respMigMap)
    (notDelete : msg.type ≠ .deleteRb) (isMap : type = .respMrMap → msg.type = .reqMrMap)
    (replies : Replies s client msg type next) (out : HandsOut s client mr next)
    (sent : next.sent = s.sent ++ [(client, .message (next.cbList client).sendBuf)]) :
    Serves s (.daemon (.recv client msg mr stamps)) next
      [(client, .message (next.cbList client).sendBuf)] where
  lends := lends.handsOut keyed replies out
  sent := sent
  plain := by
    intro to_ reply member
    cases List.mem_singleton.mp member
    refine ⟨?_, fun _ => lone_handsOut out, fun evict => ?_⟩
    · rw [replies.type]
      rcases isReply with rfl | rfl
      · exact Or.inl rfl
      · exact Or.inr (Or.inl rfl)
    · rw [replies.type] at evict
      rcases isReply with rfl | rfl
      · cases evict
      · cases evict
  echoes := by
    intro to_ reply member isMrMap
    cases List.mem_singleton.mp member
    rw [replies.type] at isMrMap
    exact ⟨msg, mr, stamps, rfl, isMap isMrMap, replies.size, replies.replica⟩
  turns := by
    intro c
    rw [returned_of_type notDelete]
    exact turns_handsOut keyed isReply replies out c

theorem Lends.serves_recv {stamps : Region → Timeval} (lends : s.Lends) (keyed : mr.rkey ≠ 0)
    (ran : s.handleRecv client msg mr stamps = .ok next) :
    ∃ posts, Serves s (.daemon (.recv client msg mr stamps)) next posts := by
  cases handles_of_ok ran with
  | query type =>
      refine ⟨_, lends.quiet (sameLoans_of_cbs rfl (fun _ => rfl) fun _ => rfl) rfl rfl
        (returned_of_type ?_) rfl ?_⟩
      · rw [type]
        rintro ⟨⟩
      · rintro reply ⟨⟩
  | migMap type =>
      obtain ⟨replies, out, sent⟩ := replies_recvReqMigMap s client msg mr
      refine ⟨_, lends.maps keyed (Or.inr rfl) ?_ ?_ replies out sent⟩
      · rw [type]
        rintro ⟨⟩
      · rintro ⟨⟩
  | mrMap type =>
      obtain ⟨replies, out⟩ := replies_reqMrMap s client msg mr
      refine ⟨_, lends.maps keyed (Or.inl rfl) ?_ (fun _ => type) replies out rfl⟩
      rw [type]
      rintro ⟨⟩
  | deleted type ran =>
      have collects := collects_of_ok ran
      refine ⟨[], lends.collects collects, ?_, fun _ _ member => absurd member List.not_mem_nil,
        fun _ _ member => absurd member List.not_mem_nil, fun c => ?_⟩
      · rw [collects.sent, List.append_nil]
      · have turns := turns_collects lends collects c
        have returned : (ServerLabel.daemon (.recv client msg mr stamps)).returned c =
            if client = c then some msg.firstRkey else none :=
          if_congr (and_iff_left type) rfl rfl
        rw [returned]
        exact turns
  | @migrates i type named =>
      have calm : Calm s ((s.modifyMigrbh client fun migrbh =>
          { migrbh with localRbIndex := msg.sizeGb }).postWrite client (msg.rkey i) (msg.buf i)
            msg.sizeGb) := by
        refine calm_handleRecv ?_ ?_ ?_ ran
        · rw [type]
          rintro ⟨⟩
        · rw [type]
          rintro ⟨⟩
        · rw [type]
          rintro ⟨⟩
      refine ⟨_, lends.quiet (sameLoans_calm calm) rfl rfl (returned_of_type ?_) rfl ?_⟩
      · rw [type]
        rintro ⟨⟩
      · rintro reply ⟨⟩
  | ignored other =>
      refine ⟨[], lends.silent (sameLoans_of_cbs rfl (fun _ => rfl) fun _ => rfl) (fun _ => rfl)
        rfl (returned_of_type ?_)⟩
      intro type
      rw [type] at other
      exact other (by decide)

theorem Lends.serves_evict {stamps : Region → Timeval} {evictSize stopSizeG : Int}
    {oldestRbIndex : Option Region} (lends : s.Lends)
    (pc : s.monitor.pc = .evicting evictSize oldestRbIndex stopSizeG)
    (ran : s.evictTurn stamps evictSize oldestRbIndex stopSizeG = .ok next) :
    ∃ posts, Serves s (.daemon (.evict stamps)) next posts := by
  have sems := evictSem_evictTurn ran
  have idle : ∀ c, s.waitsFor c = false := by
    intro c
    unfold waitsFor
    rw [pc]
  unfold evictTurn at ran
  split at ran
  · cases ran
  · rename_i i _
    split at ran
    · cases ran
    · rename_i client mapped
      cases ran
      have regions := sameRegions_sendEvict (s := s) client i (s.mrh.clientRbIdx i) s.myIndex
      have same : SameLoans s { s.sendEvict client i (s.mrh.clientRbIdx i) s.myIndex with
          monitor := { s.monitor with pc := .waiting client evictSize (some i) stopSizeG } } :=
        sameLoans_of_cbs regions.mrh regions.maps sems
      have keys : (s.evictMessage client i (s.mrh.clientRbIdx i) s.myIndex).rkey =
          Function.update (fun _ => 0) i (s.mrh.mrList i).rkey := rfl
      have lone := Message.lone_update keys
      have first := lone.firstRkey (i := i) (by
        rw [keys, Function.update_self]
        exact lends.keyed i (isMapped_of_owner mapped))
      refine ⟨[(client, .message (s.evictMessage client i (s.mrh.clientRbIdx i) s.myIndex))],
        lends.same same, ?_, ?_, ?_, fun c => ?_⟩
      · simp [sendEvict, postSend, setCb]
      · intro to_ msg member
        cases List.mem_singleton.mp member
        exact ⟨Or.inr (Or.inr (Or.inl rfl)), fun _ => lone, fun _ => by rw [first]; rfl⟩
      · intro to_ reply member type
        cases List.mem_singleton.mp member
        cases type
      · rcases eq_or_ne client c with rfl | different
        · refine .demands (i := i) (lentTo_eq_some.mpr ⟨mapped, rfl⟩) (idle client)
            (same.lentTo client) (sems client) (decide_eq_true rfl) ?_
          show Option.map _ _ = _
          rw [first]
          rfl
        · refine .calm (same.lentTo c) (sems c) ?_ ?_
          · rw [idle]
            exact decide_eq_false different
          · intro post member to_
            rw [List.mem_singleton.mp member] at to_
            exact absurd to_ different

theorem Lends.serves_evictDone {evictSize stopSizeG : Int} {oldestRbIndex : Option Region}
    (lends : s.Lends) (pc : s.monitor.pc = .waiting client evictSize oldestRbIndex stopSizeG)
    (ran : s.evictDone client evictSize oldestRbIndex stopSizeG = some next) :
    Serves s (.daemon .evictDone) next [] := by
  have waited : ∀ c, s.waitsFor c = decide (client = c) := by
    intro c
    unfold waitsFor
    rw [pc]
  unfold evictDone at ran
  dsimp only at ran
  split at ran
  · cases ran
  · rename_i answered
    cases ran
    have kept : SameRegions s (s.setCb client { s.cbList client with
        evictSem := (s.cbList client).evictSem - 1 }) := sameRegions_setCb rfl
    obtain ⟨same, sent, calm⟩ := continueEvict_spec (s := s.setCb client { s.cbList client with
      evictSem := (s.cbList client).evictSem - 1 }) (evictSize - 1) oldestRbIndex stopSizeG
    have map := same.map.trans (congrArg RdmaMrHandler.cbIndexMap kept.mrh)
    have mrs := same.mrs.trans (congrArg RdmaMrHandler.mrList kept.mrh)
    have lent (c : Nat) : ((s.setCb client { s.cbList client with
        evictSem := (s.cbList client).evictSem - 1 }).continueEvict (evictSize - 1) oldestRbIndex
          stopSizeG).lentTo c = s.lentTo c := by
      funext i
      unfold lentTo
      rw [map, mrs]
    have sems (c : Nat) := same.sems c
    refine ⟨?_, by rw [sent, List.append_nil]; rfl, fun _ _ member => absurd member List.not_mem_nil,
      fun _ _ member => absurd member List.not_mem_nil, fun c => ?_⟩
    · have after : (s.setCb client { s.cbList client with
          evictSem := (s.cbList client).evictSem - 1 }).Lends := by
        refine ⟨lends.own.maps kept.maps, ?_, lends.backed, lends.keyed⟩
        intro c i
        rw [kept.maps]
        exact lends.owners c i
      exact after.same same
    · show Turns s c none _ []
      rcases eq_or_ne client c with rfl | different
      · refine .resumes (by rw [waited]; exact decide_eq_true rfl) (lent client) ?_ (calm client)
        rw [sems, evictSem_setCb, if_pos rfl]
        show _ = _ - 1 + 1
        omega
      · refine .calm (lent c) ?_ ?_ fun _ member => absurd member List.not_mem_nil
        · rw [sems, evictSem_setCb, if_neg different.symm]
        · rw [calm, waited]
          exact (decide_eq_false different).symm

theorem Lends.serves {weigh : Int → Int → Int} {label : ServerLabel} (lends : s.Lends)
    (registers : label.Registers) (edge : s.serverStep weigh label = some next) :
    ∃ posts, Serves s label next posts := by
  cases label with
  | established client stamps =>
      cases edge
      refine ⟨_, lends.quiet (sameLoans_of_cbs rfl (fun _ => rfl) fun _ => rfl) rfl rfl
        (fun _ => rfl) rfl ?_⟩
      rintro reply ⟨⟩
  | wcRdmaWrite peer =>
      have ran := toOption_eq_some edge
      unfold Session.wcRdmaWrite at ran
      dsimp only at ran
      split at ran
      · cases ran
      · split at ran
        · cases ran
        · rename_i client _
          cases ran
          have same : SameLoans s (s.setCb client { s.cbList client with
              sendBuf := { (s.cbList client).sendBuf with type := .doneMigration } }) :=
            sameLoans_setCb rfl rfl
          refine ⟨[(client, .message { (s.cbList client).sendBuf with type := .doneMigration })],
            lends.quiet ⟨same.map, same.mrs, same.backed, same.maps, same.sems⟩ rfl ?_
              (fun _ => rfl) rfl ?_⟩
          · simp [postSend, setCb]
          · rintro reply ⟨⟩
            rfl
  | daemon label =>
      cases label with
      | recv client msg mr stamps => exact lends.serves_recv registers (toOption_eq_some edge)
      | monitor freeMemG =>
          simp only [serverStep, Session.step] at edge
          split at edge
          · rename_i asleep
            cases edge
            obtain ⟨same, sent, calm⟩ := monitorTurn_spec weigh freeMemG asleep
            refine ⟨[], lends.silent same (fun c => ?_) sent fun _ => rfl⟩
            rw [calm]
            unfold waitsFor
            rw [asleep]
          · cases edge
      | evict stamps =>
          simp only [serverStep, Session.step] at edge
          split at edge
          · rename_i evictSize oldestRbIndex stopSizeG pc
            exact lends.serves_evict pc (toOption_eq_some edge)
          · cases edge
      | evictDone =>
          simp only [serverStep, Session.step] at edge
          split at edge
          · rename_i client evictSize oldestRbIndex stopSizeG pc
            exact ⟨[], lends.serves_evictDone pc edge⟩
          · cases edge

theorem lends_init (myIndex : Int) (mrList : Region → IbvMr) (freeMemG lastFreeMemG : Int) :
    (init myIndex mrList freeMemG lastFreeMemG).Lends where
  own := fun _ _ _ has => nomatch has
  owners := by
    intro client i
    constructor
    · rintro ⟨⟩
    · rintro ⟨⟩
  backed := fun _ mapped => nomatch mapped
  keyed := fun _ mapped => nomatch mapped

end Session

end Valet.Daemon
