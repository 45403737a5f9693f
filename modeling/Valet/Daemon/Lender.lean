import Valet.Daemon.Eviction
import Valet.Daemon.OwnRegions
import Valet.Library.Lending

/-!
# The server as a lender of regions

To each of its clients the server is a lender: it hands out free regions, asks
for the oldest one back when memory gets short, and waits until the client has
answered.  A step of the server is one turn of this with one client and none
with all others, whatever the others send.
-/

namespace Valet.Daemon

open Valet.Wire Valet.Library

/-- What a message tells a client about regions. -/
def noticeOf (msg : Message) : Option (Notice Region IbvMr) :=
  match msg.type with
  | .respMrMap | .respMigMap => msg.firstRkey.map fun i => .offer i ⟨msg.buf i, msg.rkey i⟩
  | .evict => msg.firstRkey.map .demand
  | _ => none

def Post.notice : Post → Option (Notice Region IbvMr)
  | .message msg => noticeOf msg
  | .query _ | .write _ _ _ => none

/-- The message is one of the four that a server sends; what is said about regions is about one at
most, and an `EVICT` names it. -/
structure Clear (msg : Message) : Prop where
  spoken : msg.type = .respMrMap ∨ msg.type = .respMigMap ∨ msg.type = .evict ∨
    msg.type = .doneMigration
  lone : msg.type = .respMrMap ∨ msg.type = .respMigMap ∨ msg.type = .evict → msg.Lone
  named : msg.type = .evict → msg.firstRkey.isSome = true

inductive ServerLabel where
  | daemon (label : DaemonLabel)
  | established (client : Nat) (stamps : Region → Timeval)
  | wcRdmaWrite (peer : Nat)

/-- The `DELETE_RB` of the client that a step handles, with the region it names. -/
def ServerLabel.returned (client : Nat) : ServerLabel → Option (Option Region)
  | .daemon (.recv sender msg _ _) =>
      if sender = client ∧ msg.type = .deleteRb then some msg.firstRkey else none
  | _ => none

namespace Session

variable (s : Session)

/-- The case `RDMA_CM_EVENT_ESTABLISHED` of `rping_cma_event_handler`. -/
def established (client : Nat) (stamps : Region → Timeval) : Session :=
  { s with sent := s.sent ++ [(client, .query (s.mrh.replyQuery stamps))] }

/-- The case `IBV_WC_RDMA_WRITE` of `rping_cq_event_handler` for the copy that a peer asked
for; an index outside of the tables halts. -/
def wcRdmaWrite (peer : Nat) : Except Halt Session :=
  let localRbIndex := (s.cbList peer).migrbh.localRbIndex
  match (List.finRange maxMrSizeGb).find? fun i => decide ((i.val : Int) = localRbIndex) with
  | none => .error .oops
  | some i =>
      match s.mrh.cbIndexMap i with
      | none => .error .oops
      | some client =>
          let cb := s.cbList client
          .ok ((s.setCb client { cb with
            sendBuf := { cb.sendBuf with type := .doneMigration } }).postSend client)

def serverStep (weigh : Int → Int → Int) (s : Session) : ServerLabel → Option Session
  | .daemon label => s.step weigh label
  | .established client stamps => some (s.established client stamps)
  | .wcRdmaWrite peer => (s.wcRdmaWrite peer).toOption

/-- The regions of a client, with their keys and addresses. -/
def lentTo (client : Nat) (i : Region) : Option IbvMr :=
  if s.mrh.cbIndexMap i = some client then some (s.mrh.mrList i) else none

def waitsFor (client : Nat) : Bool :=
  match s.monitor.pc with
  | .waiting other _ _ _ => decide (other = client)
  | _ => false

/-- Clients have the regions that the server keeps under their numbers; these are allocated and
have keys. -/
structure Lends (s : Session) : Prop where
  own : s.OwnsRegions
  owners : ∀ client i, s.mrh.cbIndexMap i = some client ↔ (s.cbList client).rbIdxMap i = some i
  backed : ∀ i, s.mrh.isMapped i = true → s.mrh.mallocMap i = true
  keyed : ∀ i, s.mrh.isMapped i = true → (s.mrh.mrList i).rkey ≠ 0

/-- What a step means to a client: the `DELETE_RB` it takes from it, and what it posts. -/
inductive Turns (s : Session) (client : Nat) :
    Option (Option Region) → Session → List (Nat × Post) → Prop where
  | calm {next : Session} {posts : List (Nat × Post)} (lent : next.lentTo client = s.lentTo client)
      (seen : (next.cbList client).evictSem = (s.cbList client).evictSem)
      (waits : next.waitsFor client = s.waitsFor client)
      (silent : ∀ post ∈ posts, post.1 = client → post.2.notice = none) :
      Turns s client none next posts
  | lends {next : Session} {i : Region} {mr : IbvMr} {reply : Message}
      (free : s.lentTo client i = none)
      (lent : next.lentTo client = Function.update (s.lentTo client) i (some mr))
      (seen : (next.cbList client).evictSem = (s.cbList client).evictSem)
      (waits : next.waitsFor client = s.waitsFor client)
      (offer : noticeOf reply = some (.offer i mr)) :
      Turns s client none next [(client, .message reply)]
  | demands {next : Session} {i : Region} {mr : IbvMr} {evict : Message}
      (has : s.lentTo client i = some mr) (idle : s.waitsFor client = false)
      (lent : next.lentTo client = s.lentTo client)
      (seen : (next.cbList client).evictSem = (s.cbList client).evictSem)
      (waits : next.waitsFor client = true) (demand : noticeOf evict = some (.demand i)) :
      Turns s client none next [(client, .message evict)]
  | collects {next : Session} {gone : Option Region}
      (lent : next.lentTo client = Lending.without (s.lentTo client) gone none)
      (seen : (next.cbList client).evictSem = (s.cbList client).evictSem + 1)
      (waits : next.waitsFor client = s.waitsFor client) : Turns s client (some gone) next []
  | resumes {next : Session} (waited : s.waitsFor client = true)
      (lent : next.lentTo client = s.lentTo client)
      (seen : (s.cbList client).evictSem = (next.cbList client).evictSem + 1)
      (waits : next.waitsFor client = false) : Turns s client none next []

def Plain (posts : List (Nat × Post)) : Prop :=
  ∀ client msg, (client, Post.message msg) ∈ posts → Clear msg

variable {s} {next : Session} {client other : Nat}

theorem lentTo_eq_some {i : Region} {mr : IbvMr} :
    s.lentTo client i = some mr ↔ s.mrh.cbIndexMap i = some client ∧ s.mrh.mrList i = mr := by
  unfold lentTo
  split
  · rename_i mapped
    simp [mapped]
  · rename_i unmapped
    simp [unmapped]

theorem lentTo_eq_none {i : Region} :
    s.lentTo client i = none ↔ s.mrh.cbIndexMap i ≠ some client := by
  unfold lentTo
  split
  · rename_i mapped
    simp [mapped]
  · rename_i unmapped
    simp [unmapped]

theorem isMapped_of_owner {i : Region} (mapped : s.mrh.cbIndexMap i = some client) :
    s.mrh.isMapped i = true := by
  unfold RdmaMrHandler.isMapped
  rw [mapped]
  rfl

/-! ## Steps that leave the regions alone -/

/-- Neither regions nor answers change. -/
structure SameLoans (s next : Session) : Prop where
  map : next.mrh.cbIndexMap = s.mrh.cbIndexMap
  mrs : next.mrh.mrList = s.mrh.mrList
  backed : (∀ i, s.mrh.isMapped i = true → s.mrh.mallocMap i = true) →
    ∀ i, next.mrh.isMapped i = true → next.mrh.mallocMap i = true
  maps : ∀ client, (next.cbList client).rbIdxMap = (s.cbList client).rbIdxMap
  sems : ∀ client, (next.cbList client).evictSem = (s.cbList client).evictSem

theorem SameLoans.lentTo (same : SameLoans s next) (client : Nat) :
    next.lentTo client = s.lentTo client := by
  funext i
  unfold Session.lentTo
  rw [same.map, same.mrs]

theorem SameLoans.isMapped (same : SameLoans s next) (i : Region) :
    next.mrh.isMapped i = s.mrh.isMapped i := by
  unfold RdmaMrHandler.isMapped
  rw [same.map]

theorem Lends.same (lends : s.Lends) (same : SameLoans s next) : next.Lends where
  own := lends.own.maps same.maps
  owners := by
    intro client i
    rw [same.map, same.maps]
    exact lends.owners client i
  backed := same.backed lends.backed
  keyed := by
    intro i mapped
    rw [same.isMapped] at mapped
    rw [same.mrs]
    exact lends.keyed i mapped

theorem SameLoans.trans {last : Session} (first : SameLoans s next) (second : SameLoans next last) :
    SameLoans s last where
  map := second.map.trans first.map
  mrs := second.mrs.trans first.mrs
  backed := fun before => second.backed (first.backed before)
  maps := fun client => (second.maps client).trans (first.maps client)
  sems := fun client => (second.sems client).trans (first.sems client)

/-- The regions of the server stay, and so does what connections know of them. -/
theorem sameLoans_of_cbs (mrh : next.mrh = s.mrh)
    (maps : ∀ client, (next.cbList client).rbIdxMap = (s.cbList client).rbIdxMap)
    (sems : ∀ client, (next.cbList client).evictSem = (s.cbList client).evictSem) :
    SameLoans s next where
  map := by rw [mrh]
  mrs := by rw [mrh]
  backed := by
    rw [mrh]
    exact id
  maps := maps
  sems := sems

/-- Replacing a connection by one that knows the same regions. -/
theorem sameLoans_setCb {cb : RpingCb} (map : cb.rbIdxMap = (s.cbList client).rbIdxMap)
    (sem : cb.evictSem = (s.cbList client).evictSem) : SameLoans s (s.setCb client cb) := by
  have kept : SameRegions s (s.setCb client cb) := sameRegions_setCb map
  refine sameLoans_of_cbs kept.mrh kept.maps fun other => ?_
  rw [evictSem_setCb]
  split
  · rename_i same
    rw [same, sem]
  · rfl

theorem sameLoans_calm (calm : Calm s next) : SameLoans s next :=
  sameLoans_of_cbs calm.mrh calm.maps calm.sems

theorem RdmaMrHandler.mallocEmpty_grows (expandSizeG : Int) (regions : List Region) (j : Int)
    (mrh : RdmaMrHandler) : ∃ mallocMap,
      mrh.mallocEmpty expandSizeG regions j = { mrh with mallocMap := mallocMap } ∧
        ∀ i, mrh.mallocMap i = true → mallocMap i = true := by
  induction regions generalizing j mrh with
  | nil => exact ⟨mrh.mallocMap, rfl, fun _ => id⟩
  | cons i rest ih =>
      unfold RdmaMrHandler.mallocEmpty
      split
      · exact ih j mrh
      · have grown : ∀ k, mrh.mallocMap k = true →
            Function.update mrh.mallocMap i true k = true := by
          intro k before
          rcases eq_or_ne k i with rfl | different
          · exact Function.update_self ..
          · rwa [Function.update_of_ne different]
        dsimp only
        split
        · exact ⟨_, rfl, grown⟩
        · obtain ⟨mallocMap, same, more⟩ :=
            ih (j + 1) { mrh with mallocMap := Function.update mrh.mallocMap i true }
          exact ⟨mallocMap, same, fun k before => more k (grown k before)⟩

theorem sameLoans_doEvict (evictSize : Int) (monitor : Monitor) :
    SameLoans s { s with mrh := (s.mrh.doEvict evictSize).2, monitor := monitor } := by
  have frees := RdmaMrHandler.frees_freeUnmapped evictSize (List.finRange maxMrSizeGb) 0 s.mrh
  have same := frees.same
  refine ⟨RdmaMrHandler.doEvict_map, ?_, ?_, fun _ => rfl, fun _ => rfl⟩
  · have mrs := congrArg RdmaMrHandler.mrList same
    unfold RdmaMrHandler.doEvict
    dsimp only
    split
    · exact mrs
    · exact mrs
  · intro before
    have backed := frees.backed before
    unfold RdmaMrHandler.doEvict
    dsimp only
    split
    · exact backed
    · exact backed

theorem sameLoans_monitorExpand : SameLoans s s.monitorExpand := by
  obtain ⟨mallocMap, same, more⟩ := RdmaMrHandler.mallocEmpty_grows
    (s.mrh.expandSize s.monitor.lastFreeMemG) (List.finRange maxMrSizeGb) 0 s.mrh
  refine ⟨RdmaMrHandler.expand_map, ?_, ?_, fun _ => rfl, fun _ => rfl⟩
  · show (s.mrh.expand _).mrList = _
    unfold RdmaMrHandler.expand
    rw [same]
  · intro before i mapped
    have mapped : (s.mrh.expand (s.mrh.expandSize s.monitor.lastFreeMemG)).isMapped i = true :=
      mapped
    show (s.mrh.expand (s.mrh.expandSize s.monitor.lastFreeMemG)).mallocMap i = true
    unfold RdmaMrHandler.expand at mapped ⊢
    rw [same] at mapped ⊢
    exact more i (before i mapped)

/-- At the head of its loop or after it, `do_evict` does not wait. -/
theorem continueEvict_spec (evictSize : Int) (oldestRbIndex : Option Region) (stopSizeG : Int) :
    SameLoans s (s.continueEvict evictSize oldestRbIndex stopSizeG) ∧
      (s.continueEvict evictSize oldestRbIndex stopSizeG).sent = s.sent ∧
        ∀ client, (s.continueEvict evictSize oldestRbIndex stopSizeG).waitsFor client = false := by
  unfold continueEvict endEvict waitsFor
  split
  · exact ⟨sameLoans_of_cbs rfl (fun _ => rfl) fun _ => rfl, rfl, fun _ => rfl⟩
  · exact ⟨sameLoans_of_cbs rfl (fun _ => rfl) fun _ => rfl, rfl, fun _ => rfl⟩

/-- A turn of the monitor frees and allocates regions that nobody has, posts nothing and does
not wait. -/
theorem monitorTurn_spec (weigh : Int → Int → Int) (freeMemG : Int)
    (asleep : s.monitor.pc = .sleeping) : SameLoans s (s.monitorTurn weigh freeMemG) ∧
      (s.monitorTurn weigh freeMemG).sent = s.sent ∧
        ∀ client, (s.monitorTurn weigh freeMemG).waitsFor client = false := by
  have noted (monitor : Monitor) : SameLoans s { s with monitor := monitor } :=
    sameLoans_of_cbs rfl (fun _ => rfl) fun _ => rfl
  have calm (monitor : Monitor) (still : monitor.pc = .sleeping) (client : Nat) :
      ({ s with monitor := monitor } : Session).waitsFor client = false := by
    unfold waitsFor
    dsimp only
    rw [still]
  unfold monitorTurn
  dsimp only
  split
  · split
    · unfold monitorEvict
      dsimp only
      generalize (if s.mrh.sizeGb < freeMemEvictThreshold - weigh freeMemG s.monitor.lastFreeMemG
        then s.mrh.sizeGb
        else freeMemEvictThreshold - weigh freeMemG s.monitor.lastFreeMemG) = stopSizeG
      split
      · obtain ⟨same, sent, calm⟩ := continueEvict_spec (s.mrh.doEvict stopSizeG).1 none stopSizeG
        exact ⟨(sameLoans_doEvict stopSizeG _).trans same, sent, calm⟩
      · exact ⟨noted _, rfl, fun _ => rfl⟩
    · exact ⟨noted _, rfl, calm _ asleep⟩
  · split
    · split
      · refine ⟨(noted _).trans sameLoans_monitorExpand, rfl, calm _ asleep⟩
      · exact ⟨noted _, rfl, calm _ asleep⟩
    · exact ⟨noted _, rfl, calm _ asleep⟩

end Session

end Valet.Daemon
