import Valet.Daemon.Accounting
import Mathlib.Data.List.Count

/-!
# Starting migrations

A request for a region to migrate to leaves its parameters in the one slot of
the connection.  The next send completion of the connection, of whatever was
sent, posts a semaphore, and the thread that waits for it asks the source that
is then named in the slot.  A request that comes before the thread has woken up
for the one before it takes that one's place.

The handlers of a connection run one after the other.  Connecting to the source
is left out.
-/

namespace Valet.Daemon

open Valet.Wire Valet.Library

/-- `enum test_state`. -/
inductive TestState where
  | idle
  | connectRequest
  | addrResolved
  | routeResolved
  | connected
  | recvQueryRepl
  | recvMrMap
  | recvMigMap
  | rdmaReadInp
  | rdmaReadComplete
  | rdmaWriteInp
  | rdmaWriteComplete
  | rdmaSendComplete
  | error
  deriving DecidableEq

/-- The message of `request_migration`, in the buffer of the connection to the source. -/
def RdmaMrHandler.requestMessage (mrh : RdmaMrHandler) (sendBuf : Message)
    (localRbIndex srcRbIndex : Int) : Message :=
  { sendBuf with
    sizeGb := srcRbIndex
    type := .reqMigration
    rkey := fun i => if (i.val : Int) = localRbIndex then (mrh.mrList i).rkey else 0
    buf := fun i => if (i.val : Int) = localRbIndex then (mrh.mrList i).addr else sendBuf.buf i }

/-- A call of `request_migration` and the message it posts. -/
structure RequestMigration where
  localRbIndex : Int
  srcRbIndex : Int
  srcCbIndex : Int
  msg : Message

/-- A request that was given a region: what it named, and the region as it is registered. -/
structure Grant where
  srcCbIndex : Int
  srcRbIndex : Int
  region : Region
  mr : IbvMr

/-- The connection of a client: the server it belongs to, the length of its `mig_cb_list`, `state`
and `migration_sem` of its `rping_cb`, the sends that have not completed and the messages to the
sources.  `granted` lists the requests; no function reads it. -/
structure MigrationCb where
  session : Session
  migServerNum : Nat
  state : TestState
  migrationSem : Nat
  sendsInFlight : Nat
  migSendBuf : Int → Message
  requests : List RequestMigration
  granted : List Grant

inductive MigrationLabel where
  | recv (msg : Message) (mr : IbvMr) (stamps : Region → Timeval)
  | sendDone
  | wake

namespace MigrationCb

variable (client : Nat)

/-- `request_migration`. -/
def requestMigration (s : MigrationCb) (localRbIndex srcRbIndex srcCbIndex : Int) :
    Except Halt MigrationCb :=
  if 0 ≤ srcCbIndex ∧ srcCbIndex < s.migServerNum then
    let sendBuf :=
      s.session.mrh.requestMessage (s.migSendBuf srcCbIndex) localRbIndex srcRbIndex
    .ok { s with
      migSendBuf := Function.update s.migSendBuf srcCbIndex sendBuf
      requests := s.requests ++ [⟨localRbIndex, srcRbIndex, srcCbIndex, sendBuf⟩] }
  else
    .error .oops

/-- One turn of `do_migration_fn`. -/
def doMigrationFn (s : MigrationCb) : Option MigrationCb :=
  if s.migrationSem = 0 then
    none
  else
    let migrbh := (s.session.cbList client).migrbh
    ({ s with migrationSem := s.migrationSem - 1 }.requestMigration migrbh.localRbIndex
      migrbh.srcRbIndex migrbh.srcCbIndex).toOption

/-- The case `IBV_WC_SEND` of `rping_cq_event_handler`. -/
def wcSend (s : MigrationCb) : MigrationCb :=
  { s with
    migrationSem := if s.state = .recvMrMap then s.migrationSem + 1 else s.migrationSem
    state := .rdmaSendComplete
    sendsInFlight := s.sendsInFlight - 1 }

/-- What the request is given, if it is one for a region to migrate to. -/
def grant (s : MigrationCb) (msg : Message) (mr : IbvMr) : Option Grant :=
  if msg.type = .reqMigMap then
    ((List.finRange maxMrSizeGb).find? s.session.mrh.isFree).map fun i =>
      ⟨msg.cbIndex, msg.rbIndex, i, mr⟩
  else
    none

/-- The case `IBV_WC_RECV` for the requests of a client; each is answered by one send. -/
def wcRecv (s : MigrationCb) (msg : Message) (mr : IbvMr) (stamps : Region → Timeval) :
    Except Halt MigrationCb := do
  let session ← s.session.handleRecv client msg mr stamps
  return { s with
    session := session
    state := if msg.type = .reqMigMap then .recvMrMap else s.state
    sendsInFlight := s.sendsInFlight + 1
    granted := s.granted ++ (s.grant msg mr).toList }

def step (s : MigrationCb) : MigrationLabel → Option MigrationCb
  | .recv msg mr stamps =>
      if msg.type = .reqQuery ∨ msg.type = .reqMrMap ∨ msg.type = .reqMigMap then
        (s.wcRecv client msg mr stamps).toOption
      else
        none
  | .sendDone => if 0 < s.sendsInFlight then some s.wcSend else none
  | .wake => s.doMigrationFn client

/-- A connection that is established; it has been sent what `reply_query` says. -/
def init (session : Session) (migServerNum : Nat) (migSendBuf : Int → Message) :
    MigrationCb where
  session := session
  migServerNum := migServerNum
  state := .connected
  migrationSem := 0
  sendsInFlight := 1
  migSendBuf := migSendBuf
  requests := []
  granted := []

/-- The call is for the request, and its message carries what the request named and was given. -/
def carries (grant : Grant) (request : RequestMigration) : Bool :=
  decide (request.srcCbIndex = grant.srcCbIndex ∧ request.localRbIndex = grant.region.val ∧
    request.srcRbIndex = grant.srcRbIndex ∧ request.msg.type = .reqMigration ∧
      request.msg.sizeGb = grant.srcRbIndex ∧
        request.msg.rkey = Function.update (fun _ => 0) grant.region grant.mr.rkey ∧
          request.msg.buf grant.region = grant.mr.addr)

/-- Nothing is left to complete and the thread has nothing to wake up for. -/
def Settled (s : MigrationCb) : Prop := s.sendsInFlight = 0 ∧ s.migrationSem = 0

/-- The start signals on their way: those the thread can wait for, and one that the next send
completion will post. -/
def signals (s : MigrationCb) : Nat :=
  s.migrationSem + if s.state = .recvMrMap then 1 else 0

/-- A request for a region to migrate to does not come while a signal is on its way for one that
was given a region, and finds no signal left over if it is given one itself. -/
def Prompt (s : MigrationCb) : MigrationLabel → Prop
  | .recv msg mr _ => msg.type = .reqMigMap →
      ((∃ i : Region, (s.session.cbList client).migrbh.localRbIndex = i.val) → s.signals = 0) ∧
        ((s.grant msg mr).isSome → s.migrationSem = 0)
  | _ => True

instance (s : MigrationCb) (label : MigrationLabel) : Decidable (Prompt client s label) :=
  match label with
  | .recv msg mr _ => inferInstanceAs (Decidable (msg.type = .reqMigMap →
      ((∃ i : Region, (s.session.cbList client).migrbh.localRbIndex = i.val) → s.signals = 0) ∧
        ((s.grant msg mr).isSome → s.migrationSem = 0)))
  | .sendDone | .wake => isTrue trivial

/-- The slot holds the parameters of the request. -/
def Names (s : MigrationCb) (grant : Grant) : Prop :=
  (s.session.cbList client).migrbh.localRbIndex = grant.region.val ∧
    (s.session.cbList client).migrbh.srcRbIndex = grant.srcRbIndex ∧
      (s.session.cbList client).migrbh.srcCbIndex = grant.srcCbIndex

instance (s : MigrationCb) (grant : Grant) : Decidable (s.Names client grant) :=
  inferInstanceAs (Decidable (_ ∧ _))

/-- The regions with this number are mapped. -/
def Backs (mrh : RdmaMrHandler) (index : Int) : Prop :=
  ∀ i : Region, index = i.val → mrh.isMapped i = true

/-- Every request has led to one `REQ_MIGRATION`, or holds the slot with one signal on its way. -/
structure Starts (s : MigrationCb) : Prop where
  registered : ∀ grant ∈ s.granted, s.session.mrh.isMapped grant.region = true ∧
    s.session.mrh.mrList grant.region = grant.mr
  replies : s.state = .recvMrMap → 0 < s.sendsInFlight
  asked : ∀ request ∈ s.requests, Backs s.session.mrh request.localRbIndex
  slot : 0 < s.signals → Backs s.session.mrh (s.session.cbList client).migrbh.localRbIndex
  count : ∀ grant ∈ s.granted,
    s.requests.countP (carries grant) + (if s.Names client grant then s.signals else 0) = 1

variable {client} {s next : MigrationCb}

/-- A call that returns has found its source in `mig_cb_list`. -/
theorem requestMigration_ok {localRbIndex srcRbIndex srcCbIndex : Int}
    (ran : s.requestMigration localRbIndex srcRbIndex srcCbIndex = .ok next) :
    next = { s with
      migSendBuf := next.migSendBuf
      requests := s.requests ++ [⟨localRbIndex, srcRbIndex, srcCbIndex,
        s.session.mrh.requestMessage (s.migSendBuf srcCbIndex) localRbIndex srcRbIndex⟩] } ∧
      next.migSendBuf srcCbIndex =
        s.session.mrh.requestMessage (s.migSendBuf srcCbIndex) localRbIndex srcRbIndex := by
  unfold requestMigration at ran
  split at ran
  · cases ran
    exact ⟨rfl, Function.update_self ..⟩
  · cases ran

/-- A send completion turns what the state says into a signal. -/
theorem signals_wcSend : s.wcSend.signals = s.signals := by
  unfold signals wcSend
  split <;> rfl

theorem Starts.sendDone (starts : s.Starts client) : s.wcSend.Starts client where
  registered := starts.registered
  replies := nofun
  asked := starts.asked
  slot := by
    rw [signals_wcSend]
    exact starts.slot
  count := by
    rw [signals_wcSend]
    exact starts.count

/-- What the thread does when it wakes up. -/
theorem doMigrationFn_spec (ran : s.doMigrationFn client = some next) :
    ∃ request, next.requests = s.requests ++ [request] ∧ next.session = s.session ∧
      next.state = s.state ∧ next.sendsInFlight = s.sendsInFlight ∧ next.granted = s.granted ∧
        next.signals + 1 = s.signals ∧
          request.localRbIndex = (s.session.cbList client).migrbh.localRbIndex ∧
            ∀ grant, s.session.mrh.mrList grant.region = grant.mr →
              (carries grant request = true ↔ s.Names client grant) := by
  obtain ⟨notZero, called⟩ := Option.ite_none_left_eq_some.mp ran
  obtain ⟨after, _⟩ := requestMigration_ok (toOption_eq_some called)
  rw [after]
  refine ⟨_, rfl, rfl, rfl, rfl, rfl, ?_, rfl, ?_⟩
  · have pos := Nat.pos_of_ne_zero notZero
    show s.migrationSem - 1 + (if s.state = .recvMrMap then 1 else 0) + 1 =
      s.migrationSem + (if s.state = .recvMrMap then 1 else 0)
    omega
  · intro grant registered
    rw [carries, decide_eq_true_iff]
    constructor
    · rintro ⟨source, region, block, _⟩
      exact ⟨region, block, source⟩
    · rintro ⟨region, block, source⟩
      refine ⟨source, region, block, rfl, block, ?_, ?_⟩
      · funext i
        show (if (i.val : Int) = _ then _ else _) = _
        rcases eq_or_ne i grant.region with rfl | different
        · rw [if_pos region.symm, Function.update_self, registered]
        · rw [if_neg ?_, Function.update_of_ne different]
          rw [region]
          exact fun same => different (Fin.ext (Int.ofNat.inj same))
      · show (if (grant.region.val : Int) = _ then _ else _) = _
        rw [if_pos region.symm, registered]

theorem Starts.wake (starts : s.Starts client) (ran : s.doMigrationFn client = some next) :
    next.Starts client := by
  obtain ⟨request, requests, session, state, sends, granted, signals, region, carried⟩ :=
    doMigrationFn_spec ran
  refine ⟨?_, ?_, ?_, ?_, ?_⟩
  · rw [granted, session]
    exact starts.registered
  · rw [state, sends]
    exact starts.replies
  · intro other member
    rw [session]
    rw [requests] at member
    rcases List.mem_append.mp member with before | now
    · exact starts.asked other before
    · rw [List.mem_singleton.mp now, region]
      exact starts.slot (by omega)
  · intro some_
    rw [session]
    exact starts.slot (by omega)
  · intro grant member
    rw [granted] at member
    have before := starts.count grant member
    have mine := carried grant (starts.registered grant member).2
    have same : next.Names client grant ↔ s.Names client grant := by rw [Names, Names, session]
    rw [requests, List.countP_append, List.countP_singleton]
    by_cases names : s.Names client grant
    · rw [if_pos names] at before
      rw [if_pos (mine.mpr names), if_pos (same.mpr names)]
      omega
    · rw [if_neg names] at before
      rw [if_neg fun carries => names (mine.mp carries), if_neg fun named => names (same.mp named)]
      exact before

/-! ## Requests -/

/-- What giving out a region does. -/
theorem prepareSingleMr_spec (client : Nat) (session : Session) (recv : Message) (isMigration : Bool)
    (mr : IbvMr) :
    ((session.prepareSingleMr client recv isMigration mr).2.cbList client).migrbh =
        (session.cbList client).migrbh ∧
      (match (List.finRange maxMrSizeGb).find? session.mrh.isFree with
        | some i => (session.prepareSingleMr client recv isMigration mr).1 = i.val ∧
            (session.prepareSingleMr client recv isMigration mr).2.mrh.cbIndexMap =
              Function.update session.mrh.cbIndexMap i (some client) ∧
            (session.prepareSingleMr client recv isMigration mr).2.mrh.mrList =
              Function.update session.mrh.mrList i mr
        | none => (session.prepareSingleMr client recv isMigration mr).1 = maxMrSizeGb ∧
            (session.prepareSingleMr client recv isMigration mr).2.mrh.cbIndexMap =
              session.mrh.cbIndexMap ∧
            (session.prepareSingleMr client recv isMigration mr).2.mrh.mrList =
              session.mrh.mrList) := by
  unfold Session.prepareSingleMr Session.setCb
  dsimp only
  cases (List.finRange maxMrSizeGb).find? session.mrh.isFree with
  | none => exact ⟨by rw [Function.update_self], rfl, rfl, rfl⟩
  | some i => exact ⟨by rw [Function.update_self], rfl, rfl, rfl⟩

/-- Mapped regions stay as they are. -/
def Keeps (mrh later : RdmaMrHandler) : Prop :=
  ∀ i, mrh.isMapped i = true → later.isMapped i = true ∧ later.mrList i = mrh.mrList i

theorem Keeps.backs {mrh later : RdmaMrHandler} {index : Int} (keeps : Keeps mrh later)
    (backs : Backs mrh index) : Backs later index :=
  fun i same => (keeps i (backs i same)).1

theorem prepareSingleMr_keeps (client : Nat) (session : Session) (recv : Message) (isMigration : Bool)
    (mr : IbvMr) :
    Keeps session.mrh (session.prepareSingleMr client recv isMigration mr).2.mrh := by
  intro i mapped
  have spec := (prepareSingleMr_spec client session recv isMigration mr).2
  cases found : (List.finRange maxMrSizeGb).find? session.mrh.isFree with
  | none =>
      rw [found] at spec
      obtain ⟨_, cbIndexMap, mrList⟩ := spec
      rw [RdmaMrHandler.isMapped, cbIndexMap, mrList]
      exact ⟨mapped, rfl⟩
  | some j =>
      rw [found] at spec
      obtain ⟨_, cbIndexMap, mrList⟩ := spec
      have different : i ≠ j := by
        rintro rfl
        rw [(RdmaMrHandler.isMapped_of_isFree (List.find?_some found)).1] at mapped
        cases mapped
      rw [RdmaMrHandler.isMapped, cbIndexMap, mrList, Function.update_of_ne different,
        Function.update_of_ne different]
      exact ⟨mapped, rfl⟩

/-- A request that leaves the slot alone. -/
theorem Starts.answer {session : Session} (starts : s.Starts client)
    (keeps : Keeps s.session.mrh session.mrh)
    (slot : (session.cbList client).migrbh = (s.session.cbList client).migrbh) :
    Starts client { s with session := session, sendsInFlight := s.sendsInFlight + 1 } := by
  refine ⟨?_, fun _ => Nat.succ_pos _, ?_, ?_, ?_⟩
  · intro grant member
    obtain ⟨mapped, mr⟩ := starts.registered grant member
    obtain ⟨still, same⟩ := keeps grant.region mapped
    exact ⟨still, same.trans mr⟩
  · exact fun request member => keeps.backs (starts.asked request member)
  · intro some_
    show Backs session.mrh (session.cbList client).migrbh.localRbIndex
    rw [slot]
    exact keeps.backs (starts.slot some_)
  · intro grant member
    have same : Names client { s with session := session, sendsInFlight := s.sendsInFlight + 1 }
        grant ↔ s.Names client grant := by
      rw [Names, Names, slot]
    rw [if_congr same rfl rfl]
    exact starts.count grant member

theorem migrbh_modifyMigrbh (session : Session)
    (change : MigrationRemoteBlockHandler → MigrationRemoteBlockHandler) :
    ((session.modifyMigrbh client change).cbList client).migrbh =
      change (session.cbList client).migrbh := by
  unfold Session.modifyMigrbh Session.setCb
  dsimp only
  rw [Function.update_self]

theorem noteSource_source (recv : Message) (migrbh : MigrationRemoteBlockHandler) :
    (Session.noteSource recv migrbh).srcRbIndex = recv.rbIndex ∧
      (Session.noteSource recv migrbh).srcCbIndex = recv.cbIndex := by
  unfold Session.noteSource
  cases recv.firstRkey <;> exact ⟨rfl, rfl⟩

/-- The slot after a request for a region to migrate to. -/
theorem recvReqMigMap_spec (client : Nat) (session : Session) (recv : Message) (mr : IbvMr) :
    Keeps session.mrh (session.recvReqMigMap client recv mr).mrh ∧
      ((session.recvReqMigMap client recv mr).cbList client).migrbh.srcRbIndex = recv.rbIndex ∧
      ((session.recvReqMigMap client recv mr).cbList client).migrbh.srcCbIndex = recv.cbIndex ∧
      (match (List.finRange maxMrSizeGb).find? session.mrh.isFree with
        | some i =>
            ((session.recvReqMigMap client recv mr).cbList client).migrbh.localRbIndex = i.val ∧
            (session.recvReqMigMap client recv mr).mrh.isMapped i = true ∧
            (session.recvReqMigMap client recv mr).mrh.mrList i = mr
        | none => ((session.recvReqMigMap client recv mr).cbList client).migrbh.localRbIndex =
            maxMrSizeGb) := by
  let noted := session.modifyMigrbh client (Session.noteSource recv)
  obtain ⟨slot, given⟩ := prepareSingleMr_spec client noted recv true mr
  have source := noteSource_source recv (session.cbList client).migrbh
  rw [← migrbh_modifyMigrbh session (Session.noteSource recv)] at source
  have after : ((session.recvReqMigMap client recv mr).cbList client).migrbh =
      { ((noted.prepareSingleMr client recv true mr).2.cbList client).migrbh with
        localRbIndex := (noted.prepareSingleMr client recv true mr).1 } :=
    migrbh_modifyMigrbh (noted.prepareSingleMr client recv true mr).2 fun migrbh =>
      { migrbh with localRbIndex := (noted.prepareSingleMr client recv true mr).1 }
  rw [after, slot]
  refine ⟨prepareSingleMr_keeps client noted recv true mr, source.1, source.2, ?_⟩
  have regions : (session.recvReqMigMap client recv mr).mrh =
      (noted.prepareSingleMr client recv true mr).2.mrh := rfl
  have before : noted.mrh = session.mrh := rfl
  rw [before] at given
  rw [regions]
  cases found : (List.finRange maxMrSizeGb).find? session.mrh.isFree with
  | none =>
      rw [found] at given
      exact given.1
  | some i =>
      rw [found] at given
      obtain ⟨index, cbIndexMap, mrList⟩ := given
      refine ⟨index, ?_, ?_⟩
      · rw [RdmaMrHandler.isMapped, cbIndexMap, Function.update_self]
        rfl
      · rw [mrList, Function.update_self]

/-- The slot is given no region that is mapped. -/
theorem recvReqMigMap_slot_ne {session : Session} {i : Region} (msg : Message) (mr : IbvMr)
    (mapped : session.mrh.isMapped i = true) :
    ((session.recvReqMigMap client msg mr).cbList client).migrbh.localRbIndex ≠ i.val := by
  have given := (recvReqMigMap_spec client session msg mr).2.2.2
  cases found : (List.finRange maxMrSizeGb).find? session.mrh.isFree with
  | none =>
      rw [found] at given
      rw [given]
      have less := i.isLt
      omega
  | some j =>
      rw [found] at given
      rw [given.1]
      intro same
      have equal : j = i := Fin.ext (Int.ofNat.inj same)
      have free := (RdmaMrHandler.isMapped_of_isFree (List.find?_some found)).1
      rw [equal, mapped] at free
      cases free

/-- A request for a region to migrate to that comes when no signal is on its way. -/
theorem Starts.recvReqMigMap {msg : Message} {mr : IbvMr} (starts : s.Starts client)
    (isMigMap : msg.type = .reqMigMap)
    (owner : (∃ i : Region, (s.session.cbList client).migrbh.localRbIndex = i.val) →
      s.signals = 0)
    (clear : (s.grant msg mr).isSome → s.migrationSem = 0) :
    Starts client { s with
      session := s.session.recvReqMigMap client msg mr
      state := .recvMrMap
      sendsInFlight := s.sendsInFlight + 1
      granted := s.granted ++ (s.grant msg mr).toList } := by
  obtain ⟨keeps, srcRbIndex, srcCbIndex, given⟩ := recvReqMigMap_spec client s.session msg
    mr
  have grantIs : s.grant msg mr = ((List.finRange maxMrSizeGb).find? s.session.mrh.isFree).map
      fun i => ⟨msg.cbIndex, msg.rbIndex, i, mr⟩ := if_pos isMigMap
  -- the slot names none of the requests before
  have others : ∀ grant ∈ s.granted, ((s.session.recvReqMigMap client msg mr).cbList
      client).migrbh.localRbIndex ≠ grant.region.val ∧
        s.requests.countP (carries grant) = 1 := by
    intro grant member
    have mapped := (starts.registered grant member).1
    have count := starts.count grant member
    refine ⟨recvReqMigMap_slot_ne msg mr mapped, ?_⟩
    by_cases names : s.Names client grant
    · rw [owner ⟨grant.region, names.1⟩, ite_self] at count
      exact count
    · rw [if_neg names] at count
      exact count
  refine ⟨?_, fun _ => Nat.succ_pos _, fun request member => keeps.backs (starts.asked request
    member), ?_, ?_⟩
  · intro grant member
    rcases List.mem_append.mp member with before | now
    · obtain ⟨mapped, registered⟩ := starts.registered grant before
      obtain ⟨still, same⟩ := keeps grant.region mapped
      exact ⟨still, same.trans registered⟩
    · rw [Option.mem_toList, grantIs] at now
      obtain ⟨i, found, rfl⟩ := Option.map_eq_some_iff.mp now
      rw [found] at given
      exact given.2
  · intro _ i same
    cases found : (List.finRange maxMrSizeGb).find? s.session.mrh.isFree with
    | none =>
        rw [found] at given
        have less := i.isLt
        have index := given.symm.trans same
        omega
    | some j =>
        rw [found] at given
        have equal : j = i := Fin.ext (Int.ofNat.inj (given.1.symm.trans same))
        rw [← equal]
        exact given.2.1
  · intro grant member
    rcases List.mem_append.mp member with before | now
    · obtain ⟨notSlot, once⟩ := others grant before
      rw [if_neg fun names => notSlot names.1]
      exact once
    · have noSem := clear (Option.isSome_iff_exists.mpr ⟨grant, Option.mem_toList.mp now⟩)
      rw [Option.mem_toList, grantIs] at now
      obtain ⟨i, found, rfl⟩ := Option.map_eq_some_iff.mp now
      rw [found] at given
      -- no request was made for the region, since it was free
      have fresh : s.requests.countP (carries ⟨msg.cbIndex, msg.rbIndex, i, mr⟩) = 0 := by
        rw [List.countP_eq_zero]
        intro request asked carried
        have index := (of_decide_eq_true carried).2.1
        have mapped := starts.asked request asked i index
        rw [(RdmaMrHandler.isMapped_of_isFree (List.find?_some found)).1] at mapped
        cases mapped
      rw [if_pos ⟨given.1, srcRbIndex, srcCbIndex⟩, fresh]
      show 0 + (s.migrationSem + 1) = 1
      rw [noSem]

theorem Starts.step {label : MigrationLabel} (starts : s.Starts client)
    (prompt : Prompt client s label) (edge : s.step client label = some next) :
    next.Starts client := by
  cases label with
  | recv msg mr stamps =>
      obtain ⟨kind, ran⟩ := Option.ite_none_right_eq_some.mp edge
      obtain ⟨session, handled, last⟩ := bind_eq_ok.mp (toOption_eq_some ran)
      cases last
      rcases kind with query | map | migMap
      · have notMigMap : msg.type ≠ .reqMigMap := by rw [query]; nofun
        rw [if_neg notMigMap, grant, if_neg notMigMap, Option.toList_none, List.append_nil]
        rw [Session.handleRecv, query] at handled
        cases handled
        exact starts.answer (fun i mapped => ⟨mapped, rfl⟩) rfl
      · have notMigMap : msg.type ≠ .reqMigMap := by rw [map]; nofun
        rw [if_neg notMigMap, grant, if_neg notMigMap, Option.toList_none, List.append_nil]
        rw [Session.handleRecv, map] at handled
        cases handled
        exact starts.answer (prepareSingleMr_keeps client s.session msg false mr)
          (prepareSingleMr_spec client s.session msg false mr).1
      · obtain ⟨owner, clear⟩ := prompt migMap
        rw [Session.handleRecv, migMap] at handled
        cases handled
        rw [if_pos migMap]
        exact starts.recvReqMigMap migMap owner clear
  | sendDone =>
      obtain ⟨_, some_⟩ := Option.ite_none_right_eq_some.mp edge
      cases some_
      exact starts.sendDone
  | wake => exact starts.wake edge

/-- The request has led to no `REQ_MIGRATION` and does not hold the slot. -/
structure Lost (client : Nat) (grant : Grant) (s : MigrationCb) : Prop where
  mapped : s.session.mrh.isMapped grant.region = true ∧
    s.session.mrh.mrList grant.region = grant.mr
  slot : (s.session.cbList client).migrbh.localRbIndex ≠ grant.region.val
  never : s.requests.countP (carries grant) = 0

theorem Lost.step {grant : Grant} {label : MigrationLabel} (lost : Lost client grant s)
    (edge : s.step client label = some next) : Lost client grant next := by
  obtain ⟨⟨mapped, mr'⟩, slot, never⟩ := lost
  cases label with
  | recv msg mr stamps =>
      obtain ⟨kind, ran⟩ := Option.ite_none_right_eq_some.mp edge
      obtain ⟨session, handled, last⟩ := bind_eq_ok.mp (toOption_eq_some ran)
      cases last
      rcases kind with query | map | migMap
      · rw [Session.handleRecv, query] at handled
        cases handled
        exact ⟨⟨mapped, mr'⟩, slot, never⟩
      · rw [Session.handleRecv, map] at handled
        cases handled
        obtain ⟨still, same⟩ := prepareSingleMr_keeps client s.session msg false mr
          grant.region mapped
        refine ⟨⟨still, same.trans mr'⟩, ?_, never⟩
        show ((s.session.prepareSingleMr client msg false mr).2.cbList
          client).migrbh.localRbIndex ≠ _
        rw [(prepareSingleMr_spec client s.session msg false mr).1]
        exact slot
      · rw [Session.handleRecv, migMap] at handled
        cases handled
        obtain ⟨still, same⟩ := (recvReqMigMap_spec client s.session msg mr).1 grant.region mapped
        exact ⟨⟨still, same.trans mr'⟩, recvReqMigMap_slot_ne msg mr mapped, never⟩
  | sendDone =>
      obtain ⟨_, some_⟩ := Option.ite_none_right_eq_some.mp edge
      cases some_
      exact ⟨⟨mapped, mr'⟩, slot, never⟩
  | wake =>
      obtain ⟨request, requests, session, _, _, _, _, _, carried⟩ := doMigrationFn_spec edge
      refine ⟨?_, ?_, ?_⟩
      · rw [session]
        exact ⟨mapped, mr'⟩
      · rw [session]
        exact slot
      · rw [requests, List.countP_append, never, List.countP_singleton,
          if_neg fun carries => slot ((carried grant mr').mp carries).1]

/-- A request that is overtaken with its signal on the way never leads to a `REQ_MIGRATION`. -/
theorem Starts.overtaken {grant : Grant} {msg : Message} {mr : IbvMr}
    {stamps : Region → Timeval} {labels : List MigrationLabel} {last : MigrationCb}
    (starts : s.Starts client) (member : grant ∈ s.granted) (names : s.Names client grant)
    (pending : 0 < s.signals) (isMigMap : msg.type = .reqMigMap)
    (run : Run (MigrationCb.step client) always s (.recv msg mr stamps :: labels) last) :
    last.requests.countP (carries grant) = 0 := by
  cases run with
  | head _ edge tail =>
      obtain ⟨_, ran⟩ := Option.ite_none_right_eq_some.mp edge
      obtain ⟨session, handled, next⟩ := bind_eq_ok.mp (toOption_eq_some ran)
      rw [Session.handleRecv, isMigMap] at handled
      cases handled
      cases next
      obtain ⟨mapped, registered⟩ := starts.registered grant member
      obtain ⟨still, same⟩ := (recvReqMigMap_spec client s.session msg mr).1 grant.region mapped
      have count := starts.count grant member
      rw [if_pos names] at count
      have never : s.requests.countP (carries grant) = 0 := by omega
      have lost : Lost client grant last := tail.preserves
        (fun lost _ edge => lost.step edge)
        ⟨⟨still, same.trans registered⟩, recvReqMigMap_slot_ne msg mr mapped, never⟩
      exact lost.never

end MigrationCb

end Valet.Daemon
