import Valet.Bd.ServerState

/-!
# The search for servers

`find_the_best_node` asks one server after the other for its free memory, and
waits for each until the control block says that an answer was received.  What
the control block says is not reset before the request is sent.  The requests are
numbered here to tell which of them a value answers.
-/

namespace Valet.Bd

open Valet.Wire Valet.Library

/-- The locals of `find_the_best_node`; `available` are `free_mem` and `free_mem_sorted`. -/
structure NodeSearch (servers : Nat) where
  numReplica : Nat
  candidate : List (Fin servers)
  selectHistory : Nat → Bool
  turn : Nat
  available : List (Int × Fin servers)

namespace NodeSearch

variable {servers replicas : Nat}

/-- The call up to the end of its first loop. -/
def start (s : ValetSession servers replicas) (numReplica : Nat) : NodeSearch servers where
  numReplica := numReplica
  candidate := (List.finRange servers).filter fun cb => (s.cbStateList cb).belowMigrating
  selectHistory := fun _ => false
  turn := 0
  available := []

variable (search : NodeSearch servers)

/-- The second loop takes another turn. -/
def more (serverSelectNum : Nat) : Bool :=
  decide (search.turn < search.candidate.length ∧ search.available.length < serverSelectNum)

/-- The place of the next server in `candidate`: in order, or from a random number on the first
that was not selected. -/
def place (serverSelectNum random : Nat) : Option Nat :=
  if search.candidate.length ≤ serverSelectNum then
    some search.turn
  else
    ((List.range search.candidate.length).map fun k =>
      (random + k) % search.candidate.length).find? fun k => !search.selectHistory k

def select (serverSelectNum k : Nat) : NodeSearch servers :=
  if search.candidate.length ≤ serverSelectNum then
    search
  else
    { search with selectHistory := Function.update search.selectHistory k true }

/-- The turn goes on with the free memory of its server. -/
def rank (cb : Fin servers) (targetSizeGb : Int) : NodeSearch servers :=
  { search with
    turn := search.turn + 1
    available :=
      if targetSizeGb = 0 then search.available else search.available ++ [(targetSizeGb, cb)] }

/-- One turn of the outer loop of the sorting: the entry and those behind it. -/
def settle (entry : Int × Fin servers) :
    List (Int × Fin servers) → (Int × Fin servers) × List (Int × Fin servers)
  | [] => (entry, [])
  | other :: rest =>
      if entry.1 < other.1 then ((settle other rest).1, entry :: (settle other rest).2)
      else ((settle entry rest).1, other :: (settle entry rest).2)

def sortDescent : Nat → List (Int × Fin servers) → List (Int × Fin servers)
  | 0, entries => entries
  | _ + 1, [] => []
  | turns + 1, entry :: rest => (settle entry rest).1 :: sortDescent turns (settle entry rest).2

/-- `replica_list` as the call leaves it. -/
def replicaList : List (Fin servers) :=
  if search.available.length < search.numReplica then
    []
  else
    ((sortDescent search.available.length search.available).take search.numReplica).map Prod.snd

end NodeSearch

namespace ValetSession

variable {servers replicas : Nat} (s : ValetSession servers replicas)

theorem state_setState_of_ne {s : ValetSession servers replicas} {cb other : Fin servers}
    (different : other ≠ cb) (state : TestState) :
    ((s.setState cb state).cbList other).state = (s.cbList other).state := by
  simp [setState, setCb, different]

/-- A request is posted to a server that is connected, and one that is not is connected. -/
def requestQuery (cb : Fin servers) : ValetSession servers replicas :=
  if s.cbStateList cb = .idle then
    (s.controlBlockInit cb).setState cb .connected
  else
    s.modifySendBuf cb fun msg => { msg with type := .reqQuery }

/-- A request with its answer is what the mapping takes a query for. -/
theorem recvDone_requestQuery {cb : Fin servers} {qmsg : QueryMessage} (alive : s.Alive cb)
    (connected : s.cbStateList cb ≠ .idle) :
    (s.requestQuery cb).recvDone cb (.query qmsg) = .ok ((s.queried cb).modifyRbh cb
      fun rbh => { rbh with targetSizeGb := qmsg.sizeGb, sum := qmsg.sum }) := by
  obtain ⟨works, up⟩ := alive
  simp [requestQuery, queried, connected, recvDone, recvMsgHandler, modifySendBuf, setCb,
    modifyRbh, setState, works, up]
  rfl

/-- The same for a server that is connected. -/
theorem recvDone_requestQuery_idle {cb : Fin servers} {qmsg : QueryMessage}
    (idle : s.cbStateList cb = .idle) :
    ∃ next, (s.requestQuery cb).recvDone cb (.query qmsg) = .ok next ∧
      next.setCbState cb .connected = ((s.controlBlockInit cb).queried cb).modifyRbh cb
        fun rbh => { rbh with targetSizeGb := qmsg.sizeGb, sum := qmsg.sum } := by
  simp [requestQuery, queried, idle, recvDone, recvMsgHandler, setCb, modifyRbh, setState,
    controlBlockInit, setCbState, TestState.unconnected]
  exact ⟨_, rfl, rfl, rfl, rfl, rfl, rfl, rfl⟩

end ValetSession

/-- Where the calls are.  `connects` tells the two waits apart. -/
inductive SearchPc (servers : Nat) where
  | outside
  | turning (search : NodeSearch servers)
  | waiting (search : NodeSearch servers) (cb : Fin servers) (request : Nat) (connects : Bool)

/-- The server and the request that are waited for. -/
def SearchPc.waitsFor {servers : Nat} : SearchPc servers → Option (Fin servers × Nat)
  | .waiting _ cb request _ => some (cb, request)
  | _ => none

/-- The client with its calls of `find_the_best_node`, the requests that are not answered yet on
each connection, the one that the free memory of each server answers, and of each value that was
ranked the request of the turn and the one that it answers. -/
structure Searching (servers replicas : Nat) where
  session : ValetSession servers replicas
  pc : SearchPc servers
  sent : Fin servers → List Nat
  answers : Fin servers → Option Nat
  asked : Nat
  ranked : List (Nat × Option Nat)
  replicaList : List (Fin servers)

/-- The steps of the calls, and what happens between them. -/
inductive SearchLabel (servers : Nat) where
  | call (numReplica : Nat)
  | ask (random : Nat)
  | wake
  | finish
  | answer (cb : Fin servers) (qmsg : QueryMessage)
  | message (cb : Fin servers) (msg : Message)
  | mark (cb : Fin servers) (state : CbState)
  | disconnect (cb : Fin servers)

namespace Searching

variable {servers replicas : Nat} (s : Searching servers replicas)

/-- The server of the next turn, and its place in `candidate`. -/
def next (serverSelectNum random : Nat) : Option (NodeSearch servers × Nat × Fin servers) :=
  match s.pc with
  | .turning search =>
      if search.more serverSelectNum then do
        let k ← search.place serverSelectNum random
        let cb ← search.candidate[k]?
        return (search, k, cb)
      else
        none
  | _ => none

/-- The turn up to its wait.  A server answers a new connection as it answers a request. -/
def askServer (serverSelectNum : Nat) (search : NodeSearch servers) (k : Nat) (cb : Fin servers) :
    Searching servers replicas :=
  { s with
    session := s.session.requestQuery cb
    pc := .waiting (search.select serverSelectNum k) cb s.asked
      (decide (s.session.cbStateList cb = .idle))
    sent := Function.update s.sent cb (s.sent cb ++ [s.asked])
    asked := s.asked + 1 }

/-- The turn from its wait on. -/
def goOn (search : NodeSearch servers) (cb : Fin servers) (request : Nat) (connects : Bool) :
    Searching servers replicas :=
  let targetSizeGb := (s.session.rbh cb).targetSizeGb
  { s with
    session := if connects then s.session.setCbState cb .connected else s.session
    pc := .turning (search.rank cb targetSizeGb)
    ranked := if targetSizeGb = 0 then s.ranked else s.ranked ++ [(request, s.answers cb)] }

def step (serverSelectNum : Nat) (s : Searching servers replicas) :
    SearchLabel servers → Option (Searching servers replicas)
  | .call numReplica =>
      match s.pc with
      | .outside => some { s with pc := .turning (.start s.session numReplica) }
      | _ => none
  | .ask random =>
      (s.next serverSelectNum random).map fun (search, k, cb) =>
        s.askServer serverSelectNum search k cb
  | .wake =>
      match s.pc with
      | .waiting search cb request connects =>
          if (s.session.cbList cb).state = .recvQueryRepl then
            some (s.goOn search cb request connects)
          else
            none
      | _ => none
  | .finish =>
      match s.pc with
      | .turning search =>
          if search.more serverSelectNum then none
          else some { s with pc := .outside, replicaList := search.replicaList }
      | _ => none
  | .answer cb qmsg =>
      match s.sent cb with
      | [] => none
      | request :: rest =>
          (s.session.recvDone cb (.query qmsg)).toOption.map fun session =>
            { s with
              session := session
              sent := Function.update s.sent cb rest
              answers :=
                if s.session.Alive cb then Function.update s.answers cb (some request)
                else s.answers }
  | .message cb msg =>
      (s.session.recvDone cb (.message msg)).toOption.map fun session =>
        { s with session := session }
  | .mark cb state =>
      -- no server becomes idle again
      if state = .idle then none else some { s with session := s.session.setCbState cb state }
  | .disconnect cb =>
      some { s with
        session := (s.session.setState cb .cmDisconnect).setCbState cb .fail
        sent := Function.update s.sent cb [] }

def init : Searching servers replicas where
  session := .init
  pc := .outside
  sent := fun _ => []
  answers := fun _ => none
  asked := 0
  ranked := []
  replicaList := []

/-- Every value that was ranked answers the request of its turn. -/
def Fresh : Prop := ∀ rank ∈ s.ranked, rank.2 = some rank.1

/-- A server that is asked is not connected yet, or its control block does not say that an answer
was received. -/
def AsksAnew (serverSelectNum : Nat) (s : Searching servers replicas) :
    SearchLabel servers → Prop
  | .ask random => ∀ cb, (s.next serverSelectNum random).map (·.2.2) = some cb →
      s.session.cbStateList cb = .idle ∨ (s.session.cbList cb).state ≠ .recvQueryRepl
  | _ => True

instance (serverSelectNum : Nat) (s : Searching servers replicas) (label : SearchLabel servers) :
    Decidable (s.AsksAnew serverSelectNum label) := by
  cases label <;> unfold AsksAnew <;> infer_instance

/-! ## What the steps do -/

variable {s} {after : Searching servers replicas} {serverSelectNum : Nat} {cb other : Fin servers}

theorem step_ask {random : Nat} (edge : s.step serverSelectNum (.ask random) = some after) :
    ∃ search k cb, s.pc = .turning search ∧
      s.next serverSelectNum random = some (search, k, cb) ∧
        after = s.askServer serverSelectNum search k cb := by
  rw [step] at edge
  obtain ⟨⟨search, k, cb⟩, found, rfl⟩ := Option.map_eq_some_iff.mp edge
  refine ⟨search, k, cb, ?_, found, rfl⟩
  rw [next] at found
  split at found
  · rename_i turning
    split at found
    · obtain ⟨place, _, rest⟩ := Option.bind_eq_some_iff.mp found
      obtain ⟨server, _, built⟩ := Option.bind_eq_some_iff.mp rest
      cases built
      exact turning
    · cases found
  · cases found

theorem step_wake (edge : s.step serverSelectNum .wake = some after) :
    ∃ search cb request connects, s.pc = .waiting search cb request connects ∧
      (s.session.cbList cb).state = .recvQueryRepl ∧ after = s.goOn search cb request connects := by
  rw [step] at edge
  split at edge
  · rename_i search cb request connects waiting
    split at edge
    · rename_i answered
      cases edge
      exact ⟨search, cb, request, connects, waiting, answered, rfl⟩
    · cases edge
  · cases edge

theorem step_answer {qmsg : QueryMessage}
    (edge : s.step serverSelectNum (.answer cb qmsg) = some after) :
    ∃ request rest session, s.sent cb = request :: rest ∧
      ValetSession.Receives s.session cb (.query qmsg) session ∧
        after = { s with
          session := session
          sent := Function.update s.sent cb rest
          answers :=
            if s.session.Alive cb then Function.update s.answers cb (some request)
            else s.answers } := by
  rw [step] at edge
  split at edge
  · cases edge
  · rename_i request rest outstanding
    obtain ⟨session, received, rfl⟩ := Option.map_eq_some_iff.mp edge
    exact ⟨request, rest, session, outstanding,
      ValetSession.receives_of_ok (toOption_eq_some received), rfl⟩

/-- The other messages do not say that an answer was received. -/
theorem state_of_message {session next : ValetSession servers replicas} {msg : Message}
    (receives : ValetSession.Receives session cb (.message msg) next)
    (answered : (next.cbList other).state = .recvQueryRepl) :
    (session.cbList other).state = .recvQueryRepl := by
  have elsewhere : ∀ {state : TestState},
      ((session.setState cb state).cbList other).state = .recvQueryRepl →
        state ≠ .recvQueryRepl → (session.cbList other).state = .recvQueryRepl := by
    intro state answered apart
    rcases eq_or_ne other cb with rfl | different
    · rw [ValetSession.state_setState] at answered
      exact absurd answered apart
    · rw [ValetSession.state_setState_of_ne different] at answered
      exact answered
  cases receives with
  | ignored => exact answered
  | refused => exact elsewhere answered nofun
  | migMap | done | evict =>
      rw [ValetSession.state_modifyRbh] at answered
      exact elsewhere answered nofun
  | mrMap _ _ inits =>
      cases inits with
      | nothing => exact @elsewhere .recvMrMap answered nofun
      | @mapped i =>
          have same := ValetSession.state_modifyRbh (session.setState cb .recvMrMap) cb other
            fun rbh => rbh.mapBlock msg i
          exact elsewhere (same.symm.trans answered) nofun

theorem state_requestQuery (apart : s.session.cbStateList cb = .idle ∨
      (s.session.cbList cb).state ≠ .recvQueryRepl) :
    ((s.session.requestQuery cb).cbList cb).state ≠ .recvQueryRepl := by
  rw [ValetSession.requestQuery]
  split
  · rw [ValetSession.state_setState]
    nofun
  · rename_i connected
    have same : ((s.session.modifySendBuf cb fun msg => { msg with type := .reqQuery }).cbList
        cb).state = (s.session.cbList cb).state := by
      simp [ValetSession.modifySendBuf, ValetSession.setCb]
    rw [same]
    exact apart.resolve_left connected

/-! ## One request at a time -/

/-- The request that is waited for is not answered, or the free memory is its answer. -/
def Awaits (s : Searching servers replicas) (cb : Fin servers) (request : Nat) : Prop :=
  (s.sent cb = [request] ∧ (s.session.cbList cb).state ≠ .recvQueryRepl) ∨
    (s.sent cb = [] ∧
      ((s.session.cbList cb).state = .recvQueryRepl → s.answers cb = some request))

/-- No request is on its way but the one that is waited for. -/
structure OneAsked (s : Searching servers replicas) : Prop where
  quiet : ∀ cb, s.sent cb ≠ [] → ∃ request, s.pc.waitsFor = some (cb, request)
  awaited : ∀ cb request, s.pc.waitsFor = some (cb, request) → s.Awaits cb request
  fresh : s.Fresh

theorem oneAsked_init : (init : Searching servers replicas).OneAsked where
  quiet := fun _ some => absurd rfl some
  awaited := nofun
  fresh := nofun

/-- Nothing is on its way while no call waits. -/
theorem OneAsked.sent_eq_nil (one : s.OneAsked) (idle : s.pc.waitsFor = none) (cb : Fin servers) :
    s.sent cb = [] := by
  by_contra outstanding
  obtain ⟨request, waits⟩ := one.quiet cb outstanding
  rw [idle] at waits
  cases waits

/-- A step that leaves the connections alone and says of no server that its answer was received. -/
theorem OneAsked.keeps (one : s.OneAsked) (sent : after.sent = s.sent)
    (answers : after.answers = s.answers) (ranked : after.ranked = s.ranked)
    (pc : after.pc.waitsFor = s.pc.waitsFor)
    (told : ∀ cb, (after.session.cbList cb).state = .recvQueryRepl →
      (s.session.cbList cb).state = .recvQueryRepl) : after.OneAsked where
  quiet := by
    intro cb some
    rw [sent] at some
    rw [pc]
    exact one.quiet cb some
  awaited := by
    intro cb request waits
    rw [pc] at waits
    rcases one.awaited cb request waits with ⟨outstanding, silent⟩ | ⟨none, answered⟩
    · exact .inl ⟨by rw [sent, outstanding], fun answered => silent (told cb answered)⟩
    · refine .inr ⟨by rw [sent, none], fun said => ?_⟩
      rw [answers]
      exact answered (told cb said)
  fresh := by
    rw [Fresh, ranked]
    exact one.fresh

theorem OneAsked.askServer {search : NodeSearch servers} {k : Nat} (one : s.OneAsked)
    (idle : s.pc.waitsFor = none) (anew : s.session.cbStateList cb = .idle ∨
      (s.session.cbList cb).state ≠ .recvQueryRepl) :
    (s.askServer serverSelectNum search k cb).OneAsked where
  quiet := by
    intro other outstanding
    rcases eq_or_ne other cb with rfl | different
    · exact ⟨s.asked, rfl⟩
    · have kept : (s.askServer serverSelectNum search k cb).sent other = s.sent other :=
        Function.update_of_ne different _ _
      exact absurd (kept.trans (one.sent_eq_nil idle other)) outstanding
  awaited := by
    intro other request waits
    cases waits
    refine .inl ⟨?_, state_requestQuery anew⟩
    have added : (s.askServer serverSelectNum search k cb).sent cb = s.sent cb ++ [s.asked] :=
      Function.update_self _ _ _
    rw [added, one.sent_eq_nil idle, List.nil_append]
  fresh := one.fresh

/-- Where the wait ends, the value answers its request. -/
theorem OneAsked.answers_eq {search : NodeSearch servers} {request : Nat} {connects : Bool}
    (one : s.OneAsked) (waiting : s.pc = .waiting search cb request connects)
    (answered : (s.session.cbList cb).state = .recvQueryRepl) :
    s.sent cb = [] ∧ s.answers cb = some request := by
  have waits : s.pc.waitsFor = some (cb, request) := by
    rw [waiting]
    rfl
  rcases one.awaited cb request waits with ⟨_, silent⟩ | ⟨none, answers⟩
  · exact absurd answered silent
  · exact ⟨none, answers answered⟩

theorem OneAsked.goOn {search : NodeSearch servers} {request : Nat} {connects : Bool}
    (one : s.OneAsked) (waiting : s.pc = .waiting search cb request connects)
    (answered : (s.session.cbList cb).state = .recvQueryRepl) :
    (s.goOn search cb request connects).OneAsked where
  quiet := by
    intro other outstanding
    obtain ⟨awaited, waits⟩ := one.quiet other outstanding
    rw [waiting] at waits
    cases waits
    exact absurd (one.answers_eq waiting answered).1 outstanding
  awaited := nofun
  fresh := by
    intro rank member
    rw [Searching.goOn] at member
    dsimp only at member
    split at member
    · exact one.fresh rank member
    · rcases List.mem_append.mp member with before | new
      · exact one.fresh rank before
      · rw [List.mem_singleton.mp new]
        exact (one.answers_eq waiting answered).2

theorem OneAsked.answer {qmsg : QueryMessage} (one : s.OneAsked)
    (edge : s.step serverSelectNum (.answer cb qmsg) = some after) : after.OneAsked := by
  obtain ⟨request, rest, session, outstanding, receives, rfl⟩ := step_answer edge
  obtain ⟨current, waits⟩ := one.quiet cb (by rw [outstanding]; exact List.cons_ne_nil _ _)
  -- the answer is to the request that is waited for
  have only : s.sent cb = [current] := by
    rcases one.awaited cb current waits with ⟨only, _⟩ | ⟨none, _⟩
    · exact only
    · rw [none] at outstanding
      cases outstanding
  rw [only] at outstanding
  cases outstanding
  constructor
  · intro other some
    rcases eq_or_ne other cb with rfl | different
    · exact ⟨_, waits⟩
    · dsimp only at some
      rw [Function.update_of_ne different] at some
      exact one.quiet other some
  · intro other request again
    dsimp only at again
    rw [waits] at again
    cases again
    refine .inr ⟨Function.update_self _ _ _, fun said => ?_⟩
    dsimp only at said ⊢
    cases receives with
    | ignored error =>
        rw [error] at said
        cases said
    | refused =>
        rw [ValetSession.state_setState] at said
        cases said
    | query alive => rw [if_pos alive, Function.update_self]
  · exact one.fresh

theorem OneAsked.disconnect (one : s.OneAsked)
    (edge : s.step serverSelectNum (.disconnect cb) = some after) : after.OneAsked := by
  cases edge
  constructor
  · intro other outstanding
    dsimp only at outstanding
    rcases eq_or_ne other cb with rfl | different
    · rw [Function.update_self] at outstanding
      exact absurd rfl outstanding
    · rw [Function.update_of_ne different] at outstanding
      exact one.quiet other outstanding
  · intro other request waits
    rcases eq_or_ne other cb with rfl | different
    · refine .inr ⟨Function.update_self _ _ _, fun said => ?_⟩
      have lost := ValetSession.state_setState s.session other .cmDisconnect
      exact absurd (lost.symm.trans said) nofun
    · have same : ((s.session.setState cb .cmDisconnect).cbList other).state =
          (s.session.cbList other).state :=
        ValetSession.state_setState_of_ne different .cmDisconnect
      have before := one.awaited other request waits
      rw [Awaits] at before ⊢
      dsimp only
      rw [Function.update_of_ne different]
      exact same ▸ before
  · exact one.fresh

theorem OneAsked.step {label : SearchLabel servers} (one : s.OneAsked)
    (anew : s.AsksAnew serverSelectNum label)
    (edge : s.step serverSelectNum label = some after) : after.OneAsked := by
  cases label with
  | call numReplica =>
      rw [Searching.step] at edge
      split at edge
      · rename_i outside
        cases edge
        exact one.keeps rfl rfl rfl (by rw [outside]; rfl) fun _ => id
      · cases edge
  | ask random =>
      obtain ⟨search, k, cb, turning, found, rfl⟩ := step_ask edge
      exact one.askServer (by rw [turning]; rfl) (anew cb (by rw [found]; rfl))
  | wake =>
      obtain ⟨search, cb, request, connects, waiting, answered, rfl⟩ := step_wake edge
      exact one.goOn waiting answered
  | finish =>
      rw [Searching.step] at edge
      split at edge
      · rename_i turning
        split at edge
        · cases edge
        · cases edge
          exact one.keeps rfl rfl rfl (by rw [turning]; rfl) fun _ => id
      · cases edge
  | answer => exact one.answer edge
  | message cb msg =>
      obtain ⟨session, received, rfl⟩ := Option.map_eq_some_iff.mp edge
      exact one.keeps rfl rfl rfl rfl fun _ =>
        state_of_message (ValetSession.receives_of_ok (toOption_eq_some received))
  | mark cb state =>
      rw [Searching.step] at edge
      split at edge
      · cases edge
      · cases edge
        exact one.keeps rfl rfl rfl rfl fun _ => id
  | disconnect => exact one.disconnect edge

/-! ## Values of earlier requests -/

/-- The requests on their way and those that were answered have been sent. -/
structure Numbered (s : Searching servers replicas) : Prop where
  sent : ∀ cb, ∀ request ∈ s.sent cb, request < s.asked
  answers : ∀ cb request, s.answers cb = some request → request < s.asked

theorem numbered_init : (init : Searching servers replicas).Numbered where
  sent := fun _ => nofun
  answers := nofun

theorem Numbered.step {label : SearchLabel servers} (numbered : s.Numbered)
    (edge : s.step serverSelectNum label = some after) : after.Numbered := by
  cases label with
  | call =>
      rw [Searching.step] at edge
      split at edge
      · cases edge
        exact ⟨numbered.sent, numbered.answers⟩
      · cases edge
  | ask random =>
      obtain ⟨search, k, cb, _, _, rfl⟩ := step_ask edge
      constructor
      · intro other request member
        rcases eq_or_ne other cb with rfl | different
        · rw [Searching.askServer] at member
          dsimp only at member
          rw [Function.update_self] at member
          rcases List.mem_append.mp member with before | new
          · exact Nat.lt_succ_of_lt (numbered.sent other request before)
          · rw [List.mem_singleton.mp new]
            exact Nat.lt_succ_self _
        · rw [Searching.askServer] at member
          dsimp only at member
          rw [Function.update_of_ne different] at member
          exact Nat.lt_succ_of_lt (numbered.sent other request member)
      · exact fun other request found => Nat.lt_succ_of_lt (numbered.answers other request found)
  | wake =>
      obtain ⟨search, cb, request, connects, _, _, rfl⟩ := step_wake edge
      exact ⟨numbered.sent, numbered.answers⟩
  | finish =>
      rw [Searching.step] at edge
      split at edge
      · split at edge
        · cases edge
        · cases edge
          exact ⟨numbered.sent, numbered.answers⟩
      · cases edge
  | answer cb qmsg =>
      obtain ⟨first, rest, session, outstanding, _, rfl⟩ := step_answer edge
      have sent := numbered.sent cb
      rw [outstanding] at sent
      constructor
      · intro other request member
        dsimp only at member
        rcases eq_or_ne other cb with rfl | different
        · rw [Function.update_self] at member
          exact sent request (List.mem_cons_of_mem _ member)
        · rw [Function.update_of_ne different] at member
          exact numbered.sent other request member
      · intro other request found
        dsimp only at found
        split at found
        · rcases eq_or_ne other cb with rfl | different
          · rw [Function.update_self] at found
            cases found
            exact sent first List.mem_cons_self
          · rw [Function.update_of_ne different] at found
            exact numbered.answers other request found
        · exact numbered.answers other request found
  | message =>
      obtain ⟨session, _, rfl⟩ := Option.map_eq_some_iff.mp edge
      exact ⟨numbered.sent, numbered.answers⟩
  | mark =>
      rw [Searching.step] at edge
      split at edge
      · cases edge
      · cases edge
        exact ⟨numbered.sent, numbered.answers⟩
  | disconnect cb =>
      cases edge
      constructor
      · intro other request member
        dsimp only at member
        rcases eq_or_ne other cb with rfl | different
        · rw [Function.update_self] at member
          cases member
        · rw [Function.update_of_ne different] at member
          exact numbered.sent other request member
      · exact numbered.answers

/-- Where a server is asked whose control block already says so, the wait may end at once with the
value of an earlier request. -/
theorem Numbered.stale {random : Nat} (numbered : s.Numbered)
    (again : ¬ s.AsksAnew serverSelectNum (.ask random))
    (worth : ∀ search k cb, s.next serverSelectNum random = some (search, k, cb) →
      (s.session.rbh cb).targetSizeGb ≠ 0)
    (edge : s.step serverSelectNum (.ask random) = some after) :
    ∃ last, after.step serverSelectNum .wake = some last ∧ ¬ last.Fresh := by
  obtain ⟨search, k, cb, turning, found, rfl⟩ := step_ask edge
  have asked : s.session.cbStateList cb ≠ .idle ∧
      (s.session.cbList cb).state = .recvQueryRepl := by
    rw [AsksAnew] at again
    by_contra other
    apply again
    intro server same
    rw [found] at same
    cases same
    by_cases idle : s.session.cbStateList cb = .idle
    · exact .inl idle
    · exact .inr fun said => other ⟨idle, said⟩
  have request : s.session.requestQuery cb =
      s.session.modifySendBuf cb fun msg => { msg with type := .reqQuery } := by
    rw [ValetSession.requestQuery, if_neg asked.1]
  have cbList : (((s.askServer serverSelectNum search k cb).session.cbList cb).state,
      ((s.askServer serverSelectNum search k cb).session.rbh cb).targetSizeGb) =
        (.recvQueryRepl, (s.session.rbh cb).targetSizeGb) := by
    rw [← asked.2]
    simp [Searching.askServer, request, ValetSession.modifySendBuf, ValetSession.setCb,
      ValetSession.rbh]
  obtain ⟨said, value⟩ := Prod.mk.inj cbList
  refine ⟨(s.askServer serverSelectNum search k cb).goOn (search.select serverSelectNum k) cb
    s.asked (decide (s.session.cbStateList cb = .idle)), ?_, fun fresh => ?_⟩
  · exact if_pos said
  · have ranked := fresh (s.asked, s.answers cb) (by
      rw [Searching.goOn]
      dsimp only
      rw [value, if_neg (worth search k cb found)]
      exact List.mem_append.mpr (.inr (List.mem_singleton_self _)))
    exact Nat.lt_irrefl _ (numbered.answers cb s.asked ranked)

/-- In a run in which no server is asked whose control block still says that an answer was
received, every value that is ranked answers the request of its turn; and where a server with free
memory is asked that way, the run can go on with a value that does not. -/
theorem ranked_fresh {labels : List (SearchLabel servers)}
    (run : Run (Searching.step serverSelectNum) (Searching.AsksAnew serverSelectNum)
      (init : Searching servers replicas) labels s) :
    s.Fresh ∧ ∀ random after, ¬ s.AsksAnew serverSelectNum (.ask random) →
      (∀ search k cb, s.next serverSelectNum random = some (search, k, cb) →
        (s.session.rbh cb).targetSizeGb ≠ 0) →
        s.step serverSelectNum (.ask random) = some after →
          ∃ last, after.step serverSelectNum .wake = some last ∧ ¬ last.Fresh := by
  have one : s.OneAsked := run.preserves (fun one anew edge => one.step anew edge) oneAsked_init
  have numbered : s.Numbered :=
    run.preserves (fun numbered _ edge => numbered.step edge) numbered_init
  exact ⟨one.fresh, fun _ _ again worth edge => numbered.stale again worth edge⟩

/-- Two servers are connected and asked; the first one has more memory and is picked. -/
def firstCall : List (SearchLabel 2) :=
  [.call 1, .ask 0, .answer 0 ⟨10, 0⟩, .wake, .ask 0, .answer 1 ⟨5, 0⟩, .wake, .finish]

/-- The reply of the server that was picked. -/
def picked : SearchLabel 2 :=
  .message 0 { Message.empty with type := .respMrMap }

theorem ranked_fresh_firstCall : ∃ s : Searching 2 0,
    Run (Searching.step 2) (Searching.AsksAnew 2) init firstCall s ∧
      (s.Fresh ∧ ∀ random after, ¬ s.AsksAnew 2 (.ask random) →
        (∀ search k cb, s.next 2 random = some (search, k, cb) →
          (s.session.rbh cb).targetSizeGb ≠ 0) →
          s.step 2 (.ask random) = some after →
            ∃ last, after.step 2 .wake = some last ∧ ¬ last.Fresh) := by
  have ran : (exec (guardedStep (Searching.step 2) (Searching.AsksAnew 2))
      (init : Searching 2 0) firstCall).isSome = true := by
    decide +kernel
  obtain ⟨s, ended⟩ := Option.isSome_iff_exists.mp ran
  exact ⟨s, run_of_guarded ended, ranked_fresh (run_of_guarded ended)⟩

/-- In a second call the server that was asked but not picked is ranked by its old value before it
answers. -/
theorem leftover_ranked : ¬ ∀ (labels : List (SearchLabel 2)) (s : Searching 2 0),
    Run (Searching.step 2) always init labels s → s.Fresh := by
  intro claim
  have ran : (exec (Searching.step 2) (init : Searching 2 0) (firstCall ++
      [picked, .call 1, .ask 0, .answer 0 ⟨9, 0⟩, .wake, .ask 0, .wake])).map
        (fun s => s.ranked) = some [(0, some 0), (1, some 1), (2, some 2), (3, some 1)] := by
    decide +kernel
  obtain ⟨s, ended, ranked⟩ := Option.map_eq_some_iff.mp ran
  have fresh := claim _ s (run_of_exec ended) (3, some 1) (by rw [ranked]; simp)
  cases fresh

end Searching

end Valet.Bd
