import Valet.Bd.Borrower
import Valet.Daemon.LenderTurns
import Mathlib.Logic.Embedding.Basic

/-!
# Clients and servers together

Any number of clients and servers, each with its own threads, and a queue in
each direction of each connection.  A step is what a thread of a client or of a
server does between two waits, or one message that arrives.  So a server handles
requests while its monitor sleeps or waits for a client.  A client has one
`migration_handler` for each server.  A server numbers its clients; other
senders, with other numbers, send what they like.  Connections are not lost, and
a client goes on before the answer to a query is there.
-/

namespace Valet.System

open Valet.Wire Valet.Library Valet.Bd Valet.Daemon

/-- The message of a post; a region that is written reaches no handler. -/
def received : Post → Option Received
  | .message msg => some (.message msg)
  | .query qmsg => some (.query qmsg)
  | .write _ _ _ => none

/-- What a server does with a request of the client with the number `client`. -/
def handle (client : Nat) (mr : IbvMr) (stamps : Region → Timeval) : Request → ServerLabel
  | .connect => .established client stamps
  | .message msg => .daemon (.recv client msg mr stamps)

/-- The number of the client whose message a step handles. -/
def sender : ServerLabel → Option Nat
  | .daemon (.recv client _ _ _) => some client
  | .established client _ => some client
  | _ => none

def isRecv {servers replicas : Nat} : ControlLabel servers replicas → Bool
  | .recv _ _ => true
  | _ => false

structure Cluster (clients servers replicas : Nat) where
  client : Fin clients → Control servers replicas
  daemon : Fin servers → Session
  toClient : Fin clients → Fin servers → List Received
  toDaemon : Fin clients → Fin servers → List Request

inductive ClusterLabel (clients servers replicas : Nat) where
  | act (c : Fin clients) (label : ControlLabel servers replicas)
  | deliver (c : Fin clients) (cb : Fin servers)
  | serve (c : Fin clients) (cb : Fin servers) (mr : IbvMr) (stamps : Region → Timeval)
  | turn (cb : Fin servers) (label : ServerLabel)

namespace Cluster

variable {clients servers replicas : Nat} (slot : Fin servers → Fin clients ↪ Nat)
  (s : Cluster clients servers replicas)

/-- A client takes a step, and what it posts is on its way. -/
def moveClient (c : Fin clients) (next : Control servers replicas)
    (posts : List (Fin servers × Request)) : Cluster clients servers replicas :=
  { s with
    client := Function.update s.client c next
    toDaemon := Function.update s.toDaemon c fun cb => s.toDaemon c cb ++ addressed cb posts }

/-- A server takes a step, and what it posts to the clients is on its way. -/
def moveDaemon (cb : Fin servers) (next : Session) : Cluster clients servers replicas :=
  let posts := next.sent.drop (s.daemon cb).sent.length
  { s with
    daemon := Function.update s.daemon cb next
    toClient := fun c => Function.update (s.toClient c) cb
      (s.toClient c cb ++ (addressed (slot cb c) posts).filterMap received) }

def step (weigh : Int → Int → Int) (s : Cluster clients servers replicas) :
    ClusterLabel clients servers replicas → Option (Cluster clients servers replicas)
  | .act c label =>
      if isRecv label then
        none
      else
        ((s.client c).step label).map fun next =>
          s.moveClient c next ((s.client c).posts next label)
  | .deliver c cb =>
      match s.toClient c cb with
      | [] => none
      | recv :: rest => ((s.client c).step (.recv cb recv)).map fun next =>
          { s with
            client := Function.update s.client c next
            toClient := Function.update s.toClient c (Function.update (s.toClient c) cb rest) }
  | .serve c cb mr stamps =>
      match s.toDaemon c cb with
      | [] => none
      | request :: rest =>
          ((s.daemon cb).serverStep weigh (handle (slot cb c) mr stamps request)).map fun next =>
            { s with
              toDaemon := Function.update s.toDaemon c
                (Function.update (s.toDaemon c) cb rest) }.moveDaemon slot cb next
  | .turn cb label =>
      if ∀ n ∈ sender label, ∀ c, slot cb c ≠ n then
        ((s.daemon cb).serverStep weigh label).map (s.moveDaemon slot cb)
      else
        none

def init (mrList : Fin servers → Region → IbvMr) (freeMemG lastFreeMemG : Fin servers → Int) :
    Cluster clients servers replicas where
  client := fun _ => .init
  daemon := fun cb => .init cb.val (mrList cb) (freeMemG cb) (lastFreeMemG cb)
  toClient := fun _ _ => []
  toDaemon := fun _ _ => []

/-- Regions are registered under keys that are not zero. -/
def Registers (_ : Cluster clients servers replicas) :
    ClusterLabel clients servers replicas → Prop
  | .serve _ _ mr _ => mr.rkey ≠ 0
  | .turn _ label => label.Registers
  | _ => True

instance (s : Cluster clients servers replicas) (label : ClusterLabel clients servers replicas) :
    Decidable (Registers s label) :=
  match label with
  | .serve _ _ mr _ => inferInstanceAs (Decidable (mr.rkey ≠ 0))
  | .turn _ label => inferInstanceAs (Decidable label.Registers)
  | .act _ _ | .deliver _ _ => isTrue trivial

/-! ## Each connection is one of lending -/

/-- A server, a client and what is on its way between them, as a lender and its borrower. -/
def lendingOf (daemon : Session) (number : Nat) (toClient : List Received)
    (toDaemon : List Request) (client : Control servers replicas) (cb : Fin servers) :
    Lending Region IbvMr where
  lent := daemon.lentTo number
  waiting := daemon.waitsFor number
  seen := (daemon.cbList number).evictSem
  notices := toClient.filterMap Received.notice
  returns := toDaemon.filterMap Request.returned
  held := client.handedOut cb
  asked := client.asked cb

def lending (c : Fin clients) (cb : Fin servers) : Lending Region IbvMr :=
  lendingOf (s.daemon cb) (slot cb c) (s.toClient c cb) (s.toDaemon c cb) (s.client c) cb

/-- Servers are lenders and clients borrowers, and so is each of their connections. -/
structure Sound (s : Cluster clients servers replicas) : Prop where
  lends : ∀ cb, (s.daemon cb).Lends
  marks : ∀ c cb, (s.client c).MarksOwn cb
  clear : ∀ c cb, ∀ recv ∈ s.toClient c cb, recv.Clear
  sound : ∀ c cb, (s.lending slot c cb).Sound

variable {slot} {s} {daemon nextDaemon : Session} {number : Nat} {toClient : List Received}
  {toDaemon : List Request} {client nextClient : Control servers replicas} {cb : Fin servers}

/-- What a server posts to a client, as that client understands it. -/
theorem notices_of_turns {returned : Option (Option Region)} {posts : List (Nat × Post)}
    (turns : Session.Turns daemon number returned nextDaemon posts)
    (rest : List Request) (taken : toDaemon.filterMap Request.returned =
      returned.toList ++ rest.filterMap Request.returned) :
    Relation.ReflGen Lending.Step (lendingOf daemon number toClient toDaemon client cb)
      (lendingOf nextDaemon number
        (toClient ++ (addressed number posts).filterMap received) rest client cb) := by
  unfold lendingOf
  rw [List.filterMap_append, taken]
  cases turns with
  | calm lent seen waits silent =>
      have nothing : ((addressed number posts).filterMap received).filterMap Received.notice =
          [] := by
        rw [List.filterMap_filterMap, List.filterMap_eq_nil_iff]
        intro post member
        have quiet := silent (number, post) (mem_addressed.mp member) rfl
        cases post with
        | message msg => exact quiet
        | query qmsg => rfl
        | write rkey addr localRbIndex => rfl
      rw [nothing, lent, seen, waits, List.append_nil]
      exact .refl
  | @lends next i mr reply free lent seen waits offer =>
      have said : ((addressed number [(number, Post.message reply)]).filterMap received).filterMap
          Received.notice = [.offer i mr] := by
        simp [addressed, received, Received.notice, offer]
      rw [said, lent, seen, waits]
      exact .single (.lend free)
  | @demands next i mr evict has idle lent seen waits demand =>
      have said : ((addressed number [(number, Post.message evict)]).filterMap received).filterMap
          Received.notice = [.demand i] := by
        simp [addressed, received, Received.notice, demand]
      rw [said, lent, seen, waits]
      exact .single (.demand has idle)
  | collects lent seen waits =>
      rw [lent, seen, waits]
      have posts : ((addressed number ([] : List (Nat × Post))).filterMap received).filterMap
          Received.notice = [] := rfl
      rw [posts, List.append_nil]
      exact .single (.collect rfl)
  | resumes waited lent seen waits =>
      rw [lent, waits]
      have posts : ((addressed number ([] : List (Nat × Post))).filterMap received).filterMap
          Received.notice = [] := rfl
      rw [posts, List.append_nil]
      exact .single (.resume waited seen)

/-- A step of a client, as the server understands what it posts. -/
theorem returns_of_answers {requests : List Request}
    (answers : Control.Answers client cb nextClient requests) :
    Relation.ReflGen Lending.Step (lendingOf daemon number toClient toDaemon client cb)
      (lendingOf daemon number toClient (toDaemon ++ requests) nextClient cb) := by
  unfold lendingOf
  rw [List.filterMap_append]
  cases answers with
  | calm held asked silent =>
      have nothing : requests.filterMap Request.returned = [] := List.filterMap_eq_nil_iff.mpr silent
      rw [nothing, held, List.append_nil]
      rcases asked with same | forgotten
      · rw [same]
      · rw [forgotten]
        exact .single .forget
  | @gives gone request asked own held calm returned =>
      have said : [request].filterMap Request.returned = [gone] := by simp [returned]
      rw [said, held, calm]
      exact .single (.giveBack asked own)

/-- A message that a client takes in. -/
theorem hears_step {recv : Received} (hears : Control.Hears client cb nextClient recv.notice) :
    Relation.ReflGen Lending.Step
      (lendingOf daemon number (recv :: toClient) toDaemon client cb)
      (lendingOf daemon number toClient toDaemon nextClient cb) := by
  unfold lendingOf
  generalize noticed : recv.notice = notice at hears
  cases hears with
  | silent held asked =>
      rw [List.filterMap_cons_none noticed, held]
      rcases asked with same | forgotten
      · rw [same]
      · rw [forgotten]
        exact .single .forget
  | @offered i key held asked =>
      rw [List.filterMap_cons_some noticed, held]
      exact .single (.take rfl asked)
  | @demanded i held =>
      rw [List.filterMap_cons_some noticed, held]
      exact .single (.hear _ rfl)

end Cluster

end Valet.System
