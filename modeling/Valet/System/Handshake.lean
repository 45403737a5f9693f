import Valet.System.Agreement

/-!
# Evictions one by one

A server that evicts waits for the answer before it asks again, so between it
and a client there is one `EVICT`, or the round of it, or one `DELETE_RB`, and
none while the server does not wait.  An `EVICT` does not get ahead of the reply
that handed its block out.
-/

namespace Valet.Bd

open Valet.Wire Valet.Library Valet.Daemon

def Received.isEvict : Received → Bool
  | .query _ => false
  | .message msg => decide (msg.type = .evict)

def Request.isDelete : Request → Bool
  | .connect => false
  | .message msg => decide (msg.type = .deleteRb)

theorem Received.isEvict_eq {recv : Received} (clear : recv.Clear) :
    recv.isEvict = (recv.notice.map Lending.isDemand).getD false := by
  cases recv with
  | query qmsg => rfl
  | message msg =>
      show decide (msg.type = .evict) = ((noticeOf msg).map Lending.isDemand).getD false
      unfold noticeOf
      cases type : msg.type with
      | evict =>
          obtain ⟨i, first⟩ := Option.isSome_iff_exists.mp (clear.named type)
          rw [first]
          rfl
      | respMrMap | respMigMap => cases msg.firstRkey <;> rfl
      | done | reqQuery | respQuery | reqMrMap | reqMigMap | reqMigration | doneMigration
      | deleteRb => rfl

theorem Request.isDelete_eq (request : Request) :
    request.isDelete = request.returned.isSome := by
  cases request with
  | connect => rfl
  | message msg =>
      show decide (msg.type = .deleteRb) =
        (if msg.type = .deleteRb then some msg.firstRkey else none).isSome
      by_cases type : msg.type = .deleteRb
      · rw [if_pos type]
        exact decide_eq_true type
      · rw [if_neg type]
        exact decide_eq_false type

theorem countP_isEvict {recvs : List Received} (clear : ∀ recv ∈ recvs, recv.Clear) :
    recvs.countP Received.isEvict = (recvs.filterMap Received.notice).countP Lending.isDemand := by
  rw [List.countP_filterMap]
  refine List.countP_congr fun recv member => ?_
  rw [Received.isEvict_eq (clear recv member)]

theorem countP_isDelete (requests : List Request) :
    requests.countP Request.isDelete = (requests.filterMap Request.returned).length := by
  rw [List.length_filterMap_eq_countP]
  refine List.countP_congr fun request _ => ?_
  rw [Request.isDelete_eq]

end Valet.Bd

namespace Valet.System

open Valet.Wire Valet.Library Valet.Bd Valet.Daemon

namespace Cluster

variable {clients servers replicas : Nat} {slot : Fin servers → Fin clients ↪ Nat}
  {weigh : Int → Int → Int} {s : Cluster clients servers replicas}

/-- What is left of an eviction between a client and a server, in messages and in rounds. -/
structure Handshake (slot : Fin servers → Fin clients ↪ Nat)
    (s : Cluster clients servers replicas) : Prop where
  pending : ∀ c cb, (s.toClient c cb).countP Received.isEvict + ((s.client c).asked cb).toNat +
    (s.toDaemon c cb).countP Request.isDelete + ((s.daemon cb).cbList (slot cb c)).evictSem ≤
      ((s.daemon cb).waitsFor (slot cb c)).toNat
  named : ∀ c cb before msg after, s.toClient c cb = before ++ .message msg :: after →
    msg.type = .evict → ∃ i, (∀ j, msg.rkey j ≠ 0 ↔ j = i) ∧
      ((s.client c).handedOut cb i = true ∨ ∃ reply ∈ before, reply.offers i = true)

theorem offers_of_notice_mem {recvs : List Received} {i : Region} {key : IbvMr}
    (member : .offer i key ∈ recvs.filterMap Received.notice) :
    ∃ reply ∈ recvs, reply.offers i = true := by
  obtain ⟨reply, isReply, notice⟩ := List.mem_filterMap.mp member
  exact ⟨reply, isReply, Received.offers_of_notice notice⟩

theorem Sound.handshake (sound : s.Sound slot) : s.Handshake slot where
  pending := by
    intro c cb
    rw [countP_isEvict (sound.clear c cb), countP_isDelete]
    exact (sound.sound c cb).requests
  named := by
    intro c cb before msg after parts type
    have clear : Daemon.Clear msg := sound.clear c cb (.message msg) (by
      rw [parts]
      exact List.mem_append_right _ List.mem_cons_self)
    obtain ⟨i, first⟩ := Option.isSome_iff_exists.mp (clear.named type)
    have key : msg.rkey i ≠ 0 := Message.rkey_of_firstRkey first
    refine ⟨i, fun j => ⟨fun other => ?_, fun same => same ▸ key⟩, ?_⟩
    · exact clear.lone (Or.inr (Or.inr type)) j i other key
    have notice : Received.notice (.message msg) = some (.demand i) := by
      show noticeOf msg = _
      unfold noticeOf
      rw [type, first]
      rfl
    have notices : (s.lending slot c cb).notices = before.filterMap Received.notice ++
        .demand i :: after.filterMap Received.notice := by
      show (s.toClient c cb).filterMap Received.notice = _
      rw [parts, List.filterMap_append, List.filterMap_cons_some notice]
    rcases (sound.sound c cb).reached _ i _ notices with held | ⟨key, offer⟩
    · exact Or.inl held
    · exact Or.inr (offers_of_notice_mem offer)

variable {mrList : Fin servers → Region → IbvMr} {freeMemG lastFreeMemG : Fin servers → Int}
  {labels : List (ClusterLabel clients servers replicas)}

/-- In every order of steps, a server asks for one block at a time, names no other, and the client
has it by then. -/
theorem handshake_of_run
    (run : Run (Cluster.step slot weigh) Registers (init mrList freeMemG lastFreeMemG) labels s) :
    s.Handshake slot :=
  ((sound_init mrList freeMemG lastFreeMemG).run run).handshake

/-- Until the first `EVICT`. -/
theorem handshake_of_run_relending : ∃ last : Cluster 2 2 0,
    exec (Cluster.step numbered Session.weighInt) twoServers (relending.take 16) = some last ∧
      (last.toClient 0 0).countP Received.isEvict = 1 ∧ last.Handshake numbered := by
  have ran : ((exec (guardedStep (Cluster.step numbered Session.weighInt) Registers) twoServers
      (relending.take 16)).map fun last => (last.toClient 0 0).countP Received.isEvict) =
        some 1 := by
    decide +kernel
  obtain ⟨last, guarded, evicts⟩ := Option.map_eq_some_iff.mp ran
  have run := run_of_guarded guarded
  exact ⟨last, run.exec_eq, evicts, handshake_of_run run⟩

end Cluster

end Valet.System
