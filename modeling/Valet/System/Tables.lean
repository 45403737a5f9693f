import Valet.Bd.BorrowedTables
import Valet.System.Delivery

/-!
# The tables of the clients and the regions of the servers

A client writes to a remote block at the address and under the key that its
tables give.  As long as nothing about blocks arrives between a `DELETE_RB` and
the end of its round, every row leads to a region that its server has mapped to
this client, under the key and at the address that it was registered with.
-/

namespace Valet.System

open Valet.Wire Valet.Library Valet.Bd Valet.Daemon

namespace Cluster

variable {clients servers replicas : Nat} {slot : Fin servers → Fin clients ↪ Nat}
  {weigh : Int → Int → Int} {s next : Cluster clients servers replicas}

/-- The client that takes part in a step, and what it does. -/
def clientStep (s : Cluster clients servers replicas) :
    ClusterLabel clients servers replicas → Option (Fin clients × ControlLabel servers replicas)
  | .act c label => some (c, label)
  | .deliver c cb => (s.toClient c cb).head?.map fun recv => (c, .recv cb recv)
  | .serve .. | .turn .. => none

/-- Servers register regions under keys, and clients are calm about blocks that are leaving. -/
structure Careful (s : Cluster clients servers replicas)
    (label : ClusterLabel clients servers replicas) : Prop where
  registers : Registers s label
  calm : ∀ own, s.clientStep label = some own → (s.client own.1).Calm own.2

instance (s : Cluster clients servers replicas) (label : ClusterLabel clients servers replicas) :
    Decidable (Careful s label) :=
  decidable_of_iff (Registers s label ∧
      ∀ own ∈ s.clientStep label, (s.client own.1).Calm own.2)
    ⟨fun ⟨registers, calm⟩ => ⟨registers, calm⟩, fun careful => ⟨careful.registers, careful.calm⟩⟩

/-- The tables of every client are those of what is lent to it. -/
structure Tabled (slot : Fin servers → Fin clients ↪ Nat) (s : Cluster clients servers replicas) :
    Prop where
  backed : ∀ c cb, (s.client c).Backed cb (s.lending slot c cb).lent
  leads : ∀ c, (s.client c).LeadsMapped
  linked : ∀ c, (s.client c).session.Linked

/-- A client takes a step, and no other part of the state moves. -/
theorem Tabled.client {c : Fin clients} {moved : Control servers replicas} (tabled : s.Tabled slot)
    (daemon : next.daemon = s.daemon) (client : next.client = Function.update s.client c moved)
    (backed : ∀ cb, moved.Backed cb (s.lending slot c cb).lent) (leads : moved.LeadsMapped)
    (linked : moved.session.Linked) : next.Tabled slot := by
  have lent (other : Fin clients) (cb : Fin servers) :
      (next.lending slot other cb).lent = (s.lending slot other cb).lent := by
    unfold lending lendingOf
    rw [daemon]
  refine ⟨fun other cb => ?_, fun other => ?_, fun other => ?_⟩
  · rw [lent, client]
    rcases eq_or_ne other c with rfl | different
    · rw [Function.update_self]
      exact backed cb
    · rw [Function.update_of_ne different]
      exact tabled.backed other cb
  · rw [client]
    rcases eq_or_ne other c with rfl | different
    · rw [Function.update_self]
      exact leads
    · rw [Function.update_of_ne different]
      exact tabled.leads other
  · rw [client]
    rcases eq_or_ne other c with rfl | different
    · rw [Function.update_self]
      exact linked
    · rw [Function.update_of_ne different]
      exact tabled.linked other

theorem Tabled.act {c : Fin clients} {label : ControlLabel servers replicas}
    {moved : Control servers replicas} {posts : List (Fin servers × Request)}
    (tabled : s.Tabled slot) (calm : (s.client c).Calm label) (acts : isRecv label = false)
    (edge : (s.client c).step label = some moved) : (s.moveClient c moved posts).Tabled slot := by
  have notRecv : ∀ at_ recv, label ≠ .recv at_ recv := by
    rintro at_ recv rfl
    cases acts
  have listed (cb : Fin servers) := (tabled.backed c cb).listed
  have own : Control.OwnStep (s.client c) label := by
    refine ⟨?_, ?_, calm.remaps⟩
    · cases label with
      | recv at_ recv => cases acts
      | _ => exact trivial
    · cases label with
      | recv at_ recv => cases acts
      | _ => exact trivial
  exact tabled.client rfl rfl (fun cb => (tabled.backed c cb).step calm notRecv edge)
    ((tabled.leads c).step calm listed edge) (Control.linked_step (tabled.linked c) own edge)

theorem Tabled.deliver {c : Fin clients} {cb : Fin servers} {recv : Received}
    {rest : List Received} {moved : Control servers replicas} (tabled : s.Tabled slot)
    (sound : s.Sound slot) (first : s.toClient c cb = recv :: rest)
    (calm : (s.client c).Calm (.recv cb recv))
    (edge : (s.client c).step (.recv cb recv) = some moved)
    (client : next.client = Function.update s.client c moved) (daemon : next.daemon = s.daemon) :
    next.Tabled slot := by
  have member : recv ∈ s.toClient c cb := by
    rw [first]
    exact List.mem_cons_self
  have new (i : Block) (offers : recv.offers i = true) :=
    (sound.agrees.offered c cb recv member i offers).1
  have unused := Control.offersUnused_of_recv (tabled.leads c) (tabled.backed c cb) calm new
  have keys (at_ : Fin servers) : at_ = cb → ∀ i mr, recv.notice = some (.offer i mr) →
      (s.lending slot c at_).lent i = some mr := by
    rintro rfl i mr notice
    exact (sound.sound c at_).keys i mr (List.mem_filterMap.mpr ⟨recv, member, notice⟩)
  have own : Control.OwnStep (s.client c) (.recv cb recv) := ⟨new, unused, trivial⟩
  exact tabled.client daemon client
    (fun at_ => (tabled.backed c at_).recv calm (sound.clear c cb recv member) (keys at_) edge)
    ((tabled.leads c).recv edge) (Control.linked_step (tabled.linked c) own edge)

/-- A server takes a step: what the clients hold stays under its key. -/
theorem Tabled.server (tabled : s.Tabled slot) (sound : s.Sound slot) (refines : Refines slot s next)
    (client : next.client = s.client) : next.Tabled slot := by
  refine ⟨fun c cb => ?_, fun c => ?_, fun c => ?_⟩
  · rw [client]
    refine (tabled.backed c cb).relent fun i held => ?_
    refine (sound.sound c cb).key_of_held (refines c cb) held ?_
    show (next.client c).handedOut cb i = true
    rw [client]
    exact held
  · rw [client]
    exact tabled.leads c
  · rw [client]
    exact tabled.linked c

theorem Tabled.step {label : ClusterLabel clients servers replicas} (tabled : s.Tabled slot)
    (sound : s.Sound slot) (careful : Careful s label)
    (edge : Cluster.step slot weigh s label = some next) : next.Tabled slot := by
  have refines := (sound.step careful.registers edge).2
  cases label with
  | act c label =>
      have calm := careful.calm (c, label) rfl
      simp only [Cluster.step] at edge
      split at edge
      · cases edge
      · rename_i acts
        obtain ⟨moved, ran, rfl⟩ := Option.map_eq_some_iff.mp edge
        exact tabled.act calm (eq_false_of_ne_true acts) ran
  | deliver c cb =>
      simp only [Cluster.step] at edge
      split at edge
      · cases edge
      · rename_i recv rest first
        have calm := careful.calm (c, .recv cb recv) (by
          show (s.toClient c cb).head?.map _ = _
          rw [first]
          rfl)
        obtain ⟨moved, ran, rfl⟩ := Option.map_eq_some_iff.mp edge
        exact tabled.deliver sound first calm ran rfl rfl
  | serve c cb mr stamps =>
      refine tabled.server sound refines ?_
      simp only [Cluster.step] at edge
      split at edge
      · cases edge
      · obtain ⟨moved, ran, rfl⟩ := Option.map_eq_some_iff.mp edge
        rfl
  | turn cb label =>
      refine tabled.server sound refines ?_
      simp only [Cluster.step] at edge
      split at edge
      · obtain ⟨moved, ran, rfl⟩ := Option.map_eq_some_iff.mp edge
        rfl
      · cases edge

/-- Where the rows of the clients lead. -/
structure Served (slot : Fin servers → Fin clients ↪ Nat) (s : Cluster clients servers replicas) :
    Prop where
  unshared : ∀ c, (s.client c).session.Unshared
  mapped : ∀ c row swapspace, (s.client c).session.cbIndexMap row swapspace ≠ noCbMapped →
    ∃ cb i, (s.client c).session.Leads row swapspace cb i ∧
      ((s.client c).Leaving cb i ∨
        ((s.daemon cb).mrh.cbIndexMap i = some (slot cb c) ∧ (s.daemon cb).mrh.mallocMap i = true ∧
          ((s.client c).session.rbh cb).entry i = some ((s.daemon cb).mrh.mrList i)))
  apart : ∀ c other row at_ swapspace place cb i, (s.client c).session.Leads row swapspace cb i →
    (s.client other).session.Leads at_ place cb i → ¬ (s.client c).Leaving cb i →
      ¬ (s.client other).Leaving cb i → c = other

theorem Tabled.region {c : Fin clients} {cb : Fin servers} {i : Block}
    {row : Fin (replicas + 1)} {swapspace : Swapspace} (tabled : s.Tabled slot)
    (leads : (s.client c).session.Leads row swapspace cb i) : (s.client c).Leaving cb i ∨
      ((s.client c).handedOut cb i = true ∧
        ((s.client c).session.rbh cb).entry i = some ((s.daemon cb).mrh.mrList i)) := by
  have mapped := tabled.leads c row swapspace cb i leads
  have has := RemoteBlockHandler.entry_eq_some.mpr ⟨mapped, rfl⟩
  rcases (tabled.backed c cb).entries i _ has with leaving | ⟨held, lent⟩
  · exact Or.inl leaving
  · right
    refine ⟨held, ?_⟩
    rw [has, (Session.lentTo_eq_some.mp lent).2]

theorem Tabled.served (tabled : s.Tabled slot) (sound : s.Sound slot) : s.Served slot where
  unshared := fun c => (tabled.linked c).unshared
  mapped := by
    intro c row swapspace isMapped
    obtain ⟨cb, i, leads⟩ := (tabled.linked c).valid row swapspace isMapped
    refine ⟨cb, i, leads, ?_⟩
    rcases tabled.region leads with leaving | ⟨held, entry⟩
    · exact Or.inl leaving
    · obtain ⟨owner, allocated⟩ := sound.agrees.backed c cb i held
      exact Or.inr ⟨owner, allocated, entry⟩
  apart := by
    intro c other row at_ swapspace place cb i leads again stays remains
    have held := ((tabled.region leads).resolve_left stays).1
    have its := ((tabled.region again).resolve_left remains).1
    exact sound.agrees.exclusive c other cb i held its

/-- What every state of a careful run is. -/
structure Kept (slot : Fin servers → Fin clients ↪ Nat) (s : Cluster clients servers replicas) :
    Prop where
  sound : s.Sound slot
  tabled : s.Tabled slot

theorem Kept.step {label : ClusterLabel clients servers replicas} (kept : s.Kept slot)
    (careful : Careful s label) (edge : Cluster.step slot weigh s label = some next) :
    next.Kept slot where
  sound := (kept.sound.step careful.registers edge).1
  tabled := kept.tabled.step kept.sound careful edge

variable {mrList : Fin servers → Region → IbvMr} {freeMemG lastFreeMemG : Fin servers → Int}
  {labels : List (ClusterLabel clients servers replicas)}

theorem kept_init (mrList : Fin servers → Region → IbvMr)
    (freeMemG lastFreeMemG : Fin servers → Int) :
    (init mrList freeMemG lastFreeMemG : Cluster clients servers replicas).Kept slot where
  sound := sound_init mrList freeMemG lastFreeMemG
  tabled := ⟨fun _ cb => Control.backed_init cb _, fun _ => Control.leadsMapped_init,
    fun _ => Control.linked_init⟩

/-- In every careful run, every row leads to a region that its server keeps for this client. -/
theorem served_of_run
    (run : Run (Cluster.step slot weigh) Careful (init mrList freeMemG lastFreeMemG) labels s) :
    s.Served slot := by
  have kept : s.Kept slot := run.preserves (fun kept careful edge => Kept.step kept careful edge)
    (kept_init mrList freeMemG lastFreeMemG)
  exact kept.tabled.served kept.sound

theorem served_of_run_relending : ∃ last : Cluster 2 2 0,
    exec (Cluster.step numbered Session.weighInt) twoServers relending = some last ∧
      (last.client 1).session.Leads 0 Control.secondSwapspace 0 firstBlock ∧
        last.Served numbered := by
  have ran : ((exec (guardedStep (Cluster.step numbered Session.weighInt) Careful) twoServers
      relending).map fun last => decide ((last.client 1).session.Leads 0 Control.secondSwapspace 0
        firstBlock)) = some true := by
    decide +kernel
  obtain ⟨last, guarded, leads⟩ := Option.map_eq_some_iff.mp ran
  have run := run_of_guarded guarded
  exact ⟨last, run.exec_eq, of_decide_eq_true leads, served_of_run run⟩

end Cluster

end Valet.System
