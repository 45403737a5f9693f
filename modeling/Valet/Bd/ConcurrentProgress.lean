import Valet.Bd.ConcurrentFifo
import Valet.Library.Schedules

/-!
# Reservations complete

A call past its `cmpxchg` waits for nothing but the reservations before its own.
Scheduling the owner of the oldest one first brings every call that has reserved
positions to its end, whatever the others do not do.
-/

namespace Valet.Bd

open Valet.Library

/-- The steps a call still has to take when it has the oldest ticket. -/
def AlfCall.left {α : Type} : AlfCall α → Nat
  | .enqStore _ _ _ _ todo => todo.length + 3
  | .enqWait .. => 2
  | .enqDone .. => 1
  | .deqLoad _ _ _ todo _ => todo.length + 3
  | .deqWait .. => 2
  | .deqDone .. => 1
  | _ => 0

namespace AlfWatched

variable {Cpu α : Type} [DecidableEq Cpu] {x : AlfWatched Cpu α} {bits bulk : Nat} {cpu : Cpu}

theorem call_goTo (s : AlfRace Cpu α) (cpu : Cpu) (q : AlfQueue α) (call : AlfCall α) :
    (s.goTo cpu q call).call cpu = call := Function.update_self _ _ _

/-- A step of the call with the oldest producer ticket publishes its bulk or brings the call
closer to that. -/
theorem Sound.produce (sound : x.Sound bits bulk) {first : Ticket Cpu}
    {rest : List (Ticket Cpu)} (tickets : x.2.producers = first :: rest) :
    x.step (.run first.owner) = some (x.after first.owner) ∧
      (x.after first.owner).Sound bits bulk ∧
      (x.after first.owner).2.consumers = x.2.consumers ∧
      ((x.after first.owner).2.producers = rest ∨
        ((x.after first.owner).2.producers = x.2.producers ∧
          ((x.after first.owner).1.call first.owner).left < (x.1.call first.owner).left)) := by
  have member : first ∈ x.2.producers := by
    rw [tickets]
    exact List.mem_cons_self
  have stores := sound.producers first member
  have atTail : first.start = x.2.enqueued.length := by
    have tiles := sound.tracks.producing
    rw [tickets] at tiles
    exact tiles.1
  have active : x.1.call first.owner ≠ .idle := by
    intro idle
    rw [idle] at stores
    exact Bool.false_ne_true stores
  refine ⟨step_run.mpr ⟨active, rfl⟩, ?_⟩
  cases at_ : x.1.call first.owner with
  | enqStore single ptr pHead pNext todo =>
      refine ⟨sound.after_enqStore at_, ?_⟩
      unfold after
      rw [at_, call_goTo]
      cases todo with
      | nil =>
          cases single with
          | false => exact ⟨rfl, Or.inr ⟨rfl, (by decide : 2 < 3)⟩⟩
          | true => exact ⟨rfl, Or.inr ⟨rfl, (by decide : 1 < 3)⟩⟩
      | cons access todo =>
          exact ⟨rfl, Or.inr ⟨rfl, Nat.add_lt_add_right (Nat.lt_succ_self _) 3⟩⟩
  | enqWait ptr pHead pNext =>
      refine ⟨sound.after_enqWait at_, ?_⟩
      obtain ⟨start, storing, head⟩ := sound.facts_at at_
      have mine := eq_oldest_of_owner tickets sound.tracks.producerOwners storing.ticket rfl
      have reached : x.1.q.producer.tail = pHead := by
        rw [sound.tracks.producerTail, head, ← atTail, ← mine]
      unfold after
      rw [at_, call_goTo]
      unfold AlfCall.advance
      dsimp only
      rw [if_pos reached]
      exact ⟨rfl, Or.inr ⟨rfl, (by decide : 1 < 2)⟩⟩
  | enqDone single ptr pNext =>
      refine ⟨sound.after_enqDone at_, ?_⟩
      unfold after
      rw [at_]
      exact ⟨rfl, Or.inl (congrArg List.tail tickets)⟩
  | _ =>
      rw [at_] at stores
      exact absurd stores Bool.false_ne_true

/-- The same for the oldest dequeue. -/
theorem Sound.consume (sound : x.Sound bits bulk) {first : Ticket Cpu}
    {rest : List (Ticket Cpu)} (tickets : x.2.consumers = first :: rest) :
    x.step (.run first.owner) = some (x.after first.owner) ∧
      (x.after first.owner).Sound bits bulk ∧
      (x.after first.owner).2.producers = x.2.producers ∧
      ((x.after first.owner).2.consumers = rest ∨
        ((x.after first.owner).2.consumers = x.2.consumers ∧
          ((x.after first.owner).1.call first.owner).left < (x.1.call first.owner).left)) := by
  have member : first ∈ x.2.consumers := by
    rw [tickets]
    exact List.mem_cons_self
  have loads := sound.consumers first member
  have atTail : first.start = x.2.dequeued.length := by
    have tiles := sound.tracks.consuming
    rw [tickets] at tiles
    exact tiles.1
  have active : x.1.call first.owner ≠ .idle := by
    intro idle
    rw [idle] at loads
    exact Bool.false_ne_true loads
  refine ⟨step_run.mpr ⟨active, rfl⟩, ?_⟩
  cases at_ : x.1.call first.owner with
  | deqLoad single cHead cNext todo ptr =>
      refine ⟨sound.after_deqLoad at_, ?_⟩
      unfold after
      rw [at_, call_goTo]
      cases todo with
      | nil =>
          cases single with
          | false => exact ⟨rfl, Or.inr ⟨rfl, (by decide : 2 < 3)⟩⟩
          | true => exact ⟨rfl, Or.inr ⟨rfl, (by decide : 1 < 3)⟩⟩
      | cons access todo =>
          exact ⟨rfl, Or.inr ⟨rfl, Nat.add_lt_add_right (Nat.lt_succ_self _) 3⟩⟩
  | deqWait cHead cNext ptr =>
      refine ⟨sound.after_deqWait at_, ?_⟩
      obtain ⟨start, loading, head⟩ := sound.facts_at at_
      have mine := eq_oldest_of_owner tickets sound.tracks.consumerOwners loading.ticket rfl
      have reached : x.1.q.consumer.tail = cHead := by
        rw [sound.tracks.consumerTail, head, ← atTail, ← mine]
      unfold after
      rw [at_, call_goTo]
      unfold AlfCall.advance
      dsimp only
      rw [if_pos reached]
      exact ⟨rfl, Or.inr ⟨rfl, (by decide : 1 < 2)⟩⟩
  | deqDone single cNext ptr =>
      refine ⟨sound.after_deqDone at_, ?_⟩
      unfold after
      rw [at_]
      exact ⟨rfl, Or.inl (congrArg List.tail tickets)⟩
  | _ =>
      rw [at_] at loads
      exact absurd loads Bool.false_ne_true

/-- The owner of the oldest producer ticket, given its steps, publishes. -/
theorem Sound.publish_oldest (sound : x.Sound bits bulk) {first : Ticket Cpu}
    {rest : List (Ticket Cpu)} (tickets : x.2.producers = first :: rest) :
    ∃ count next, exec AlfWatched.step x (List.replicate count (AlfEvent.run first.owner)) =
      some next ∧ next.Sound bits bulk ∧ next.2.producers = rest ∧
        next.2.consumers = x.2.consumers := by
  apply repeat_until
    (fun y => AlfWatched.Sound y bits bulk ∧ y.2.producers = first :: rest ∧
      y.2.consumers = x.2.consumers)
    (fun y => (y.1.call first.owner).left)
  · rintro y ⟨inv, still, others⟩
    obtain ⟨edge, after, kept, done | ⟨same, closer⟩⟩ := inv.produce still
    · exact ⟨_, edge, Or.inl ⟨after, done, kept.trans others⟩⟩
    · exact ⟨_, edge, Or.inr ⟨⟨after, same.trans still, kept.trans others⟩, closer⟩⟩
  · exact ⟨sound, tickets, rfl⟩

/-- The owner of the oldest consumer ticket, given its steps, hands its elements back. -/
theorem Sound.release_oldest (sound : x.Sound bits bulk) {first : Ticket Cpu}
    {rest : List (Ticket Cpu)} (tickets : x.2.consumers = first :: rest) :
    ∃ count next, exec AlfWatched.step x (List.replicate count (AlfEvent.run first.owner)) =
      some next ∧ next.Sound bits bulk ∧ next.2.consumers = rest ∧
        next.2.producers = x.2.producers := by
  apply repeat_until
    (fun y => AlfWatched.Sound y bits bulk ∧ y.2.consumers = first :: rest ∧
      y.2.producers = x.2.producers)
    (fun y => (y.1.call first.owner).left)
  · rintro y ⟨inv, still, others⟩
    obtain ⟨edge, after, kept, done | ⟨same, closer⟩⟩ := inv.consume still
    · exact ⟨_, edge, Or.inl ⟨after, done, kept.trans others⟩⟩
    · exact ⟨_, edge, Or.inr ⟨⟨after, same.trans still, kept.trans others⟩, closer⟩⟩
  · exact ⟨sound, tickets, rfl⟩

/-- A step of a call that has reserved positions in `x`. -/
def Holder (x : AlfWatched Cpu α) (event : AlfEvent Cpu α) : Prop :=
  ∃ cpu, event = .run cpu ∧ ((x.1.call cpu).storing ∨ (x.1.call cpu).loading)

/-- A step of the owner of one of the tickets. -/
def OwnerStep (tickets : List (Ticket Cpu)) (event : AlfEvent Cpu α) : Prop :=
  ∃ ticket ∈ tickets, event = .run ticket.owner

theorem Sound.publish_all (sound : x.Sound bits bulk) :
    ∃ labels last, (∀ label ∈ labels, OwnerStep x.2.producers label) ∧
      exec AlfWatched.step x labels = some last ∧
        (last.Sound bits bulk ∧ last.2.producers ⊆ x.2.producers ∧
          last.2.consumers = x.2.consumers) ∧ last.2.producers = [] := by
  refine drain (OwnerStep x.2.producers)
    (fun y => AlfWatched.Sound y bits bulk ∧ y.2.producers ⊆ x.2.producers ∧
      y.2.consumers = x.2.consumers)
    (fun y => y.2.producers) ?_ ⟨sound, List.Subset.refl _, rfl⟩
  rintro y ⟨inv, within, others⟩ some_
  obtain ⟨first, rest, tickets⟩ := List.exists_cons_of_ne_nil some_
  obtain ⟨count, next, ran, after, gone, kept⟩ := inv.publish_oldest tickets
  rw [tickets] at within
  refine ⟨_, next, ?_, ran, ⟨after, ?_, kept.trans others⟩, ?_⟩
  · intro label member
    obtain rfl := List.eq_of_mem_replicate member
    exact ⟨first, within List.mem_cons_self, rfl⟩
  · rw [gone]
    exact fun ticket member => within (List.mem_cons_of_mem _ member)
  · rw [gone, tickets]
    exact Nat.lt_succ_self _

theorem Sound.release_all (sound : x.Sound bits bulk) :
    ∃ labels last, (∀ label ∈ labels, OwnerStep x.2.consumers label) ∧
      exec AlfWatched.step x labels = some last ∧
        (last.Sound bits bulk ∧ last.2.consumers ⊆ x.2.consumers ∧
          last.2.producers = x.2.producers) ∧ last.2.consumers = [] := by
  refine drain (OwnerStep x.2.consumers)
    (fun y => AlfWatched.Sound y bits bulk ∧ y.2.consumers ⊆ x.2.consumers ∧
      y.2.producers = x.2.producers)
    (fun y => y.2.consumers) ?_ ⟨sound, List.Subset.refl _, rfl⟩
  rintro y ⟨inv, within, others⟩ some_
  obtain ⟨first, rest, tickets⟩ := List.exists_cons_of_ne_nil some_
  obtain ⟨count, next, ran, after, gone, kept⟩ := inv.release_oldest tickets
  rw [tickets] at within
  refine ⟨_, next, ?_, ran, ⟨after, ?_, kept.trans others⟩, ?_⟩
  · intro label member
    obtain rfl := List.eq_of_mem_replicate member
    exact ⟨first, within List.mem_cons_self, rfl⟩
  · rw [gone]
    exact fun ticket member => within (List.mem_cons_of_mem _ member)
  · rw [gone, tickets]
    exact Nat.lt_succ_self _

omit [DecidableEq Cpu] in
/-- A call that has reserved positions has a ticket for them. -/
theorem Sound.returned_of_no_tickets (sound : x.Sound bits bulk)
    (producers : x.2.producers = []) (consumers : x.2.consumers = []) (cpu : Cpu) :
    (x.1.call cpu).storing = false ∧ (x.1.call cpu).loading = false := by
  have facts := sound.facts cpu
  cases at_ : x.1.call cpu <;> rw [at_] at facts
  case enqStore =>
    obtain ⟨start, done, storing, -⟩ := facts
    have member := storing.ticket
    rw [producers] at member
    cases member
  case enqWait =>
    obtain ⟨start, storing, -⟩ := facts
    have member := storing.ticket
    rw [producers] at member
    cases member
  case enqDone single ptr pNext =>
    have storing : x.2.Storing x.1.q cpu ptr x.2.enqueued.length pNext ptr.length := facts
    have member := storing.ticket
    rw [producers] at member
    cases member
  case deqLoad =>
    obtain ⟨start, count, loading, -⟩ := facts
    have member := loading.ticket
    rw [consumers] at member
    cases member
  case deqWait =>
    obtain ⟨start, loading, -⟩ := facts
    have member := loading.ticket
    rw [consumers] at member
    cases member
  case deqDone single cNext ptr =>
    have loading : x.2.Loading cpu x.2.dequeued.length ptr.length cNext ptr := facts
    have member := loading.ticket
    rw [consumers] at member
    cases member
  all_goals exact ⟨rfl, rfl⟩

/-- No reservation is stuck: from every reachable state, steps of the calls that have reserved
positions, and of no others, bring all of these calls to their ends. -/
theorem reservations_complete {size : Nat} {Guard : AlfWatched Cpu α → AlfEvent Cpu α → Prop}
    {labels : List (AlfEvent Cpu α)} (suited : Suited size Guard)
    (run : Run AlfWatched.step Guard (start size) labels x) :
    ∃ more s, (∀ event ∈ more, Holder x event) ∧ exec AlfRace.step x.1 more = some s ∧
      ∀ cpu, (s.call cpu).storing = false ∧ (s.call cpu).loading = false := by
  obtain ⟨bits, bulk, sound⟩ := suited.sound run
  obtain ⟨published, middle, held, ran, ⟨inv, -, same⟩, none_⟩ := sound.publish_all
  obtain ⟨released, last, heldThen, ranThen, ⟨ends, -, kept⟩, noneThen⟩ := inv.release_all
  refine ⟨published ++ released, last.1, ?_,
    exec_of_watch ((exec_append ran).trans ranThen),
    ends.returned_of_no_tickets (kept.trans none_) noneThen⟩
  intro event member
  rcases List.mem_append.mp member with front | back
  · obtain ⟨ticket, open_, rfl⟩ := held event front
    exact ⟨ticket.owner, rfl, Or.inl (sound.producers ticket open_)⟩
  · obtain ⟨ticket, open_, rfl⟩ := heldThen event back
    rw [same] at open_
    exact ⟨ticket.owner, rfl, Or.inr (sound.consumers ticket open_)⟩

theorem reservations_complete_overtaking : ∃ (x : AlfWatched Bool Nat) (more : _)
    (s : AlfRace Bool Nat), exec AlfWatched.step (start (2 ^ 2)) (overtaking.take 12) = some x ∧
      (∀ event ∈ more, Holder x event) ∧ exec AlfRace.step x.1 more = some s ∧
        ∀ cpu, (s.call cpu).storing = false ∧ (s.call cpu).loading = false := by
  have ran : (exec (guardedStep AlfWatched.step Promised)
      (start (2 ^ 2) : AlfWatched Bool Nat) (overtaking.take 12)).isSome = true := by
    decide +kernel
  obtain ⟨x, ends⟩ := Option.isSome_iff_exists.mp ran
  have run := run_of_guarded ends
  obtain ⟨more, s, complete⟩ := reservations_complete (.powerOfTwo (by decide)) run
  exact ⟨x, more, s, run.exec_eq, complete⟩

end AlfWatched

end Valet.Bd
