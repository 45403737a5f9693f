import Valet.Bd.ReplicaDone

/-!
# Every item is freed once

Without a disk backup this holds of every run.  With one it holds of the runs in
which no bio comes back before the write to the primary is posted: the handler
of the bio takes a context without a block for an invalid one and gives the
completion up, and the item is never freed.
-/

namespace Valet.Bd

open Valet.Library

variable {replicas : Nat} {diskbackup : Bool} {Data : Type}

namespace ReplicaWriter

variable {s next : ReplicaWriter replicas diskbackup Data}

/-- An item is marked and freed, and its primary context is put back, once, with the last of its
completions; the other contexts are put back once, with their own.  No completion is given up,
none meets a full pool or an item that was freed, and a buffer that a write is sent from is not in
the pool. -/
structure CompletesOnce (s : ReplicaWriter replicas diskbackup Data) : Prop where
  freed : ∀ item, (s.flights item).freed = if (s.flights item).finished diskbackup then 1 else 0
  marked : ∀ item, (s.flights item).marked = if (s.flights item).finished diskbackup then 1 else 0
  primary : ∀ item,
    (s.flights item).putBack 0 = if (s.flights item).finished diskbackup then 1 else 0
  others : ∀ item j, j ≠ 0 →
    (s.flights item).putBack j = if (s.flights item).handled j then 1 else 0
  dropped : ∀ item, (s.flights item).dropped = 0
  alive : ∀ item, item < s.nextItem → (s.flights item).finished diskbackup = false →
    (s.items item).isSome
  buffer : ∀ write ∈ s.posted, (s.ctxs write.ctx).buffer = (s.calls write.item).ctx 0 ∧
    (s.calls write.item).ctx 0 ∉ s.freepool
  write : ∀ write ∈ s.posted, ∃ next, s.step (.writeDone write) = some next
  bio : ∀ bio ∈ s.bios, ∃ next, s.step (.diskDone bio) = some next

/-- A bio comes back after the write to the primary was posted. -/
def OnTime (s : ReplicaWriter replicas diskbackup Data) : WriterLabel replicas → Prop
  | .diskDone bio => 0 < (s.calls bio.item).posted
  | _ => True

instance (s : ReplicaWriter replicas diskbackup Data) (label : WriterLabel replicas) :
    Decidable (OnTime s label) := by
  cases label <;> unfold OnTime <;> infer_instance

/-- A context under a bio that is early has no block. -/
theorem Tracks.early (tracks : s.Tracks) {bio : QueuedBio} (member : bio ∈ s.bios)
    (early : (s.calls bio.item).posted = 0) :
    (s.noteBio bio).stackbdEndIoPostwork bio = .ok ((s.noteBio bio).drop bio.item) := by
  obtain ⟨here, queued, -⟩ := (tracks.bios bio).mp member
  have tracked := tracks.tracked bio.item
  have notFinished := tracks.pendingBio member
  have out := (tracks.missing (tracked.loadedFirst (Or.inr queued)) notFinished).2
  have noRb : (s.ctxs bio.ctx).rb = none := by
    rw [here, ← Option.not_isSome_iff_eq_none, (tracks.ctx bio.item 0 out).rb, early]
    simp
  have same : (s.noteBio bio).ctxs = s.ctxs := rfl
  simp only [stackbdEndIoPostwork, same, noRb]

theorem Tracks.completesOnce (tracks : s.Tracks) : s.CompletesOnce where
  freed := fun item => (tracks.tracked item).freed
  marked := fun item => (tracks.tracked item).marked
  primary := fun item => (tracks.tracked item).primary
  others := fun item => (tracks.tracked item).others
  dropped := fun item => (tracks.tracked item).dropped
  alive := by
    intro item used notFinished
    obtain ⟨tmp, found, _⟩ := tracks.held item used notFinished
    rw [found]
    rfl
  buffer := by
    intro write member
    obtain ⟨here, posted, clear⟩ := (tracks.writes write).mp member
    have tracked := tracks.tracked write.item
    have loaded := tracked.loadedFirst (Or.inl (Nat.zero_lt_of_lt posted))
    have notFinished : (s.flights write.item).finished diskbackup = false :=
      Flight.not_finished_of_clear clear
    have outPrime := (tracks.missing loaded notFinished).2
    have out : (s.flights write.item).Out diskbackup (s.calls write.item) write.replica := by
      rw [Flight.Out, clear, notFinished, ite_self, loaded]
      exact ⟨write.replica.isLt, rfl⟩
    rw [here]
    exact ⟨(tracks.ctx _ _ out).buffer, (tracks.ctx _ _ outPrime).out⟩
  write := by
    intro write member
    obtain ⟨next, handled, _⟩ := tracks.writeDone member
    refine ⟨next, ?_⟩
    simp only [step, if_pos member, handled]
    rfl
  bio := by
    intro bio member
    rcases Nat.eq_zero_or_pos (s.calls bio.item).posted with early | onTime
    · refine ⟨(s.noteBio bio).drop bio.item, ?_⟩
      simp only [step, if_pos member, tracks.early member early]
      rfl
    · obtain ⟨next, handled, _⟩ := tracks.diskDone member onTime
      refine ⟨next, ?_⟩
      simp only [step, if_pos member, handled]
      rfl

/-- A step whose bio is not early keeps what is known of items and contexts. -/
theorem tracks_step {label : WriterLabel replicas} (tracks : s.Tracks) (onTime : OnTime s label)
    (edge : s.step label = some next) : next.Tracks := by
  cases label with
  | start tmp blocks offset =>
      obtain ⟨inTree, edge⟩ := Option.ite_none_right_eq_some.mp edge
      cases edge
      exact tracks.start (List.all_eq_true.mp inTree)
  | load item j =>
      obtain ⟨⟨used, position⟩, loads⟩ := Option.ite_none_right_eq_some.mp edge
      exact tracks.load used position loads
  | diskWrite item =>
      obtain ⟨⟨_, backup, loaded, notQueued⟩, edge⟩ := Option.ite_none_right_eq_some.mp edge
      cases edge
      exact tracks.diskWrite backup loaded notQueued
  | post item j =>
      obtain ⟨⟨_, loaded, queued, position⟩, edge⟩ := Option.ite_none_right_eq_some.mp edge
      cases edge
      exact tracks.post loaded queued position
  | writeDone write =>
      obtain ⟨member, ran⟩ := Option.ite_none_right_eq_some.mp edge
      obtain ⟨last, handled, tracksLast⟩ := tracks.writeDone member
      rw [handled] at ran
      cases ran
      exact tracksLast
  | diskDone bio =>
      obtain ⟨member, ran⟩ := Option.ite_none_right_eq_some.mp edge
      obtain ⟨last, handled, tracksLast⟩ := tracks.diskDone member onTime
      rw [handled] at ran
      cases ran
      exact tracksLast

/-! ## Without a disk backup -/

theorem Tracks.onTime {s : ReplicaWriter replicas false Data} (tracks : s.Tracks)
    {label : WriterLabel replicas} {next : ReplicaWriter replicas false Data}
    (edge : s.step label = some next) : OnTime s label := by
  cases label with
  | diskDone bio =>
      obtain ⟨member, _⟩ := Option.ite_none_right_eq_some.mp edge
      exact nomatch (tracks.tracked bio.item).diskOff ((tracks.bios bio).mp member).2.1
  | _ => exact trivial

/-- For every number of replicas, any items in flight and every order of their completions. -/
theorem completes_once {store : PageStore Data} {capNr : Nat}
    {labels : List (WriterLabel replicas)} {last : ReplicaWriter replicas false Data}
    (run : Run step always (init store capNr) labels last) : last.CompletesOnce := by
  have tracks : last.Tracks := run.preserves
    (fun tracks _ edge => tracks_step tracks (tracks.onTime edge) edge) (tracks_init store capNr)
  exact tracks.completesOnce

/-- A store whose tree has an entry for every index. -/
def everywhere : PageStore Nat :=
  { (Machine.init 1 AlfQueue.maxPoolPages 4 4 : Machine 1 1 Nat Nat).store with
    gptPages := fun index => some ⟨some index, fun _ => false, 1⟩ }

/-- Two items in flight on two servers; the completions of each come in another order. -/
def twoItems : List (WriterLabel 1) :=
  let blocks : Fin 2 → Nat × Nat := fun j => (j, 0)
  [.start ⟨0, [0], 0⟩ blocks 0, .load 0 0, .load 0 1, .start ⟨1, [1], 0⟩ blocks 4096,
    .post 0 0, .post 0 1, .load 1 0, .load 1 1, .post 1 0, .writeDone ⟨1, 0, 1⟩,
    .post 1 1, .writeDone ⟨2, 1, 0⟩, .writeDone ⟨0, 0, 0⟩, .writeDone ⟨3, 1, 1⟩]

theorem completes_once_two : ∃ last : ReplicaWriter 1 false Nat,
    exec step (init everywhere 4) twoItems = some last ∧ last.CompletesOnce := by
  have ran : (exec step (init everywhere 4 : ReplicaWriter 1 false Nat) twoItems).isSome =
      true := by
    decide +kernel
  obtain ⟨last, ran⟩ := Option.isSome_iff_exists.mp ran
  exact ⟨last, ran, completes_once (run_of_exec ran)⟩

/-! ## With a disk backup -/

/-- No completion given up is forgotten. -/
def KeepsDropped (s next : ReplicaWriter replicas diskbackup Data) : Prop :=
  ∀ item, (s.flights item).dropped ≤ (next.flights item).dropped

theorem KeepsDropped.trans {mid : ReplicaWriter replicas diskbackup Data}
    (first : s.KeepsDropped mid) (second : mid.KeepsDropped next) : s.KeepsDropped next :=
  fun item => (first item).trans (second item)

theorem keeps_of_update {item : Nat} {flight : Flight replicas}
    (flights : next.flights = Function.update s.flights item flight)
    (more : (s.flights item).dropped ≤ flight.dropped) : s.KeepsDropped next := by
  intro other
  rw [flights]
  rcases eq_or_ne other item with rfl | different
  · rw [Function.update_self]
    exact more
  · rw [Function.update_of_ne different]

theorem releaseCtx_keeps {ctx : Nat} (ran : s.releaseCtx ctx = .ok next) :
    s.KeepsDropped next := by
  unfold releaseCtx putRdmaFreepool at ran
  split at ran
  · cases ran
  · cases ran
    exact keeps_of_update rfl le_rfl

theorem finishItem_keeps {item : Nat} {tmp : LocalPageList}
    (ran : s.finishItem item tmp = .ok next) : s.KeepsDropped next := by
  obtain ⟨store, _, last⟩ := bind_eq_ok.mp ran
  cases last
  have mark : s.KeepsDropped ({ s with store := store }.modifyFlight item fun flight =>
      { flight with marked := flight.marked + 1 }) := keeps_of_update rfl le_rfl
  exact mark.trans (keeps_of_update rfl le_rfl)

theorem writeDonePostwork_keeps {write : PostedWrite replicas}
    (ran : s.writeDonePostwork write = .ok next) : s.KeepsDropped next := by
  unfold writeDonePostwork at ran
  dsimp only at ran
  split at ran
  · split at ran
    · cases ran
    · split at ran
      · cases ran
        exact fun _ => le_rfl
      · split at ran
        · obtain ⟨mid, finishes, more⟩ := bind_eq_ok.mp ran
          have finish : s.KeepsDropped mid := fun other => finishItem_keeps finishes other
          refine finish.trans ?_
          split at more
          · split at more
            · cases more
            · obtain ⟨mid', first, second⟩ := bind_eq_ok.mp more
              exact (releaseCtx_keeps first).trans (releaseCtx_keeps second)
          · exact releaseCtx_keeps more
        · exact fun other => releaseCtx_keeps ran other
  · cases ran
    exact keeps_of_update rfl (Nat.le_succ _)

theorem stackbdEndIoPostwork_keeps {bio : QueuedBio}
    (ran : s.stackbdEndIoPostwork bio = .ok next) : s.KeepsDropped next := by
  unfold stackbdEndIoPostwork at ran
  dsimp only at ran
  split at ran
  · split at ran
    · cases ran
    · split at ran
      · cases ran
        exact fun _ => le_rfl
      · obtain ⟨mid, finishes, more⟩ := bind_eq_ok.mp ran
        have finish : s.KeepsDropped mid := fun other => finishItem_keeps finishes other
        exact finish.trans (releaseCtx_keeps more)
  · cases ran
    exact keeps_of_update rfl (Nat.le_succ _)

theorem step_keepsDropped {label : WriterLabel replicas} (edge : s.step label = some next) :
    s.KeepsDropped next := by
  cases label with
  | start tmp blocks offset =>
      obtain ⟨_, edge⟩ := Option.ite_none_right_eq_some.mp edge
      cases edge
      exact fun _ => le_rfl
  | load item j =>
      obtain ⟨_, loads⟩ := Option.ite_none_right_eq_some.mp edge
      obtain ⟨_, _, _, _, _, _, _, _, _, _, _, _, _, flights, _⟩ := load_spec loads
      intro other
      rw [flights]
  | diskWrite item =>
      obtain ⟨_, edge⟩ := Option.ite_none_right_eq_some.mp edge
      cases edge
      exact fun _ => le_rfl
  | post item j =>
      obtain ⟨_, edge⟩ := Option.ite_none_right_eq_some.mp edge
      cases edge
      exact fun _ => le_rfl
  | writeDone write =>
      obtain ⟨_, ran⟩ := Option.ite_none_right_eq_some.mp edge
      have note : s.KeepsDropped (s.noteWrite write) := keeps_of_update rfl le_rfl
      exact note.trans (writeDonePostwork_keeps (toOption_eq_some ran))
  | diskDone bio =>
      obtain ⟨_, ran⟩ := Option.ite_none_right_eq_some.mp edge
      have note : s.KeepsDropped (s.noteBio bio) := keeps_of_update rfl le_rfl
      exact note.trans (stackbdEndIoPostwork_keeps (toOption_eq_some ran))

theorem run_keepsDropped {labels : List (WriterLabel replicas)}
    {last : ReplicaWriter replicas diskbackup Data} (run : Run step always s labels last) :
    s.KeepsDropped last := by
  induction run with
  | refl => exact fun _ => le_rfl
  | head _ edge _ ih => exact (step_keepsDropped edge).trans ih

/-- The completion of a bio that is early is given up. -/
theorem Tracks.drops {label : WriterLabel replicas} (tracks : s.Tracks)
    (notOnTime : ¬ OnTime s label) (edge : s.step label = some next) :
    ∃ item, 0 < (next.flights item).dropped := by
  cases label with
  | diskDone bio =>
      obtain ⟨member, ran⟩ := Option.ite_none_right_eq_some.mp edge
      rw [tracks.early member (Nat.eq_zero_of_not_pos notOnTime)] at ran
      cases ran
      refine ⟨bio.item, ?_⟩
      unfold drop
      rw [modifyFlight_flights, Function.update_self]
      exact Nat.succ_pos _
  | _ => exact absurd trivial notOnTime

/-- A run in which no completion is given up has no bio that is early. -/
theorem Tracks.onTime_of_kept {labels : List (WriterLabel replicas)}
    {last : ReplicaWriter replicas diskbackup Data} (run : Run step always s labels last)
    (tracks : s.Tracks) (kept : ∀ item, (last.flights item).dropped = 0) :
    Run step OnTime s labels last := by
  induction run with
  | refl => exact .refl _
  | @head first middle last label rest _ edge tail ih =>
      have onTime : OnTime first label := by
        by_contra notOnTime
        obtain ⟨item, some_⟩ := tracks.drops notOnTime edge
        have still := run_keepsDropped tail item
        rw [kept item] at still
        omega
      exact .head onTime edge (ih (tracks_step tracks onTime edge) kept)

/-- With a disk backup every item is freed once in just the runs in which no bio comes back before
the write to the primary is posted. -/
theorem completes_once_iff {store : PageStore Data} {capNr : Nat}
    {labels : List (WriterLabel replicas)} {last : ReplicaWriter replicas true Data}
    (run : Run step always (init store capNr) labels last) :
    last.CompletesOnce ↔ Run step OnTime (init store capNr) labels last := by
  constructor
  · intro completes
    exact (tracks_init store capNr).onTime_of_kept run completes.dropped
  · intro timed
    have tracks : last.Tracks := timed.preserves
      (fun tracks onTime edge => tracks_step tracks onTime edge) (tracks_init store capNr)
    exact tracks.completesOnce

/-- One item; the bio comes back when the write is posted. -/
def bioOnTime : List (WriterLabel 0) :=
  [.start ⟨0, [0], 0⟩ (fun _ => (0, 0)) 0, .load 0 0, .diskWrite 0, .post 0 0,
    .diskDone ⟨0, 0⟩, .writeDone ⟨0, 0, 0⟩]

theorem completes_once_onTime : ∃ last : ReplicaWriter 0 true Nat,
    exec step (init everywhere 4) bioOnTime = some last ∧ last.CompletesOnce := by
  have ran : (exec (guardedStep step OnTime) (init everywhere 4 : ReplicaWriter 0 true Nat)
      bioOnTime).isSome = true := by
    decide +kernel
  obtain ⟨last, ran⟩ := Option.isSome_iff_exists.mp ran
  have timed := run_of_guarded ran
  have run := timed.mono fun _ _ _ => trivial
  exact ⟨last, timed.exec_eq, (completes_once_iff run).mpr timed⟩

/-- The same item; the bio comes back before the write is posted. -/
def bioEarly : List (WriterLabel 0) :=
  [.start ⟨0, [0], 0⟩ (fun _ => (0, 0)) 0, .load 0 0, .diskWrite 0, .diskDone ⟨0, 0⟩,
    .post 0 0, .writeDone ⟨0, 0, 0⟩]

/-- Both completions were handled and the item is not freed. -/
theorem bioEarly_keeps_item : ¬ ∀ (labels : List (WriterLabel 0))
    (last : ReplicaWriter 0 true Nat), Run step always (init everywhere 4) labels last →
      last.CompletesOnce := by
  intro claim
  have stuck : ((exec step (init everywhere 4 : ReplicaWriter 0 true Nat) bioEarly).map
      fun last => ((last.flights 0).finished true, (last.flights 0).freed)) =
        some (true, 0) := by
    decide +kernel
  obtain ⟨last, ran, stuck⟩ := Option.map_eq_some_iff.mp stuck
  obtain ⟨finished, freed⟩ := Prod.mk.inj stuck
  have once := (claim bioEarly last (run_of_exec ran)).freed 0
  rw [finished, freed] at once
  cases once

end ReplicaWriter

end Valet.Bd
