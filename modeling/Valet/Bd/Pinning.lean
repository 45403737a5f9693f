import Valet.Bd.DataSteps
import Valet.Library.Runs

/-!
# Pages with a pending write are not reclaimed

`ref_count` starts at zero for a new entry and counts only the overwrites, so
it lags one behind the outstanding items as long as the write that created the
entry is on its way.  While nobody overwrites such an entry, `ref_count` or the
entry's absence from the reclaim list covers every outstanding item.
-/

namespace Valet.Bd

open Valet.Library

namespace PageStore

variable {Data : Type}

/-- What holds of an entry that `pending` outstanding items list. -/
structure EntryPinned (pending : Nat) (entry : TreeEntry) : Prop where
  nonneg : 0 ≤ entry.refCount
  counted : 0 < entry.refCount → entry.testFlag .updating = true
  covered : (pending : Int) ≤ entry.refCount ∨ (pending = 1 ∧ entry.refCount = 0)
  here : 0 < pending → entry.page.isSome

/-- The page store with `pending index` outstanding mentions of each entry. -/
structure Pinned (s : PageStore Data) (pending : Nat → Nat) : Prop where
  listSound : s.reclaimList.Sound
  listed : ∀ index ∈ s.reclaimList.contents, ∃ entry, s.gptPages index = some entry ∧
    (pending index : Int) ≤ entry.refCount
  entries : ∀ index entry, s.gptPages index = some entry → EntryPinned (pending index) entry
  absent : ∀ index, s.gptPages index = none → pending index = 0

theorem EntryPinned.mono {pending fewer : Nat} {entry : TreeEntry} (le : fewer ≤ pending)
    (pinned : EntryPinned pending entry) : EntryPinned fewer entry where
  nonneg := pinned.nonneg
  counted := pinned.counted
  covered := by
    have nonneg := pinned.nonneg
    have covered := pinned.covered
    omega
  here := fun positive => pinned.here (Nat.lt_of_lt_of_le positive le)

/-- Items may get lost. -/
theorem Pinned.mono {s : PageStore Data} {pending fewer : Nat → Nat}
    (le : ∀ index, fewer index ≤ pending index) (pinned : Pinned s pending) :
    Pinned s fewer where
  listSound := pinned.listSound
  listed := by
    intro index member
    obtain ⟨entry, found, bound⟩ := pinned.listed index member
    have := le index
    exact ⟨entry, found, by omega⟩
  entries := fun index entry found => (pinned.entries index entry found).mono (le index)
  absent := by
    intro index none
    have := pinned.absent index none
    have := le index
    omega

/-- An idle entry on the reclaim list is in no outstanding item. -/
theorem Pinned.free {s : PageStore Data} {pending : Nat → Nat} {index : Nat} {entry : TreeEntry}
    (pinned : Pinned s pending) (member : index ∈ s.reclaimList.contents)
    (found : s.gptPages index = some entry) (idle : entry.testFlag .updating = false) :
    entry.refCount = 0 ∧ pending index = 0 := by
  obtain ⟨other, same, bound⟩ := pinned.listed index member
  rw [found] at same
  cases same
  have nonneg := (pinned.entries index entry found).nonneg
  have counted := (pinned.entries index entry found).counted
  rw [idle] at counted
  have zero : entry.refCount = 0 := by
    by_contra nonzero
    cases counted (by omega)
  exact ⟨zero, by omega⟩

theorem Pinned.drains {s next : PageStore Data} {pending : Nat → Nat} (pinned : Pinned s pending)
    (drains : Drains s next) : Pinned next pending where
  listSound := drains.sound pinned.listSound
  listed := by
    intro index member
    have before := drains.mem member
    obtain ⟨entry, found, bound⟩ := pinned.listed index before
    obtain ⟨still, later, kept⟩ := drains.later found
    cases kept with
    | same => exact ⟨entry, later, bound⟩
    | emptied idle _ => exact ⟨_, later, bound⟩
  entries := by
    intro index still later
    obtain ⟨entry, found, kept⟩ := drains.before later
    have before := pinned.entries index entry found
    cases kept with
    | same => exact before
    | emptied idle member =>
        obtain ⟨zero, none⟩ := pinned.free member found idle
        rw [none]
        refine ⟨before.nonneg, ?_, Or.inl before.nonneg, fun bad => absurd bad (Nat.lt_irrefl 0)⟩
        intro positive
        have same : entry.refCount = 0 := zero
        simp only [TreeEntry.emptied_refCount, same] at positive
        omega
  absent := by
    intro index later
    exact pinned.absent index (drains.absent.mp later)

/-- Writing one entry and its count. -/
theorem Pinned.update {s : PageStore Data} {pending : Nat → Nat} {index count : Nat}
    {entry : TreeEntry} (pinned : Pinned s pending) (holds : EntryPinned count entry)
    (listed : index ∈ s.reclaimList.contents → (count : Int) ≤ entry.refCount) :
    Pinned { s with gptPages := Function.update s.gptPages index (some entry) }
      (Function.update pending index count) where
  listSound := pinned.listSound
  listed := by
    intro other member
    by_cases same : other = index
    · subst same
      exact ⟨entry, by simp, by simpa using listed member⟩
    · obtain ⟨found, isEntry, bound⟩ := pinned.listed other member
      exact ⟨found, by simpa [same] using isEntry, by simpa [same] using bound⟩
  entries := by
    intro other found isEntry
    by_cases same : other = index
    · subst same
      simp only [Function.update_self, Option.some.injEq] at isEntry ⊢
      subst isEntry
      exact holds
    · simp only [Function.update_of_ne same] at isEntry ⊢
      exact pinned.entries other found isEntry
  absent := by
    intro other none
    by_cases same : other = index
    · subst same
      simp at none
    · simp only [Function.update_of_ne same] at none ⊢
      exact pinned.absent other none

/-- Inserting a page for a write keeps the invariant when no outstanding item is uncounted. -/
theorem Pinned.inserts {s next : PageStore Data} {pending : Nat → Nat} {index : Nat}
    (pinned : Pinned s pending)
    (counted : ∀ entry, s.gptPages index = some entry → (pending index : Int) ≤ entry.refCount)
    (inserts : Inserts s index next) :
    Pinned next (Function.update pending index (pending index + 1)) := by
  cases inserts with
  | fresh absent ran =>
      have alloc := allocates_of_ok pinned.listSound ran
      have drained := pinned.drains alloc.drains
      have none := pinned.absent index absent
      have unlisted : index ∉ s.reclaimList.contents := by
        intro member
        obtain ⟨entry, found, _⟩ := pinned.listed index member
        rw [absent] at found
        cases found
      apply drained.update
      · exact ⟨le_refl _, fun positive => absurd positive (lt_irrefl _), Or.inr ⟨by omega, rfl⟩,
          fun _ => rfl⟩
      · exact fun member => absurd (alloc.drains.mem member) unlisted
  | @held entry page found here =>
      have before := pinned.entries index entry found
      have bound := counted entry found
      apply pinned.update
      · refine ⟨?_, fun _ => by simp, Or.inl ?_, fun _ => by simp [here]⟩
        · have nonneg := before.nonneg
          rw [TreeEntry.beginWrite_refCount]
          omega
        · rw [TreeEntry.beginWrite_refCount]
          omega
      · intro _
        rw [TreeEntry.beginWrite_refCount]
        omega
  | @refilled entry later page middle found gone ran still =>
      have alloc := allocates_of_ok pinned.listSound ran
      have drained := pinned.drains alloc.drains
      have kept := alloc.drains.entries index
      rw [found, still] at kept
      have same := kept.refCount
      have nonneg := (pinned.entries index entry found).nonneg
      have bound := counted entry found
      apply drained.update
      · refine ⟨?_, fun _ => by simp, Or.inl ?_, fun _ => by simp⟩
        · rw [TreeEntry.beginWrite_refCount]
          dsimp only
          omega
        · rw [TreeEntry.beginWrite_refCount]
          dsimp only
          omega
      · intro _
        rw [TreeEntry.beginWrite_refCount]
        dsimp only
        omega

/-- The loop of `write_to_brd` over distinct pages. -/
theorem Pinned.insertsAll {s next : PageStore Data} {pending : Nat → Nat} {indices : List Nat}
    (pinned : Pinned s pending) (distinct : indices.Nodup)
    (counted : ∀ index ∈ indices, ∀ entry, s.gptPages index = some entry →
      (pending index : Int) ≤ entry.refCount)
    (all : InsertsAll s indices next) :
    Pinned next fun index => pending index + indices.count index := by
  induction all generalizing pending with
  | nil => exact pinned
  | @cons s middle next index rest inserts tail ih =>
      rw [List.nodup_cons] at distinct
      have first := pinned.inserts (counted index List.mem_cons_self) inserts
      have later := ih first distinct.2 ?_
      · convert later using 2 with other
        by_cases same : other = index
        · subst same
          simp
          omega
        · simp [same, Ne.symm same]
      · intro other member entry found
        have different : other ≠ index := by
          rintro rfl
          exact distinct.1 member
        have kept := inserts.others pinned.listSound different
        rw [Function.update_of_ne different]
        cases before : s.gptPages other with
        | none =>
            rw [before, found] at kept
            cases kept
        | some earlier =>
            rw [before, found] at kept
            rw [kept.refCount]
            exact counted other (List.mem_cons_of_mem _ member) earlier before

theorem Pinned.queue {s : PageStore Data} {pending : Nat → Nat} {index : Nat}
    {entry : TreeEntry} {queue : AlfQueue Nat} (pinned : Pinned s pending)
    (found : s.gptPages index = some entry) (bound : (pending index : Int) ≤ entry.refCount)
    (put : s.reclaimList.alfMpEnqueue index = some queue) :
    Pinned { s with reclaimList := queue } pending where
  listSound := pinned.listSound.enqueue put
  listed := by
    intro other member
    rcases pinned.listSound.mem_enqueue put member with old | rfl
    · exact pinned.listed other old
    · exact ⟨entry, found, bound⟩
  entries := pinned.entries
  absent := pinned.absent

/-- One completion leaves the entry covered by its count. -/
theorem EntryPinned.finish {pending : Nat} {entry : TreeEntry}
    (pinned : EntryPinned pending entry) :
    EntryPinned (pending - 1) entry.finishWrite ∧
      ((pending - 1 : Nat) : Int) ≤ entry.finishWrite.refCount := by
  have covered := pinned.covered
  have bound : ((pending - 1 : Nat) : Int) ≤ entry.finishWrite.refCount := by
    rw [TreeEntry.finishWrite_refCount]
    omega
  refine ⟨⟨?_, ?_, Or.inl bound, ?_⟩, bound⟩
  · rw [TreeEntry.finishWrite_refCount]
    exact le_max_right _ _
  · intro positive
    rw [TreeEntry.finishWrite_refCount] at positive
    have many : 1 < entry.refCount := by omega
    simp [many, pinned.counted (by omega)]
  · intro positive
    rw [TreeEntry.finishWrite_page]
    exact pinned.here (by omega)

theorem EntryPinned.setFlag {pending : Nat} {entry : TreeEntry} (flag : EntryFlag)
    (pinned : EntryPinned pending entry) : EntryPinned pending (entry.setFlag flag) where
  nonneg := pinned.nonneg
  counted := by
    intro positive
    rw [TreeEntry.testFlag_setFlag, pinned.counted positive, Bool.or_true]
  covered := pinned.covered
  here := pinned.here

theorem Pinned.finishes {s next : PageStore Data} {pending : Nat → Nat} {index : Nat}
    (pinned : Pinned s pending) (finishes : FinishesEntry s index next) :
    Pinned next (Function.update pending index (pending index - 1)) := by
  cases finishes with
  | listed found flagged =>
      obtain ⟨after, bound⟩ := (pinned.entries index _ found).finish
      exact pinned.update after fun _ => bound
  | @queued entry queue found fresh put =>
      obtain ⟨after, bound⟩ := (pinned.entries index _ found).finish
      have updated := pinned.update (after.setFlag .reclaimable)
        fun (_ : index ∈ s.reclaimList.contents) => bound
      exact updated.queue (Function.update_self ..) (by simpa using bound) put
  | full found fresh put =>
      obtain ⟨after, bound⟩ := (pinned.entries index _ found).finish
      exact pinned.update (after.setFlag .reclaimable) fun _ => bound

theorem Pinned.finishesAll {s next : PageStore Data} {pending : Nat → Nat} {indices : List Nat}
    (pinned : Pinned s pending) (all : FinishesAll s indices next) :
    Pinned next fun index => pending index - indices.count index := by
  induction all generalizing pending with
  | nil => exact pinned
  | @cons s middle next index rest finishes tail ih =>
      have later := ih (pinned.finishes finishes)
      convert later using 2 with other
      by_cases same : other = index
      · subst same
        simp
        omega
      · simp [same, Ne.symm same]

/-- An entry whose page reclaim cannot take. -/
def Protected (s : PageStore Data) (index page : Nat) : Prop :=
  ∃ entry, s.gptPages index = some entry ∧ entry.page = some page ∧
    (entry.testFlag .updating = true ∨ index ∉ s.reclaimList.contents)

theorem Protected.pageOf {s : PageStore Data} {index page : Nat}
    (safe : Protected s index page) : s.pageOf (some index) = some page := by
  obtain ⟨entry, found, here, _⟩ := safe
  simp [PageStore.pageOf, found, here]

theorem Pinned.safe {s : PageStore Data} {pending : Nat → Nat} {index : Nat}
    (pinned : Pinned s pending) (positive : 0 < pending index) :
    ∃ page, Protected s index page := by
  cases found : s.gptPages index with
  | none =>
      have := pinned.absent index found
      omega
  | some entry =>
      have holds := pinned.entries index entry found
      obtain ⟨page, here⟩ := Option.isSome_iff_exists.mp (holds.here positive)
      refine ⟨page, entry, found, here, ?_⟩
      by_cases member : index ∈ s.reclaimList.contents
      · obtain ⟨other, same, bound⟩ := pinned.listed index member
        rw [found] at same
        cases same
        exact Or.inl (holds.counted (by omega))
      · exact Or.inr member

theorem Protected.drains {s next : PageStore Data} {index page : Nat}
    (safe : Protected s index page) (drains : Drains s next) : Protected next index page := by
  obtain ⟨entry, found, here, guarded⟩ := safe
  obtain ⟨still, later, kept⟩ := drains.later found
  cases kept with
  | same => exact ⟨entry, later, here, guarded.imp id fun out member => out (drains.mem member)⟩
  | emptied idle member =>
      rcases guarded with busy | out
      · rw [idle] at busy
        cases busy
      · exact absurd member out

theorem Protected.inserts {s next : PageStore Data} {index other page : Nat}
    (safe : Protected s index page) (sound : s.reclaimList.Sound)
    (inserts : Inserts s other next) : Protected next index page := by
  by_cases same : index = other
  · subst same
    obtain ⟨entry, found, here, guarded⟩ := safe
    cases inserts with
    | fresh absent alloc =>
        rw [found] at absent
        cases absent
    | held again filled =>
        rw [found] at again
        cases again
        exact ⟨_, Function.update_self .., by simpa using here, Or.inl (by simp)⟩
    | refilled again gone alloc still =>
        rw [found] at again
        cases again
        rw [here] at gone
        cases gone
  · cases inserts with
    | fresh absent alloc =>
        obtain ⟨entry, found, here, guarded⟩ := safe.drains (allocates_of_ok sound alloc).drains
        exact ⟨entry, by simpa [same] using found, here, guarded⟩
    | held again filled =>
        obtain ⟨entry, found, here, guarded⟩ := safe
        exact ⟨entry, by simpa [same] using found, here, guarded⟩
    | refilled again gone alloc still =>
        obtain ⟨entry, found, here, guarded⟩ := safe.drains (allocates_of_ok sound alloc).drains
        exact ⟨entry, by simpa [same] using found, here, guarded⟩

theorem Protected.insertsAll {s next : PageStore Data} {index page : Nat} {indices : List Nat}
    (safe : Protected s index page) (sound : s.reclaimList.Sound)
    (all : InsertsAll s indices next) : Protected next index page := by
  induction all with
  | nil => exact safe
  | cons inserts tail ih => exact ih (safe.inserts sound inserts) (inserts.sound sound)

end PageStore

namespace Machine

variable {cpus servers : Nat} {Data Req : Type} [Inhabited Data]
  {m next : Machine cpus servers Data Req} {label : DataLabel cpus servers Data Req}

/-- The write overwrites no entry that the write which created it has not left yet: all
outstanding mentions of an entry that it finds are counted. -/
def OverwritesCounted (m : Machine cpus servers Data Req) :
    DataLabel cpus servers Data Req → Prop
  | .write _ req => ∀ index ∈ req.indices, ∀ entry ∈ m.store.gptPages index,
      (m.pending index : Int) ≤ entry.refCount
  | _ => True

instance (m : Machine cpus servers Data Req) (label : DataLabel cpus servers Data Req) :
    Decidable (OverwritesCounted m label) :=
  match label with
  | .write _ req => inferInstanceAs (Decidable (∀ index ∈ req.indices,
      ∀ entry ∈ m.store.gptPages index, (m.pending index : Int) ≤ entry.refCount))
  | .call _ | .fetch _ | .send _ _ | .land _ | .complete _ | .reclaim | .read _ _ _ =>
      isTrue trivial

/-- The condition under which `ref_count` protects pending pages. -/
def CountedStep (m : Machine cpus servers Data Req)
    (label : DataLabel cpus servers Data Req) : Prop :=
  OverwritesCounted m label ∧ RingRoom m label

instance (m : Machine cpus servers Data Req) (label : DataLabel cpus servers Data Req) :
    Decidable (CountedStep m label) := inferInstanceAs (Decidable (_ ∧ _))

structure PinnedState (m : Machine cpus servers Data Req) : Prop where
  ready : m.sendingList.Ready
  pinned : m.store.Pinned m.pending

theorem pinnedState_init (minPoolPages writeCapNr readCapNr : Nat) :
    PinnedState (init minPoolPages AlfQueue.maxPoolPages writeCapNr readCapNr :
      Machine cpus servers Data Req) where
  ready := AlfQueue.ready_alloc
  pinned :=
    { listSound := AlfQueue.ready_alloc.sound
      listed := by
        intro index member
        simp [init] at member
      entries := by
        intro index entry found
        cases found
      absent := by
        intro index _
        simp [init, pending, outstanding, unposted, posted, Sender.items, Channel.writes] }

/-- The effects that one step has on the page store keep pending pages pinned. -/
theorem PinnedState.effect (state : PinnedState m) (readyNext : next.sendingList.Ready)
    (counted : OverwritesCounted m label) (effect : Effect m label next) :
    PinnedState next := by
  refine ⟨readyNext, ?_⟩
  have pinned := state.pinned
  cases effect with
  | @wrote env req middle pages _ inserted located stored pending =>
      have distinct : req.indices.Nodup := List.nodup_range'
      have all := PageStore.insertsAll_of_some pinned.listSound inserted
      have after := pinned.insertsAll distinct counted all
      rw [stored, funext pending]
      exact ⟨after.listSound, after.listed, after.entries, after.absent⟩
  | finished head sendingItem all pending =>
      apply (pinned.finishesAll all).mono
      intro index
      have := pending index
      unfold LocalPageList.mentions at this
      omega
  | @reclaimed element middle _ reclaims stored pending =>
      have after := pinned.drains reclaims.drains
      rw [stored, funext pending]
      cases element with
      | none => exact after
      | some page => exact ⟨after.listSound, after.listed, after.entries, after.absent⟩
  | sent holds stored pending =>
      rw [stored]
      apply pinned.mono
      intro index
      have := pending index
      omega
  | moved stored pending =>
      rw [stored, funext pending]
      exact pinned

theorem PinnedState.step (state : PinnedState m) (guard : CountedStep m label)
    (edge : m.step label = some next) : PinnedState next := by
  have outcome := outcome_of_step state.ready state.pinned.listSound edge
  obtain ⟨readyNext, effect⟩ := outcome.effect state.ready guard.2
  exact state.effect readyNext guard.1 effect

theorem PinnedState.run {labels : List (DataLabel cpus servers Data Req)}
    (state : PinnedState m) (run : Run Machine.step CountedStep m labels next) :
    PinnedState next :=
  run.preserves (fun state guard edge => state.step guard edge) state

/-- In a pinned state no step moves a page whose entry is listed by an outstanding item. -/
theorem PinnedState.keeps (state : PinnedState m) (edge : m.step label = some next)
    {index : Nat} (positive : 0 < m.pending index) :
    next.store.pageOf (some index) = m.store.pageOf (some index) := by
  obtain ⟨page, safe⟩ := state.pinned.safe positive
  rw [safe.pageOf]
  have outcome := outcome_of_step state.ready state.pinned.listSound edge
  cases outcome with
  | write writes =>
      cases writes with
      | queued inserted located put =>
          have all := PageStore.insertsAll_of_some state.pinned.listSound inserted
          exact (safe.insertsAll state.pinned.listSound all).pageOf
  | call => exact safe.pageOf
  | fetch holds fetches => cases fetches <;> exact safe.pageOf
  | send holds sends =>
      rw [sends.store_eq]
      exact safe.pageOf
  | land => exact safe.pageOf
  | complete handles =>
      cases handles with
      | wrote completes sendingItem rb all =>
          have same := all.pageOf index
          rw [safe.pageOf] at same
          exact same
      | fetched => exact safe.pageOf
  | @reclaim element middle reclaims =>
      have after := (safe.drains reclaims.drains).pageOf
      cases element <;> exact after
  | read reads => cases reads <;> exact safe.pageOf

/-- Every entry that an outstanding item lists has its page, and no step, in particular no
reclaim, takes it away. -/
def PagesStay (m : Machine cpus servers Data Req) : Prop :=
  (∀ item ∈ m.outstanding, ∀ index ∈ item.batchList, (m.store.pageOf (some index)).isSome) ∧
    ∀ label next, m.step label = some next → ∀ item ∈ m.outstanding, ∀ index ∈ item.batchList,
      next.store.pageOf (some index) = m.store.pageOf (some index)

theorem PinnedState.pagesStay (state : PinnedState m) : PagesStay m := by
  constructor
  · intro item member index listed
    obtain ⟨page, safe⟩ := state.pinned.safe (pending_pos.mpr ⟨item, member, listed⟩)
    rw [safe.pageOf]
    rfl
  · intro label next edge item member index listed
    exact state.keeps edge (pending_pos.mpr ⟨item, member, listed⟩)

/-- From an empty page table, as long as no write overwrites an entry whose creating write is
outstanding and the sending list stays within the reach of its ring, pending pages stay. -/
theorem pending_pages_stay {minPoolPages writeCapNr readCapNr : Nat}
    {labels : List (DataLabel cpus servers Data Req)} {last : Machine cpus servers Data Req}
    (run : Run Machine.step CountedStep
      (init minPoolPages AlfQueue.maxPoolPages writeCapNr readCapNr) labels last) :
    PagesStay last :=
  ((pinnedState_init minPoolPages writeCapNr readCapNr).run run).pagesStay

end Machine

/-- A request for one page. -/
def pageRequest (index : Nat) (buffer : Nat) (inside : index + 1 ≤ devicePages) :
    WriteRequest Nat where
  startIndex := index
  buffers := [buffer]
  nonempty := Nat.one_pos
  fits := by
    show 1 ≤ rdmaWrBufLen
    decide
  inDevice := inside

theorem zero_inside : 0 + 1 ≤ devicePages := by decide

theorem one_inside : 1 + 1 ≤ devicePages := by decide

/-- Allocations succeed. -/
def allocated : Nat → AllocEnv := fun _ => ⟨true, true⟩

/-- Every swapspace is on block 0 of the only server, which is active. -/
def oneBlock : Nat → Option (Target 1) := fun _ => some ⟨0, 0, .active, true⟩

namespace Machine

/-- Write page 0, let the write complete, and write page 0 again. -/
def calmOverwrite : List (DataLabel 2 1 Nat Nat) :=
  [.write allocated (pageRequest 0 7 zero_inside), .call 0, .fetch 0, .fetch 0, .send 0 oneBlock,
    .land 0, .complete 0, .write allocated (pageRequest 0 8 zero_inside)]

theorem pending_pages_stay_calm :
    ∃ last, exec Machine.step (init 1 AlfQueue.maxPoolPages 4 4) calmOverwrite = some last ∧
      PagesStay last := by
  have ran : (exec (guardedStep Machine.step CountedStep)
      (init 1 AlfQueue.maxPoolPages 4 4) calmOverwrite).isSome = true := by
    decide +kernel
  obtain ⟨last, guarded⟩ := Option.isSome_iff_exists.mp ran
  have run := run_of_guarded guarded
  exact ⟨last, run.exec_eq, pending_pages_stay run⟩

/-- Write page 0, send the item, and write page 0 again before the first write completes; then
let it complete and, with the pool exhausted, write page 1. -/
def overwriteRace : List (DataLabel 2 1 Nat Nat) :=
  [.write allocated (pageRequest 0 7 zero_inside), .call 0, .fetch 0, .fetch 0, .send 0 oneBlock,
    .write allocated (pageRequest 0 8 zero_inside), .land 0, .complete 0,
    .write allocated (pageRequest 1 9 one_inside)]

/-- Some outstanding item lists an entry without a page. -/
def strandsItem (m : Machine cpus servers Data Req) : Bool :=
  m.outstanding.any fun item =>
    item.batchList.any fun index => (m.store.pageOf (some index)).isNone

/-- The first completion drops the count to zero although the second write is pending, and the
allocation takes its page. -/
theorem overwriteRace_takes_page : ¬ ∀ (labels : List (DataLabel 2 1 Nat Nat))
    (last : Machine 2 1 Nat Nat),
    Run Machine.step always (init 1 AlfQueue.maxPoolPages 4 4) labels last → PagesStay last := by
  intro claim
  have strands : ((exec Machine.step (init 1 AlfQueue.maxPoolPages 4 4) overwriteRace).map
      strandsItem) = some true := by
    decide +kernel
  obtain ⟨last, ran, strands⟩ := Option.map_eq_some_iff.mp strands
  obtain ⟨item, member, listed⟩ := List.any_eq_true.mp strands
  obtain ⟨index, mentioned, gone⟩ := List.any_eq_true.mp listed
  have here := (claim overwriteRace last (run_of_exec ran)).1 item member index mentioned
  rw [Option.isNone_iff_eq_none] at gone
  rw [gone] at here
  cases here

end Machine

end Valet.Bd
