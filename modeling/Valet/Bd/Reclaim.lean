import Valet.Bd.Pinning

/-!
# Every idle page stays reclaimable

A reclaim attempt takes the oldest entry off the reclaim list before it looks
at `UPDATING`, and returns without putting it back or clearing `RECLAIMABLE`.
Such an entry is never listed again.  As long as no attempt meets an entry that
is being updated, the flag and the list agree, every idle page is listed, and
an allocation ends once all writes have completed.
-/

namespace Valet.Bd

open Valet.Library

namespace PageStore

variable {Data : Type}

def Flagged (s : PageStore Data) (index : Nat) : Prop :=
  ∃ entry, s.gptPages index = some entry ∧ entry.testFlag .reclaimable = true

/-- What the count of an entry says about its outstanding mentions. -/
structure EntryCounted (pending : Nat) (entry : TreeEntry) : Prop where
  nonneg : 0 ≤ entry.refCount
  counted : entry.refCount ≤ pending
  updating : entry.testFlag .updating = true → 0 < entry.refCount

/-- The reclaim list of a store with `pending index` outstanding mentions of each entry. -/
structure Listed (s : PageStore Data) (pending : Nat → Nat) : Prop where
  ready : s.reclaimList.Ready
  distinct : s.reclaimList.contents.Nodup
  flagged : ∀ index, s.Flagged index ↔ index ∈ s.reclaimList.contents
  waiting : ∀ index entry, s.gptPages index = some entry → entry.page.isSome →
    pending index = 0 → index ∈ s.reclaimList.contents
  entries : ∀ index entry, s.gptPages index = some entry → EntryCounted (pending index) entry

/-- The next entry that a reclaim attempt looks at is not being updated. -/
def HeadIdle (s : PageStore Data) : Prop :=
  ∀ index ∈ s.reclaimList.contents.head?, ∀ entry ∈ s.gptPages index,
    entry.testFlag .updating = false

instance (s : PageStore Data) : Decidable (HeadIdle s) :=
  inferInstanceAs (Decidable (∀ index ∈ s.reclaimList.contents.head?,
    ∀ entry ∈ s.gptPages index, entry.testFlag .updating = false))

/-- What holds after an attempt that yields no page. -/
def AfterVain (Holds : PageStore Data → Prop) :
    Except Halt (Option Nat × PageStore Data) → Prop
  | .ok (none, next) => Holds next
  | .ok (some _, _) => True
  | .error _ => True

/-- What holds after a call that returns. -/
def AfterCall (Holds : PageStore Data → Prop) :
    Except Halt (Option Nat × PageStore Data) → Prop
  | .ok (_, next) => Holds next
  | .error _ => True

instance (Holds : PageStore Data → Prop) [DecidablePred Holds]
    (result : Except Halt (Option Nat × PageStore Data)) : Decidable (AfterVain Holds result) :=
  match result with
  | .ok (none, next) => inferInstanceAs (Decidable (Holds next))
  | .ok (some _, _) => isTrue trivial
  | .error _ => isTrue trivial

instance (Holds : PageStore Data → Prop) [DecidablePred Holds]
    (result : Except Halt (Option Nat × PageStore Data)) : Decidable (AfterCall Holds result) :=
  match result with
  | .ok (_, next) => inferInstanceAs (Decidable (Holds next))
  | .error _ => isTrue trivial

/-- Every attempt of `valet_mempool_alloc` meets an idle entry. -/
def RepeatClean : Nat → PageStore Data → Prop
  | 0, _ => True
  | attempts + 1, s => s.HeadIdle ∧ AfterVain (RepeatClean attempts) s.valetMempoolReclaim

instance decidableRepeatClean : (attempts : Nat) →
    DecidablePred (RepeatClean attempts : PageStore Data → Prop)
  | 0 => fun _ => isTrue trivial
  | attempts + 1 => fun s =>
      have : DecidablePred (RepeatClean attempts : PageStore Data → Prop) :=
        decidableRepeatClean attempts
      inferInstanceAs (Decidable (s.HeadIdle ∧
        AfterVain (RepeatClean attempts) s.valetMempoolReclaim))

def AllocClean (s : PageStore Data) : Prop :=
  s.pool.elements = [] → RepeatClean (s.reclaimList.alfQueueCount + 1) s

instance (s : PageStore Data) : Decidable (AllocClean s) :=
  inferInstanceAs (Decidable (_ → _))

/-- The allocation of `gpt_insert_page`, if it makes one, is clean. -/
def InsertClean (s : PageStore Data) (index : Nat) : Prop :=
  (s.pageOf (some index)).isSome ∨ AllocClean s

instance (s : PageStore Data) (index : Nat) : Decidable (InsertClean s index) :=
  inferInstanceAs (Decidable (_ ∨ _))

/-- All allocations of the loop of `write_to_brd` are clean. -/
def InsertsClean [Inhabited Data] (env : Nat → AllocEnv) : List Nat → PageStore Data → Prop
  | [], _ => True
  | index :: rest, s => s.InsertClean index ∧
      AfterCall (InsertsClean env rest) (gptInsertPage (env index) s index)

instance decidableInsertsClean [Inhabited Data] (env : Nat → AllocEnv) : (indices : List Nat) →
    DecidablePred (InsertsClean env indices : PageStore Data → Prop)
  | [] => fun _ => isTrue trivial
  | index :: rest => fun s =>
      have : DecidablePred (InsertsClean env rest : PageStore Data → Prop) :=
        decidableInsertsClean env rest
      inferInstanceAs (Decidable (s.InsertClean index ∧
        AfterCall (InsertsClean env rest) (gptInsertPage (env index) s index)))

/-- An entry that nothing outstanding mentions is idle. -/
theorem EntryCounted.idle {entry : TreeEntry} (counted : EntryCounted 0 entry) :
    entry.testFlag .updating = false := by
  by_contra busy
  have positive := counted.updating (by simpa using busy)
  have none := counted.counted
  omega

/-- A clean attempt takes the flag and the page of the entry that it takes off the list. -/
theorem Listed.reclaims {s next : PageStore Data} {pending : Nat → Nat} {element : Option Nat}
    (listed : Listed s pending) (clean : s.HeadIdle) (reclaims : Reclaims s element next) :
    Listed next pending := by
  cases reclaims with
  | nothing empty => exact listed
  | @skipped index entry queue popped found busy =>
      have idle := clean index (by rw [popped.contents]; rfl) entry found
      rw [busy] at idle
      cases idle
  | @taken index entry queue popped found idle =>
      have distinct := listed.distinct
      rw [popped.contents, List.nodup_cons] at distinct
      have rest {other : Nat} (different : other ≠ index) :
          other ∈ s.reclaimList.contents ↔ other ∈ queue.contents := by
        rw [popped.contents, List.mem_cons]
        exact or_iff_right different
      refine ⟨⟨popped.sound, ?_, ?_⟩, distinct.2, ?_, ?_, ?_⟩
      · rw [popped.mask]
        exact listed.ready.lowBits
      · rw [popped.size]
        exact listed.ready.big
      · intro other
        by_cases same : other = index
        · subst same
          refine iff_of_false ?_ distinct.1
          rintro ⟨later, isLater, flag⟩
          simp only [Function.update_self, Option.some.injEq] at isLater
          subst isLater
          simp at flag
        · rw [← rest same, ← listed.flagged other]
          simp only [Flagged, Function.update_of_ne same]
      · intro other later isLater here none
        by_cases same : other = index
        · subst same
          simp only [Function.update_self, Option.some.injEq] at isLater
          subst isLater
          cases here
        · simp only [Function.update_of_ne same] at isLater
          exact (rest same).mp (listed.waiting other later isLater here none)
      · intro other later isLater
        by_cases same : other = index
        · subst same
          simp only [Function.update_self, Option.some.injEq] at isLater
          subst isLater
          have before := listed.entries other entry found
          exact ⟨before.nonneg, before.counted, fun busy => by simp [idle] at busy⟩
        · simp only [Function.update_of_ne same] at isLater
          exact listed.entries other later isLater

theorem Listed.reclaimRepeat {s next : PageStore Data} {pending : Nat → Nat}
    {attempts page : Nat} (listed : Listed s pending) (clean : RepeatClean attempts s)
    (ran : PageStore.reclaimRepeat attempts s = .ok (page, next)) : Listed next pending := by
  induction attempts generalizing s with
  | zero => cases ran
  | succ attempts ih =>
      obtain ⟨⟨element, middle⟩, attempt, rest⟩ := bind_eq_ok.mp ran
      obtain ⟨idle, later⟩ := clean
      have after := listed.reclaims idle (reclaims_of_ok listed.ready.sound attempt)
      rw [attempt] at later
      cases element with
      | none => exact ih after later rest
      | some found =>
          cases rest
          exact after

theorem Listed.alloc {s next : PageStore Data} {pending : Nat → Nat} {page : Nat}
    (listed : Listed s pending) (clean : AllocClean s)
    (ran : s.valetMempoolAlloc = .ok (page, next)) : Listed next pending := by
  unfold valetMempoolAlloc Mempool.valetRemoveElement at ran
  cases elements : s.pool.elements with
  | cons element rest =>
      rw [elements] at ran
      cases ran
      exact ⟨listed.ready, listed.distinct, listed.flagged, listed.waiting, listed.entries⟩
  | nil =>
      rw [elements] at ran
      exact listed.reclaimRepeat (clean elements) ran

theorem flagged_iff {s : PageStore Data} {index : Nat} {entry : TreeEntry}
    (found : s.gptPages index = some entry) :
    s.Flagged index ↔ entry.testFlag .reclaimable = true := by
  constructor
  · rintro ⟨other, same, flag⟩
    rw [found] at same
    cases same
    exact flag
  · exact fun flag => ⟨entry, found, flag⟩

/-- Writing one entry and its count, with the flag that fits the list. -/
theorem Listed.update {s : PageStore Data} {pending : Nat → Nat} {index count : Nat}
    {entry : TreeEntry} (listed : Listed s pending)
    (flag : entry.testFlag .reclaimable = true ↔ index ∈ s.reclaimList.contents)
    (waiting : entry.page.isSome → count = 0 → index ∈ s.reclaimList.contents)
    (counted : EntryCounted count entry) :
    Listed { s with gptPages := Function.update s.gptPages index (some entry) }
      (Function.update pending index count) where
  ready := listed.ready
  distinct := listed.distinct
  flagged := by
    intro other
    by_cases same : other = index
    · subst same
      rw [← flag]
      exact flagged_iff (Function.update_self ..)
    · rw [← listed.flagged other]
      simp only [Flagged, Function.update_of_ne same]
  waiting := by
    intro other later isLater here none
    by_cases same : other = index
    · subst same
      simp only [Function.update_self, Option.some.injEq] at isLater none
      subst isLater
      exact waiting here none
    · simp only [Function.update_of_ne same] at isLater none
      exact listed.waiting other later isLater here none
  entries := by
    intro other later isLater
    by_cases same : other = index
    · subst same
      simp only [Function.update_self, Option.some.injEq] at isLater ⊢
      subst isLater
      exact counted
    · simp only [Function.update_of_ne same] at isLater ⊢
      exact listed.entries other later isLater

theorem EntryCounted.begin {pending : Nat} {entry : TreeEntry}
    (counted : EntryCounted pending entry) : EntryCounted (pending + 1) entry.beginWrite := by
  have nonneg := counted.nonneg
  have bound := counted.counted
  refine ⟨?_, ?_, fun _ => ?_⟩ <;> rw [TreeEntry.beginWrite_refCount] <;> omega

theorem EntryCounted.finish {pending : Nat} {entry : TreeEntry} (positive : 0 < pending)
    (counted : EntryCounted pending entry) : EntryCounted (pending - 1) entry.finishWrite := by
  have nonneg := counted.nonneg
  have bound := counted.counted
  refine ⟨?_, ?_, fun busy => ?_⟩ <;> rw [TreeEntry.finishWrite_refCount]
  · omega
  · omega
  · simp at busy
    omega

theorem Listed.inserts {s next : PageStore Data} {pending : Nat → Nat} {index : Nat}
    (listed : Listed s pending) (clean : s.InsertClean index) (inserts : Inserts s index next) :
    Listed next (Function.update pending index (pending index + 1)) := by
  cases inserts with
  | @fresh page middle absent alloc =>
      have allocClean := clean.resolve_left (by simp [pageOf, absent])
      have after := listed.alloc allocClean alloc
      have still : middle.gptPages index = none :=
        (allocates_of_ok listed.ready.sound alloc).drains.absent.mpr absent
      have out : index ∉ middle.reclaimList.contents := by
        rw [← after.flagged index]
        rintro ⟨entry, found, _⟩
        rw [still] at found
        cases found
      exact after.update (iff_of_false (by simp) out) (fun _ zero => by omega)
        ⟨le_refl _, by simp; omega, fun busy => by simp at busy⟩
  | @held entry page found here =>
      apply listed.update
      · rw [← listed.flagged index, flagged_iff found]
        simp
      · intro _ zero
        omega
      · exact (listed.entries index entry found).begin
  | @refilled entry later page middle found gone alloc still =>
      have allocClean := clean.resolve_left (by simp [pageOf, found, gone])
      have after := listed.alloc allocClean alloc
      apply after.update
      · have kept : (TreeEntry.beginWrite { later with page := some page }).testFlag
            .reclaimable = later.testFlag .reclaimable := by
          rw [TreeEntry.testFlag_beginWrite]
          rfl
        rw [← after.flagged index, flagged_iff still, kept]
      · intro _ zero
        omega
      · have counted := after.entries index later still
        exact EntryCounted.begin ⟨counted.nonneg, counted.counted, counted.updating⟩

theorem Listed.insertPages [Inhabited Data] {env : Nat → AllocEnv} {s next : PageStore Data}
    {pending : Nat → Nat} {indices : List Nat} (listed : Listed s pending)
    (clean : InsertsClean env indices s)
    (ran : s.insertPages env indices = .ok (indices.map some, next)) :
    Listed next fun index => pending index + indices.count index := by
  induction indices generalizing s pending with
  | nil =>
      cases ran
      exact listed
  | cons index rest ih =>
      obtain ⟨⟨entry, middle⟩, first, more⟩ := bind_eq_ok.mp ran
      obtain ⟨⟨others, last⟩, tail, pair⟩ := bind_eq_ok.mp more
      cases pair
      obtain ⟨now, later⟩ := clean
      rw [first] at later
      have inserts := (inserts_of_ok listed.ready.sound first).2
      have done := ih (listed.inserts now inserts) later tail
      convert done using 2 with other
      by_cases same : other = index
      · subst same
        simp
        omega
      · simp [same, Ne.symm same]

/-- The entry is not on the reclaim list as far as its flag tells. -/
def unlisted (s : PageStore Data) (index : Nat) : Bool :=
  match s.gptPages index with
  | some entry => !entry.testFlag .reclaimable
  | none => true

theorem Listed.finishes {s next : PageStore Data} {pending : Nat → Nat} {index : Nat}
    (listed : Listed s pending) (positive : 0 < pending index)
    (room : s.unlisted index = true → s.reclaimList.alfQueueCount < AlfQueue.ringReach)
    (finishes : FinishesEntry s index next) :
    Listed next (Function.update pending index (pending index - 1)) := by
  cases finishes with
  | @listed entry found flagged =>
      have member := (listed.flagged index).mp ((flagged_iff found).mpr flagged)
      apply listed.update
      · simp [flagged, member]
      · exact fun _ _ => member
      · exact (listed.entries index entry found).finish positive
  | @queued entry queue found fresh put =>
      have few := room (by simp [unlisted, found, fresh])
      have out : index ∉ s.reclaimList.contents := by
        rw [← listed.flagged index, flagged_iff found, fresh]
        simp
      have contents := listed.ready.contents_enqueue few put
      have counted := (listed.entries index entry found).finish positive
      refine ⟨listed.ready.enqueue put, ?_, ?_, ?_, ?_⟩
      · rw [contents, List.nodup_append]
        refine ⟨listed.distinct, List.nodup_singleton index, ?_⟩
        intro other member last isLast same
        rw [List.mem_singleton] at isLast
        rw [same, isLast] at member
        exact out member
      · intro other
        rw [contents, List.mem_append, List.mem_singleton]
        by_cases same : other = index
        · subst same
          refine iff_of_true ?_ (Or.inr rfl)
          exact (flagged_iff (Function.update_self ..)).mpr (by simp)
        · rw [or_iff_left same, ← listed.flagged other]
          simp only [Flagged, Function.update_of_ne same]
      · intro other later isLater here none
        rw [contents, List.mem_append, List.mem_singleton]
        by_cases same : other = index
        · exact Or.inr same
        · simp only [Function.update_of_ne same] at isLater none
          exact Or.inl (listed.waiting other later isLater here none)
      · intro other later isLater
        by_cases same : other = index
        · subst same
          simp only [Function.update_self, Option.some.injEq] at isLater ⊢
          subst isLater
          exact ⟨counted.nonneg, counted.counted, fun busy => counted.updating (by simpa using busy)⟩
        · simp only [Function.update_of_ne same] at isLater ⊢
          exact listed.entries other later isLater
  | full found fresh put =>
      have few := room (by simp [unlisted, found, fresh])
      have big := listed.ready.big
      obtain ⟨queue, done⟩ := listed.ready.sound.enqueue_isSome index (by omega)
      rw [put] at done
      cases done

/-- A completion flags its entry, keeps the flags of the others, and lengthens the list only
when it flags. -/
theorem FinishesEntry.listing {s next : PageStore Data} {index : Nat}
    (sound : s.reclaimList.Sound) (finishes : FinishesEntry s index next) :
    (∀ other, next.unlisted other = true → s.unlisted other = true) ∧
      next.reclaimList.alfQueueCount ≤
        s.reclaimList.alfQueueCount + (if s.unlisted index then 1 else 0) := by
  have others {entry : TreeEntry} (flag : entry.testFlag .reclaimable = true) (other : Nat)
      (later : unlisted { s with gptPages := Function.update s.gptPages index (some entry) }
        other = true) : s.unlisted other = true := by
    by_cases same : other = index
    · subst same
      simp [unlisted, flag] at later
    · simpa [unlisted, same] using later
  cases finishes with
  | @listed entry found flagged =>
      exact ⟨others (by simp [flagged]), Nat.le_add_right _ _⟩
  | @queued entry queue found fresh put =>
      obtain ⟨_, _, _, _, _, count, _⟩ := sound.enqueue_spec put
      have flags : (entry.finishWrite.setFlag .reclaimable).testFlag .reclaimable = true := by simp
      refine ⟨fun other later => others flags other later, ?_⟩
      simp [unlisted, found, fresh, count]
  | full found fresh put => exact ⟨others (by simp), Nat.le_add_right _ _⟩

theorem Listed.finishesAll {s next : PageStore Data} {pending : Nat → Nat} {indices : List Nat}
    (listed : Listed s pending) (enough : ∀ index, indices.count index ≤ pending index)
    (room : s.reclaimList.alfQueueCount + indices.countP s.unlisted ≤ AlfQueue.ringReach)
    (all : FinishesAll s indices next) :
    Listed next fun index => pending index - indices.count index := by
  induction all generalizing pending with
  | nil => exact listed
  | @cons s middle next index rest finishes tail ih =>
      rw [List.countP_cons] at room
      have positive : 0 < pending index := by
        have := enough index
        rw [List.count_cons_self] at this
        omega
      have after := listed.finishes positive (fun fresh => by
        rw [fresh] at room
        simp only [if_true] at room
        omega) finishes
      obtain ⟨fewer, count⟩ := finishes.listing listed.ready.sound
      have less : rest.countP middle.unlisted ≤ rest.countP s.unlisted :=
        List.countP_mono_left fun other _ => fewer other
      have done := ih after ?_ (by omega)
      · convert done using 2 with other
        by_cases same : other = index
        · subst same
          simp
          omega
        · simp [same, Ne.symm same]
      · intro other
        have bound := enough other
        by_cases same : other = index
        · subst same
          simp at bound ⊢
          omega
        · simpa [same, Ne.symm same] using bound

/-! ## The pool never runs dry for good -/

/-- Some page is in the pool or with an entry. -/
structure Stocked (s : PageStore Data) : Prop where
  cap : 0 < s.pool.capNr
  somewhere : s.pool.elements ≠ [] ∨ ∃ index page, s.pageOf (some index) = some page

theorem Stocked.inserts {s next : PageStore Data} {index : Nat} (stocked : Stocked s)
    (sound : s.reclaimList.Sound) (inserts : Inserts s index next) : Stocked next := by
  cases inserts with
  | @fresh page middle absent alloc =>
      refine ⟨?_, Or.inr ⟨index, page, by simp [pageOf]⟩⟩
      rw [(allocates_of_ok sound alloc).cap]
      exact stocked.cap
  | @held entry page found here =>
      exact ⟨stocked.cap, Or.inr ⟨index, page, by simp [pageOf, here]⟩⟩
  | @refilled entry later page middle found gone alloc still =>
      refine ⟨?_, Or.inr ⟨index, page, by simp [pageOf]⟩⟩
      rw [(allocates_of_ok sound alloc).cap]
      exact stocked.cap

theorem Stocked.insertsAll {s next : PageStore Data} {indices : List Nat} (stocked : Stocked s)
    (sound : s.reclaimList.Sound) (all : InsertsAll s indices next) : Stocked next := by
  induction all with
  | nil => exact stocked
  | cons inserts tail ih => exact ih (stocked.inserts sound inserts) (inserts.sound sound)

theorem Stocked.finishesAll {s next : PageStore Data} {indices : List Nat} (stocked : Stocked s)
    (all : FinishesAll s indices next) : Stocked next := by
  refine ⟨by rw [all.pool_eq]; exact stocked.cap, ?_⟩
  rw [all.pool_eq]
  refine stocked.somewhere.imp id ?_
  rintro ⟨index, page, here⟩
  exact ⟨index, page, by rw [all.pageOf, here]⟩

/-- An attempt that yields no page takes none. -/
theorem Reclaims.pageOf_none {s next : PageStore Data} (reclaims : Reclaims s none next)
    (other : Nat) : next.pageOf (some other) = s.pageOf (some other) := by
  generalize vain : (none : Option Nat) = element at reclaims
  cases reclaims with
  | nothing => rfl
  | skipped => rfl
  | @taken index entry queue popped found idle =>
      by_cases same : other = index
      · subst same
        simp [PageStore.pageOf, found, ← vain]
      · simp [PageStore.pageOf, same]

theorem Stocked.free [Inhabited Data] {s next : PageStore Data} {element : Option Nat}
    (stocked : Stocked s) (reclaims : Reclaims s element next) :
    Stocked (element.elim next next.valetMempoolFree) := by
  have cap : 0 < next.pool.capNr := by
    rw [reclaims.pool_eq]
    exact stocked.cap
  cases element with
  | none =>
      refine ⟨cap, ?_⟩
      rw [Option.elim_none, reclaims.pool_eq]
      refine stocked.somewhere.imp id ?_
      rintro ⟨index, page, here⟩
      exact ⟨index, page, by rw [reclaims.pageOf_none, here]⟩
  | some page =>
      obtain ⟨same, filled⟩ := next.pool.valetAddElement_filled page cap
      refine ⟨?_, Or.inl filled⟩
      rw [Option.elim_some, valetMempoolFree, same]
      exact cap

/-- A reclaim attempt returns when the listed entries exist. -/
theorem reclaim_total {s : PageStore Data} (sound : s.reclaimList.Sound)
    (exist : ∀ index ∈ s.reclaimList.contents, (s.gptPages index).isSome) :
    ∃ element next, s.valetMempoolReclaim = .ok (element, next) := by
  unfold valetMempoolReclaim
  rcases getReclaimableIndex_cases sound with ⟨got, empty⟩ | ⟨index, queue, got, popped⟩
  · rw [got]
    exact ⟨_, _, rfl⟩
  · rw [got]
    obtain ⟨entry, found⟩ := Option.isSome_iff_exists.mp
      (exist index (by rw [popped.contents]; exact List.mem_cons_self))
    dsimp only
    rw [found]
    dsimp only
    split
    · exact ⟨_, _, rfl⟩
    · split <;> exact ⟨_, _, rfl⟩

/-- With nothing outstanding, the attempts reach an entry that has a page. -/
theorem Listed.reclaimRepeat_returns {s : PageStore Data} {attempts : Nat}
    (listed : Listed s fun _ => 0)
    (holder : ∃ index page, s.pageOf (some index) = some page)
    (enough : s.reclaimList.contents.length < attempts) :
    ∃ page next, PageStore.reclaimRepeat attempts s = .ok (page, next) := by
  induction attempts generalizing s with
  | zero => omega
  | succ attempts ih =>
      have exist (index : Nat) (member : index ∈ s.reclaimList.contents) :
          (s.gptPages index).isSome := by
        obtain ⟨entry, found, _⟩ := (listed.flagged index).mpr member
        rw [found]
        rfl
      have idle : s.HeadIdle := fun index _ entry found =>
        (listed.entries index entry found).idle
      obtain ⟨element, next, attempt⟩ := reclaim_total listed.ready.sound exist
      have reclaims := reclaims_of_ok listed.ready.sound attempt
      have after := listed.reclaims idle reclaims
      unfold PageStore.reclaimRepeat
      cases element with
      | some page => exact ⟨page, next, by rw [attempt]; rfl⟩
      | none =>
          have still : ∃ index page, next.pageOf (some index) = some page := by
            obtain ⟨index, page, here⟩ := holder
            exact ⟨index, page, by rw [reclaims.pageOf_none, here]⟩
          have shorter : next.reclaimList.contents.length < attempts := by
            obtain ⟨index, page, here⟩ := holder
            obtain ⟨entry, found, hasPage⟩ : ∃ entry, s.gptPages index = some entry ∧
                entry.page = some page := by
              simpa [pageOf, Option.bind_eq_some_iff] using here
            have member := listed.waiting index entry found (by rw [hasPage]; rfl) rfl
            generalize vain : (none : Option Nat) = element at reclaims
            cases reclaims with
            | nothing empty =>
                rw [empty] at member
                cases member
            | skipped popped again busy =>
                rw [popped.contents, List.length_cons] at enough
                exact Nat.lt_of_succ_lt_succ enough
            | taken popped again rests =>
                rw [popped.contents, List.length_cons] at enough
                exact Nat.lt_of_succ_lt_succ enough
          obtain ⟨page, last, rest⟩ := ih after still shorter
          exact ⟨page, last, by rw [attempt]; exact rest⟩

/-- Once all writes have completed, an allocation returns a page. -/
theorem Listed.alloc_returns {s : PageStore Data} (listed : Listed s fun _ => 0)
    (stocked : Stocked s) : ∃ page next, s.valetMempoolAlloc = .ok (page, next) := by
  unfold valetMempoolAlloc Mempool.valetRemoveElement
  cases elements : s.pool.elements with
  | cons element rest => exact ⟨_, _, rfl⟩
  | nil =>
      refine listed.reclaimRepeat_returns (stocked.somewhere.resolve_left (· elements)) ?_
      rw [listed.ready.sound.contents_length]
      exact Nat.lt_succ_self _

end PageStore

namespace Machine

variable {cpus servers : Nat} {Data Req : Type}

/-- The reclaim attempts of the step meet idle entries only. -/
def AttemptsIdle [Inhabited Data] (m : Machine cpus servers Data Req) :
    DataLabel cpus servers Data Req → Prop
  | .write env req => m.store.InsertsClean env req.indices
  | .reclaim => m.store.HeadIdle
  | _ => True

/-- The step drops no half of an item. -/
def KeepsHalves (m : Machine cpus servers Data Req) : DataLabel cpus servers Data Req → Prop
  | .send cpu targets =>
      match m.senders cpu with
      | .send tmpFirst _ => loses targets tmpFirst = false
      | _ => True
  | _ => True

/-- The entries that the step lists fit into the reach of the reclaim ring. -/
def ListRoom (m : Machine cpus servers Data Req) : DataLabel cpus servers Data Req → Prop
  | .complete cb =>
      match (m.conns cb).landed.head? with
      | some (.wrote ctx) => ∀ item ∈ ctx.sendingItem, m.store.reclaimList.alfQueueCount +
          item.batchList.countP m.store.unlisted ≤ AlfQueue.ringReach
      | _ => True
  | _ => True

/-- The condition under which no page becomes unreclaimable. -/
structure CleanStep [Inhabited Data] (m : Machine cpus servers Data Req)
    (label : DataLabel cpus servers Data Req) : Prop where
  idle : AttemptsIdle m label
  halves : KeepsHalves m label
  sendRoom : RingRoom m label
  listRoom : ListRoom m label

instance [Inhabited Data] (m : Machine cpus servers Data Req)
    (label : DataLabel cpus servers Data Req) : Decidable (AttemptsIdle m label) :=
  match label with
  | .write env req => inferInstanceAs (Decidable (m.store.InsertsClean env req.indices))
  | .reclaim => inferInstanceAs (Decidable m.store.HeadIdle)
  | .call _ | .fetch _ | .send _ _ | .land _ | .complete _ | .read _ _ _ => isTrue trivial

instance (m : Machine cpus servers Data Req) (label : DataLabel cpus servers Data Req) :
    Decidable (KeepsHalves m label) :=
  match label with
  | .send cpu targets =>
      match holds : m.senders cpu with
      | .send tmpFirst _ =>
          decidable_of_iff (loses targets tmpFirst = false) (by simp only [KeepsHalves, holds])
      | .idle => isTrue (by simp only [KeepsHalves, holds])
      | .fetch _ _ => isTrue (by simp only [KeepsHalves, holds])
  | .write _ _ | .call _ | .fetch _ | .land _ | .complete _ | .reclaim | .read _ _ _ =>
      isTrue trivial

instance (m : Machine cpus servers Data Req) (label : DataLabel cpus servers Data Req) :
    Decidable (ListRoom m label) :=
  match label with
  | .complete cb =>
      match head : (m.conns cb).landed.head? with
      | some (.wrote ctx) =>
          decidable_of_iff (∀ item ∈ ctx.sendingItem, m.store.reclaimList.alfQueueCount +
            item.batchList.countP m.store.unlisted ≤ AlfQueue.ringReach)
            (by simp only [ListRoom, head])
      | some (.fetched _ _) => isTrue (by simp only [ListRoom, head])
      | none => isTrue (by simp only [ListRoom, head])
  | .write _ _ | .call _ | .fetch _ | .send _ _ | .land _ | .reclaim | .read _ _ _ =>
      isTrue trivial

instance [Inhabited Data] (m : Machine cpus servers Data Req)
    (label : DataLabel cpus servers Data Req) : Decidable (CleanStep m label) :=
  decidable_of_iff
    (AttemptsIdle m label ∧ KeepsHalves m label ∧ RingRoom m label ∧ ListRoom m label)
    ⟨fun ⟨idle, halves, sendRoom, listRoom⟩ => ⟨idle, halves, sendRoom, listRoom⟩,
      fun clean => ⟨clean.idle, clean.halves, clean.sendRoom, clean.listRoom⟩⟩

structure ReclaimState (m : Machine cpus servers Data Req) : Prop where
  ready : m.sendingList.Ready
  listed : m.store.Listed m.pending
  stocked : m.store.Stocked

variable [Inhabited Data] {m next : Machine cpus servers Data Req}
  {label : DataLabel cpus servers Data Req}

theorem reclaimState_init {minPoolPages : Nat} (filled : 0 < minPoolPages)
    (writeCapNr readCapNr : Nat) :
    ReclaimState (init minPoolPages AlfQueue.maxPoolPages writeCapNr readCapNr :
      Machine cpus servers Data Req) where
  ready := AlfQueue.ready_alloc
  listed :=
    { ready := AlfQueue.ready_alloc
      distinct := by simp [init]
      flagged := by
        intro index
        refine iff_of_false ?_ (by simp [init])
        rintro ⟨entry, found, _⟩
        cases found
      waiting := by
        intro index entry found
        cases found
      entries := by
        intro index entry found
        cases found }
  stocked := by
    refine ⟨filled, Or.inl ?_⟩
    cases minPoolPages with
    | zero => omega
    | succ count => exact List.cons_ne_nil _ _

theorem ReclaimState.effect (state : ReclaimState m) (readyNext : next.sendingList.Ready)
    (clean : CleanStep m label) (effect : Effect m label next) : ReclaimState next := by
  obtain ⟨ready, listed, stocked⟩ := state
  cases effect with
  | @wrote env req middle pages _ inserted located stored pending =>
      have after := listed.insertPages clean.idle inserted
      have all := PageStore.insertsAll_of_some listed.ready.sound inserted
      have filled := stocked.insertsAll listed.ready.sound all
      refine ⟨readyNext, ?_, ?_⟩
      · rw [stored, funext pending]
        exact ⟨after.ready, after.distinct, after.flagged, after.waiting, after.entries⟩
      · rw [stored]
        exact ⟨filled.cap, filled.somewhere⟩
  | @finished cb ctx item _ head sendingItem all pending =>
      have room := clean.listRoom
      simp only [ListRoom, head] at room
      have fits := room item sendingItem
      have enough (index : Nat) : item.batchList.count index ≤ m.pending index := by
        rw [pending index]
        exact Nat.le_add_left _ _
      have after := listed.finishesAll enough fits all
      refine ⟨readyNext, ?_, stocked.finishesAll all⟩
      have left : (fun index => m.pending index - item.batchList.count index) = next.pending := by
        funext index
        rw [pending index]
        exact Nat.add_sub_cancel _ _
      rw [← left]
      exact after
  | @reclaimed element middle _ reclaims stored pending =>
      have after := listed.reclaims clean.idle reclaims
      refine ⟨readyNext, ?_, ?_⟩
      · rw [stored, funext pending]
        cases element with
        | none => exact after
        | some page =>
            exact ⟨after.ready, after.distinct, after.flagged, after.waiting, after.entries⟩
      · rw [stored]
        exact stocked.free reclaims
  | @sent cpu targets tmpFirst tmp _ holds stored pending =>
      have halves := clean.halves
      simp only [KeepsHalves, holds] at halves
      have same : next.pending = m.pending := by
        funext index
        rw [← pending index, lostMentions, halves]
        rfl
      exact ⟨readyNext, by rw [stored, same]; exact listed, by rw [stored]; exact stocked⟩
  | moved stored pending =>
      exact ⟨readyNext, by rw [stored, funext pending]; exact listed, by rw [stored]; exact stocked⟩

theorem ReclaimState.step (state : ReclaimState m) (clean : CleanStep m label)
    (edge : m.step label = some next) : ReclaimState next := by
  have outcome := outcome_of_step state.ready state.listed.ready.sound edge
  obtain ⟨readyNext, effect⟩ := outcome.effect state.ready clean.sendRoom
  exact state.effect readyNext clean effect

/-- The flag and the list agree, the list has no duplicates, every idle page is listed, and
once all writes have completed an allocation from an empty pool returns. -/
structure StaysReclaimable (m : Machine cpus servers Data Req) : Prop where
  flagged : ∀ index, m.store.Flagged index ↔ index ∈ m.store.reclaimList.contents
  once : m.store.reclaimList.contents.Nodup
  waiting : ∀ index entry, m.store.gptPages index = some entry → entry.page.isSome →
    (∀ item ∈ m.outstanding, index ∉ item.batchList) → index ∈ m.store.reclaimList.contents
  returns : m.outstanding = [] → m.store.pool.elements = [] →
    ∃ page store, m.store.valetMempoolAlloc = .ok (page, store)

omit [Inhabited Data] in
theorem pending_eq_zero {index : Nat}
    (unlisted : ∀ item ∈ m.outstanding, index ∉ item.batchList) : m.pending index = 0 := by
  by_contra nonzero
  obtain ⟨item, member, mentioned⟩ := pending_pos.mp (Nat.pos_of_ne_zero nonzero)
  exact unlisted item member mentioned

omit [Inhabited Data] in
theorem ReclaimState.staysReclaimable (state : ReclaimState m) : StaysReclaimable m where
  flagged := state.listed.flagged
  once := state.listed.distinct
  waiting := fun index entry found here unlisted =>
    state.listed.waiting index entry found here (pending_eq_zero unlisted)
  returns := by
    intro done _
    have nothing : m.pending = fun _ => 0 := by
      funext index
      refine pending_eq_zero fun item member => ?_
      rw [done] at member
      cases member
    have listed := state.listed
    rw [nothing] at listed
    exact listed.alloc_returns state.stocked

/-- From an empty page table and a pool with pages, as long as every reclaim attempt meets an
idle entry, no split loses a half and the rings stay within reach, pages stay reclaimable. -/
theorem pages_stay_reclaimable {minPoolPages writeCapNr readCapNr : Nat}
    {labels : List (DataLabel cpus servers Data Req)} {last : Machine cpus servers Data Req}
    (filled : 0 < minPoolPages)
    (run : Run Machine.step CleanStep
      (init minPoolPages AlfQueue.maxPoolPages writeCapNr readCapNr) labels last) :
    StaysReclaimable last := by
  have state := run.preserves (fun state clean edge => ReclaimState.step state clean edge)
    (reclaimState_init filled writeCapNr readCapNr)
  exact state.staysReclaimable

/-- Write page 0 and let the write complete; then write page 1 with the pool exhausted. -/
def calmReclaim : List (DataLabel 2 1 Nat Nat) :=
  [.write allocated (pageRequest 0 7 zero_inside), .call 0, .fetch 0, .fetch 0, .send 0 oneBlock,
    .land 0, .complete 0, .write allocated (pageRequest 1 9 one_inside)]

theorem pages_stay_reclaimable_calm :
    ∃ last, exec Machine.step (init 1 AlfQueue.maxPoolPages 4 4) calmReclaim = some last ∧
      StaysReclaimable last := by
  have ran : (exec (guardedStep Machine.step CleanStep)
      (init 1 AlfQueue.maxPoolPages 4 4) calmReclaim).isSome = true := by
    decide +kernel
  obtain ⟨last, guarded⟩ := Option.isSome_iff_exists.mp ran
  have run := run_of_guarded guarded
  exact ⟨last, run.exec_eq, pages_stay_reclaimable Nat.one_pos run⟩

/-- Write page 0 and let the write complete; overwrite it, try to reclaim it before the second
write completes, and let that write complete as well. -/
def reclaimRace : List (DataLabel 2 1 Nat Nat) :=
  [.write allocated (pageRequest 0 7 zero_inside), .call 0, .fetch 0, .fetch 0, .send 0 oneBlock,
    .land 0, .complete 0, .write allocated (pageRequest 0 8 zero_inside), .reclaim, .call 0,
    .fetch 0, .fetch 0, .send 0 oneBlock, .land 0, .complete 0]

/-- Nothing is outstanding, the pool is empty, and an allocation spins. -/
def spinsForEver (m : Machine cpus servers Data Req) : Bool :=
  m.outstanding.isEmpty && m.store.pool.elements.isEmpty &&
    match m.store.valetMempoolAlloc with
    | .error .spin => true
    | _ => false

/-- The attempt takes the entry off the list for good, and its page with it. -/
theorem reclaimRace_leaks_page : ¬ ∀ (labels : List (DataLabel 2 1 Nat Nat))
    (last : Machine 2 1 Nat Nat),
    Run Machine.step always (init 1 AlfQueue.maxPoolPages 4 4) labels last →
      StaysReclaimable last := by
  intro claim
  have spins : ((exec Machine.step (init 1 AlfQueue.maxPoolPages 4 4) reclaimRace).map
      spinsForEver) = some true := by
    decide +kernel
  obtain ⟨last, ran, spins⟩ := Option.map_eq_some_iff.mp spins
  simp only [spinsForEver, Bool.and_eq_true, List.isEmpty_iff] at spins
  obtain ⟨⟨done, empty⟩, spins⟩ := spins
  obtain ⟨page, store, returned⟩ := (claim reclaimRace last (run_of_exec ran)).returns done empty
  rw [returned] at spins
  cases spins

end Machine

end Valet.Bd
