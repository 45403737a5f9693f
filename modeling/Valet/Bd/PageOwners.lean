import Valet.Bd.Ownership
import Valet.Library.Runs

/-!
# The owners of the pages

Pages move between the free pages, the entries and the callers of `valet_alloc`,
and some go back to the system when the pool shrinks or has no room for them.
The page store is run here one call after the other, with a record of the pages
that callers hold and of those that the system got back.
-/

namespace Valet.Bd

open Valet.Library

/-- `RESIZING_UNIT_IN_PAGES`. -/
def resizingUnitInPages : Nat := 262144

/-- The page store, the pages that callers hold, and the pages that went back to the system. -/
structure Pages (Data : Type) where
  store : PageStore Data
  minPoolPages : Nat
  held : List Nat
  system : List Nat

/-- The calls, one at a time. -/
inductive PageOp where
  | insertPage (env : AllocEnv) (index : Nat)
  | alloc
  | free (element : Nat)
  | writeDone (indices : List Nat)
  | shrink (newCapNr : Int)

namespace Pages

variable {Data : Type} [Inhabited Data]

/-- `__free_pages`. -/
def freePages (s : Pages Data) (element : Nat) : Pages Data :=
  { s with system := element :: s.system }

/-- `valet_mempool_free`; a full pool hands the page to the system. -/
def valetMempoolFree (s : Pages Data) (element : Nat) : Pages Data :=
  let next := { s with store := s.store.valetMempoolFree element }
  if s.store.pool.currNr ≥ s.store.pool.capNr then next.freePages element else next

/-- The page of a new entry that a full pool hands to the system when the preload fails. -/
def unwound (s : Pages Data) (env : AllocEnv) (index : Nat) : Option Nat :=
  match s.store.gptPages index, s.store.gptAllocEntry env with
  | none, .ok (some entry, middle) =>
      if !env.preloadOk && decide (middle.pool.currNr ≥ middle.pool.capNr) then entry.page else none
  | _, _ => none

/-- `gpt_insert_page`. -/
def gptInsertPage (s : Pages Data) (env : AllocEnv) (index : Nat) :
    Except Halt (Option Nat × Pages Data) := do
  let (entry, store) ← s.store.gptInsertPage env index
  return (entry, { s with store := store, system := (s.unwound env index).toList ++ s.system })

/-- The loop of `valet_mempool_shrink` that gives up free pages. -/
def giveUp (newCapNr : Nat) : Nat → Pages Data → Pages Data
  | 0, s => s
  | turns + 1, s =>
      if newCapNr < s.store.pool.currNr then
        match s.store.pool.valetRemoveElement with
        | none => s
        | some (element, pool) =>
            giveUp newCapNr turns ({ s with store := { s.store with pool := pool } }.freePages element)
      else
        s

/-- The loop of `valet_mempool_shrink` that reclaims at the minimum. -/
def reclaimUnit : Nat → Pages Data → Except Halt (Pages Data)
  | 0, s => .ok s
  | turns + 1, s => do
      let (element, store) ← s.store.valetMempoolReclaim
      let s := { s with store := store }
      match element with
      | none => reclaimUnit turns s
      | some page => reclaimUnit turns (s.valetMempoolFree page)

/-- `valet_mempool_shrink`.  Every turn of its first loop takes a page off the pool. -/
def valetMempoolShrink (s : Pages Data) (newCapNr : Int) : Except Halt (Pages Data) :=
  if newCapNr ≤ 0 then
    .error .panic
  else if newCapNr < s.store.pool.capNr then
    let s := giveUp newCapNr.toNat s.store.pool.currNr s
    .ok { s with store := { s.store with pool := { s.store.pool with capNr := newCapNr.toNat } } }
  else if s.minPoolPages = s.store.pool.capNr then
    reclaimUnit resizingUnitInPages s
  else
    .ok s

/-- Callers free what they hold. -/
def step (s : Pages Data) : PageOp → Option (Pages Data)
  | .insertPage env index => ((s.gptInsertPage env index).map Prod.snd).toOption
  | .alloc => (s.store.valetMempoolAlloc.map fun result =>
      { s with store := result.2, held := result.1 :: s.held }).toOption
  | .free element =>
      if element ∈ s.held then
        some ({ s with held := s.held.erase element }.valetMempoolFree element)
      else
        none
  | .writeDone indices =>
      ((s.store.writeDoneEntries indices).map fun store => { s with store := store }).toOption
  | .shrink newCapNr => (s.valetMempoolShrink newCapNr).toOption

/-- A new pool and an empty page table; `alf_queue_alloc` takes a `u32`. -/
def init (capNr minPoolPages maxPoolPages : Nat) : Pages Data where
  store :=
    { pool := .valetMempoolCreate capNr
      gptPages := fun _ => none
      reclaimList := alfQueueAlloc (maxPoolPages % u32Range)
      memory := fun _ => default }
  minPoolPages := minPoolPages
  held := []
  system := []

/-- No page is twice in the pool, in the pool and an entry, or in two entries, and none that the
system got back is in either. -/
structure SingleOwner (s : Pages Data) : Prop where
  owned : s.store.Owned
  gone : ∀ page ∈ s.system, s.store.Loose page

end Pages

namespace PageStore

variable {Data : Type} {s next : PageStore Data} {page other : Nat}

theorem Loose.shrinks (loose : Loose s page) (shrinks : Shrinks s next)
    (pool : next.pool = s.pool) : Loose next page :=
  ⟨by rw [pool]; exact loose.unpooled,
    fun index here => loose.unheld index (shrinks index page here)⟩

theorem Loose.reclaims {element : Option Nat} (loose : Loose s page)
    (reclaims : Reclaims s element next) : Loose next page ∧ element ≠ some page := by
  refine ⟨loose.shrinks reclaims.drains.shrinks reclaims.pool_eq, ?_⟩
  rintro rfl
  generalize taken : some page = element at reclaims
  cases reclaims with
  | nothing => cases taken
  | skipped => cases taken
  | @taken index entry queue popped found idle =>
      exact loose.unheld index (by rw [pageOf_eq found, taken])

/-- An allocation hands out no loose page. -/
theorem Loose.allocates (loose : Loose s other) (allocates : Allocates s page next) :
    Loose next other ∧ other ≠ page := by
  cases allocates with
  | @pooled pool top cap =>
      have unpooled := loose.unpooled
      rw [top, List.mem_cons, not_or] at unpooled
      exact ⟨⟨unpooled.2, loose.unheld⟩, unpooled.1⟩
  | reclaimed exhausted drains pool reclaims =>
      obtain ⟨after, different⟩ := (loose.shrinks drains.shrinks pool).reclaims reclaims
      refine ⟨after, ?_⟩
      rintro rfl
      exact different rfl

theorem Loose.give {index : Nat} {entry : TreeEntry} (loose : Loose s other)
    (different : entry.page ≠ some other) :
    Loose { s with gptPages := Function.update s.gptPages index (some entry) } other := by
  refine ⟨loose.unpooled, fun at_ here => ?_⟩
  rcases eq_or_ne at_ index with rfl | apart
  · apply different
    simpa [pageOf] using here
  · apply loose.unheld at_
    simpa [pageOf, apart] using here

theorem Loose.inserts {index : Nat} (loose : Loose s other) (sound : s.reclaimList.Sound)
    (inserts : Inserts s index next) : Loose next other := by
  cases inserts with
  | fresh absent alloc =>
      obtain ⟨after, different⟩ := loose.allocates (allocates_of_ok sound alloc)
      exact after.give fun same => different (Option.some.inj same).symm
  | held found here =>
      refine loose.give fun same => loose.unheld index ?_
      rw [pageOf_eq found]
      exact same
  | refilled found gone alloc still =>
      obtain ⟨after, different⟩ := loose.allocates (allocates_of_ok sound alloc)
      exact after.give fun same => different (Option.some.inj same).symm

/-- Handing back a page keeps the others loose. -/
theorem Loose.free [Inhabited Data] (loose : Loose s other) (different : other ≠ page) :
    Loose (s.valetMempoolFree page) other := by
  refine ⟨?_, loose.unheld⟩
  show other ∉ (s.pool.valetAddElement page).elements
  unfold Mempool.valetAddElement
  split
  · exact loose.unpooled
  · rw [List.mem_cons, not_or]
    exact ⟨different, loose.unpooled⟩

/-- A full pool leaves the page loose. -/
theorem Loose.free_full [Inhabited Data] (loose : Loose s page)
    (full : s.pool.currNr ≥ s.pool.capNr) : Loose (s.valetMempoolFree page) page := by
  refine ⟨?_, loose.unheld⟩
  show page ∉ (s.pool.valetAddElement page).elements
  rw [Mempool.valetAddElement, if_pos full]
  exact loose.unpooled

end PageStore

namespace Pages

variable {Data : Type} [Inhabited Data] {s next : Pages Data}

/-- The pages that callers hold or that went back are each there once, and belong to nobody. -/
structure Accounted (s : Pages Data) : Prop where
  sound : s.store.reclaimList.Sound
  owned : s.store.Owned
  outside : (s.held ++ s.system).Nodup
  loose : ∀ page ∈ s.held ++ s.system, s.store.Loose page

omit [Inhabited Data] in
theorem Accounted.singleOwner (accounted : s.Accounted) : s.SingleOwner :=
  ⟨accounted.owned, fun page member =>
    accounted.loose page (List.mem_append_right s.held member)⟩

theorem accounted_init (capNr minPoolPages maxPoolPages : Nat) :
    (init capNr minPoolPages maxPoolPages : Pages Data).Accounted where
  sound := AlfQueue.sound_alloc (Nat.mod_lt _ (by decide))
  owned := ⟨Mempool.nodup_allocatedPages capNr, nofun, nofun⟩
  outside := List.nodup_nil
  loose := nofun

omit [Inhabited Data] in
/-- The store changes, and no page of a caller or of the system comes back in it. -/
theorem Accounted.goOn {store : PageStore Data} (accounted : s.Accounted)
    (sound : store.reclaimList.Sound) (owned : store.Owned)
    (loose : ∀ page, s.store.Loose page → store.Loose page) :
    ({ s with store := store } : Pages Data).Accounted :=
  ⟨sound, owned, accounted.outside, fun page member => loose page (accounted.loose page member)⟩

omit [Inhabited Data] in
/-- A loose page that nobody has goes to the system. -/
theorem Accounted.freePages {element : Nat} (accounted : s.Accounted)
    (loose : s.store.Loose element) (fresh : element ∉ s.held ++ s.system) :
    (s.freePages element).Accounted where
  sound := accounted.sound
  owned := accounted.owned
  outside := List.perm_middle.nodup_iff.mpr (List.nodup_cons.mpr ⟨fresh, accounted.outside⟩)
  loose := by
    intro page member
    rcases List.mem_cons.mp (List.perm_middle.subset member) with rfl | old
    · exact loose
    · exact accounted.loose page old

/-- A loose page that nobody has is handed back. -/
theorem Accounted.free {element : Nat} (accounted : s.Accounted)
    (loose : s.store.Loose element) (fresh : element ∉ s.held ++ s.system) :
    (s.valetMempoolFree element).Accounted := by
  have freed : ({ s with store := s.store.valetMempoolFree element } : Pages Data).Accounted := by
    refine ⟨accounted.sound, accounted.owned.free loose, accounted.outside, ?_⟩
    intro page member
    refine (accounted.loose page member).free ?_
    rintro rfl
    exact fresh member
  unfold valetMempoolFree
  dsimp only
  split
  · rename_i full
    exact freed.freePages (loose.free_full full) fresh
  · exact freed

omit [Inhabited Data] in
/-- A loose page that nobody has goes to a caller. -/
theorem Accounted.hold {element : Nat} (accounted : s.Accounted)
    (loose : s.store.Loose element) (fresh : element ∉ s.held ++ s.system) :
    ({ s with held := element :: s.held } : Pages Data).Accounted := by
  refine ⟨accounted.sound, accounted.owned, List.nodup_cons.mpr ⟨fresh, accounted.outside⟩, ?_⟩
  intro other member
  rcases List.mem_cons.mp member with rfl | old
  · exact loose
  · exact accounted.loose other old

omit [Inhabited Data] in
/-- A caller lets go of a page, which nobody has then. -/
theorem Accounted.release {element : Nat} (accounted : s.Accounted) (holds : element ∈ s.held) :
    ({ s with held := s.held.erase element } : Pages Data).Accounted ∧ s.store.Loose element ∧
      element ∉ s.held.erase element ++ s.system := by
  have parts := (List.perm_cons_erase holds).append_right s.system
  have whole := parts.nodup_iff.mp accounted.outside
  rw [List.cons_append, List.nodup_cons] at whole
  refine ⟨⟨accounted.sound, accounted.owned, whole.2, fun other member => ?_⟩,
    accounted.loose element (List.mem_append_left s.system holds), whole.1⟩
  exact accounted.loose other (parts.symm.subset (List.mem_cons_of_mem _ member))

omit [Inhabited Data] in
/-- After an allocation the page is loose, and nobody else has it. -/
theorem Accounted.allocate {page : Nat} {store : PageStore Data} (accounted : s.Accounted)
    (ran : s.store.valetMempoolAlloc = .ok (page, store)) :
    ({ s with store := store } : Pages Data).Accounted ∧ store.Loose page ∧
      page ∉ s.held ++ s.system := by
  have allocates := PageStore.allocates_of_ok accounted.sound ran
  obtain ⟨owned, loose⟩ := allocates.owned accounted.owned
  refine ⟨accounted.goOn (allocates.drains.sound accounted.sound) owned
    fun other before => (before.allocates allocates).1, loose, fun member => ?_⟩
  exact ((accounted.loose page member).allocates allocates).2 rfl

/-- The outcomes of `gpt_insert_page`. -/
inductive InsertsPage (s : Pages Data) (env : AllocEnv) (index : Nat) : Pages Data → Prop where
  | entered {store : PageStore Data} (inserts : s.store.Inserts index store) :
      InsertsPage s env index { s with store := store }
  | refused : InsertsPage s env index s
  | undone {page : Nat} {store : PageStore Data}
      (alloc : s.store.valetMempoolAlloc = .ok (page, store)) :
      InsertsPage s env index ({ s with store := store }.valetMempoolFree page)

theorem insertsPage_of_ok {env : AllocEnv} {index : Nat} {entry : Option Nat}
    (sound : s.store.reclaimList.Sound) (ran : s.gptInsertPage env index = .ok (entry, next)) :
    InsertsPage s env index next := by
  obtain ⟨⟨ptr, store⟩, inserted, pair⟩ := bind_eq_ok.mp ran
  cases pair
  cases entry with
  | some entry =>
      have nothing : s.unwound env index = none := by
        unfold unwound
        cases found : s.store.gptPages index with
        | some entry => rfl
        | none =>
            unfold PageStore.gptInsertPage at inserted
            rw [found] at inserted
            obtain ⟨⟨allocated, middle⟩, alloc, rest⟩ := bind_eq_ok.mp inserted
            rw [alloc]
            cases allocated with
            | none => rfl
            | some entry =>
                cases preload : env.preloadOk with
                | true => rfl
                | false =>
                    cases page : entry.page <;> simp [preload, page, pure, Except.pure] at rest
      rw [nothing]
      exact .entered (PageStore.inserts_of_ok sound inserted).2
  | none =>
      unfold PageStore.gptInsertPage at inserted
      cases found : s.store.gptPages index with
      | some entry =>
          rw [found] at inserted
          cases here : entry.page with
          | some page =>
              simp only [here] at inserted
              cases inserted
          | none =>
              simp only [here] at inserted
              obtain ⟨_, _, bad⟩ := bind_eq_ok.mp inserted
              cases bad
      | none =>
          rw [found] at inserted
          obtain ⟨⟨allocated, middle⟩, alloc, rest⟩ := bind_eq_ok.mp inserted
          have entries := alloc
          unfold PageStore.gptAllocEntry at entries
          cases kmalloc : env.kmallocOk with
          | false =>
              rw [kmalloc] at entries
              cases entries
              cases rest
              have nothing : s.unwound env index = none := by
                unfold unwound
                rw [found, alloc]
              rw [nothing]
              exact .refused
          | true =>
              rw [kmalloc] at entries
              obtain ⟨⟨page, taken⟩, took, made⟩ := bind_eq_ok.mp entries
              cases made
              cases preload : env.preloadOk with
              | true =>
                  simp only [preload, Bool.not_true, Bool.false_eq_true, if_false] at rest
                  split at rest
                  · cases rest
                  · cases rest
              | false =>
                  simp only [preload, Bool.not_false, if_true] at rest
                  cases rest
                  have undone : s.InsertsPage env index
                      ({ s with store := middle }.valetMempoolFree page) := .undone took
                  have returned : s.unwound env index =
                      if middle.pool.currNr ≥ middle.pool.capNr then some page else none := by
                    unfold unwound
                    rw [found, alloc, preload]
                    simp
                  rw [returned]
                  unfold valetMempoolFree at undone
                  split at undone
                  · rename_i full
                    rw [if_pos full]
                    exact undone
                  · rename_i roomy
                    rw [if_neg roomy]
                    exact undone

theorem Accounted.insertPage {env : AllocEnv} {index : Nat} (accounted : s.Accounted)
    (inserts : InsertsPage s env index next) : next.Accounted := by
  cases inserts with
  | entered inserts =>
      exact accounted.goOn (inserts.sound accounted.sound)
        (inserts.frame accounted.owned accounted.sound).owned
        fun page loose => loose.inserts accounted.sound inserts
  | refused => exact accounted
  | undone alloc =>
      obtain ⟨after, loose, fresh⟩ := accounted.allocate alloc
      exact after.free loose fresh

omit [Inhabited Data] in
/-- A page that the pool gives up was with nobody else. -/
theorem Accounted.giveUp {newCapNr turns : Nat} (accounted : s.Accounted) :
    (giveUp newCapNr turns s).Accounted := by
  induction turns generalizing s with
  | zero => exact accounted
  | succ turns ih =>
      unfold Pages.giveUp
      split
      · unfold Mempool.valetRemoveElement
        cases elements : s.store.pool.elements with
        | nil => exact accounted
        | cons element rest =>
            have taken : s.store.valetMempoolAlloc = .ok (element, { s.store with
                pool := { s.store.pool with
                  elements := rest
                  usedNr := s.store.pool.usedNr + 1 } }) := by
              unfold PageStore.valetMempoolAlloc Mempool.valetRemoveElement
              rw [elements]
            obtain ⟨after, loose, fresh⟩ := accounted.allocate taken
            exact ih (after.freePages loose fresh)
      · exact accounted

theorem Accounted.reclaimUnit {turns : Nat} (accounted : s.Accounted)
    (ran : reclaimUnit turns s = .ok next) : next.Accounted := by
  induction turns generalizing s with
  | zero =>
      cases ran
      exact accounted
  | succ turns ih =>
      obtain ⟨⟨element, store⟩, reclaimed, rest⟩ := bind_eq_ok.mp ran
      have reclaims := PageStore.reclaims_of_ok accounted.sound reclaimed
      have after : ({ s with store := store } : Pages Data).Accounted :=
        accounted.goOn (reclaims.drains.sound accounted.sound)
          (accounted.owned.shrinks reclaims.drains.shrinks reclaims.pool_eq)
          fun page loose => (loose.reclaims reclaims).1
      cases element with
      | none => exact ih after rest
      | some page =>
          refine ih (after.free (accounted.owned.loose reclaims) fun member => ?_) rest
          exact ((accounted.loose page member).reclaims reclaims).2 rfl

/-- The pool has the capacity that it was given. -/
def recap (s : Pages Data) (capNr : Nat) : Pages Data :=
  { s with store := { s.store with pool := { s.store.pool with capNr := capNr } } }

/-- The outcomes of a shrink. -/
inductive ShrinkOutcome (s : Pages Data) (newCapNr : Int) : Pages Data → Prop where
  | gaveUp (positive : 0 < newCapNr) (smaller : newCapNr < s.store.pool.capNr) :
      ShrinkOutcome s newCapNr
        ((giveUp newCapNr.toNat s.store.pool.currNr s).recap newCapNr.toNat)
  | reclaimed {next : Pages Data} (larger : ¬ newCapNr < s.store.pool.capNr)
      (least : s.minPoolPages = s.store.pool.capNr)
      (ran : reclaimUnit resizingUnitInPages s = .ok next) : ShrinkOutcome s newCapNr next
  | kept (larger : ¬ newCapNr < s.store.pool.capNr)
      (above : s.minPoolPages ≠ s.store.pool.capNr) : ShrinkOutcome s newCapNr s

theorem shrinkOutcome_of_ok {newCapNr : Int} (ran : s.valetMempoolShrink newCapNr = .ok next) :
    s.ShrinkOutcome newCapNr next := by
  unfold valetMempoolShrink at ran
  split at ran
  · cases ran
  · rename_i positive
    split at ran
    · rename_i smaller
      cases ran
      exact .gaveUp (Int.not_le.mp positive) smaller
    · rename_i larger
      split at ran
      · rename_i least
        exact .reclaimed larger least ran
      · rename_i above
        cases ran
        exact .kept larger above

theorem Accounted.shrink {newCapNr : Int} (accounted : s.Accounted)
    (ran : s.valetMempoolShrink newCapNr = .ok next) : next.Accounted := by
  cases shrinkOutcome_of_ok ran with
  | gaveUp =>
      have after : (Pages.giveUp newCapNr.toNat s.store.pool.currNr s).Accounted := accounted.giveUp
      exact after.goOn after.sound ⟨after.owned.distinct, after.owned.apart, after.owned.single⟩
        fun page loose => ⟨loose.unpooled, loose.unheld⟩
  | reclaimed _ _ ran => exact accounted.reclaimUnit ran
  | kept => exact accounted

/-- The outcomes of a call. -/
inductive Calls (s : Pages Data) : PageOp → Pages Data → Prop where
  | inserted {env : AllocEnv} {index : Nat} {next : Pages Data}
      (inserts : InsertsPage s env index next) : Calls s (.insertPage env index) next
  | taken {page : Nat} {store : PageStore Data}
      (alloc : s.store.valetMempoolAlloc = .ok (page, store)) :
      Calls s .alloc { s with store := store, held := page :: s.held }
  | freed {element : Nat} (holds : element ∈ s.held) :
      Calls s (.free element)
        ({ s with held := s.held.erase element }.valetMempoolFree element)
  | written {indices : List Nat} {store : PageStore Data}
      (all : PageStore.FinishesAll s.store indices store) :
      Calls s (.writeDone indices) { s with store := store }
  | shrunk {newCapNr : Int} {next : Pages Data}
      (ran : s.valetMempoolShrink newCapNr = .ok next) : Calls s (.shrink newCapNr) next

theorem calls_of_step {op : PageOp} (sound : s.store.reclaimList.Sound)
    (edge : s.step op = some next) : Calls s op next := by
  cases op with
  | insertPage env index =>
      have ran := toOption_eq_some edge
      cases inserted : s.gptInsertPage env index with
      | error halt =>
          rw [inserted] at ran
          cases ran
      | ok result =>
          rw [inserted] at ran
          cases ran
          exact .inserted (insertsPage_of_ok sound inserted)
  | alloc =>
      have ran := toOption_eq_some edge
      cases taken : s.store.valetMempoolAlloc with
      | error halt =>
          rw [taken] at ran
          cases ran
      | ok result =>
          rw [taken] at ran
          cases ran
          exact .taken taken
  | free element =>
      rw [Pages.step] at edge
      split at edge
      · rename_i holds
        cases edge
        exact .freed holds
      · cases edge
  | writeDone indices =>
      have ran := toOption_eq_some edge
      cases written : s.store.writeDoneEntries indices with
      | error halt =>
          rw [written] at ran
          cases ran
      | ok store =>
          rw [written] at ran
          cases ran
          exact .written (PageStore.finishesAll_of_ok written)
  | shrink newCapNr => exact .shrunk (toOption_eq_some edge)

/-- What one call preserves. -/
theorem Accounted.step {op : PageOp} (accounted : s.Accounted) (edge : s.step op = some next) :
    next.Accounted := by
  cases calls_of_step accounted.sound edge with
  | inserted inserts => exact accounted.insertPage inserts
  | taken alloc =>
      obtain ⟨after, loose, fresh⟩ := accounted.allocate alloc
      exact after.hold loose fresh
  | freed holds =>
      obtain ⟨rest, loose, fresh⟩ := accounted.release holds
      exact rest.free loose fresh
  | written all =>
      refine accounted.goOn (all.sound accounted.sound) (all.owned accounted.owned) ?_
      intro page loose
      exact loose.shrinks (fun index other here =>
        (all.pageOf index).symm.trans here) all.pool_eq
  | shrunk ran => exact accounted.shrink ran

/-- Whatever calls are made on a new pool and an empty page table, every page has one owner. -/
theorem pages_single_owner {capNr minPoolPages maxPoolPages : Nat} {ops : List PageOp}
    {last : Pages Data}
    (run : Run Pages.step always (init capNr minPoolPages maxPoolPages) ops last) :
    last.SingleOwner :=
  (run.preserves (fun accounted _ edge => Accounted.step accounted edge)
    (accounted_init capNr minPoolPages maxPoolPages)).singleOwner

/-- Both pages are written; one is reclaimed for an entry that is not made and goes to the old
index again, the other is reclaimed for a caller, who frees it after the pool has shrunk. -/
def reclaimAndShrink : List PageOp :=
  [.insertPage ⟨true, true⟩ 0, .insertPage ⟨true, true⟩ 1, .writeDone [0, 1],
    .insertPage ⟨true, false⟩ 2, .insertPage ⟨true, true⟩ 0, .alloc, .shrink 1, .free 0]

theorem pages_single_owner_reclaim : ∃ last : Pages Nat,
    exec Pages.step (init 2 2 8) reclaimAndShrink = some last ∧ last.SingleOwner := by
  have ran : (exec Pages.step (init 2 2 8 : Pages Nat) reclaimAndShrink).isSome = true := by
    decide +kernel
  obtain ⟨last, ends⟩ := Option.isSome_iff_exists.mp ran
  exact ⟨last, ends, pages_single_owner (run_of_exec ends)⟩

end Pages

end Valet.Bd
