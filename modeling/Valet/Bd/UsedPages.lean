import Valet.Bd.MissingEntry
import Valet.Bd.PoolResizing
import Mathlib.Data.Set.Card

/-!
# The count of the used pages

`valet_remove_element` counts a page as used and `valet_add_element` takes it
off the count again, whoever calls them.  A shrink removes pages to give them
to the system, and a page that is freed into a full pool goes to the system
before it is taken off.  `used_nr` therefore counts the pages in use and, for
ever, those that went back to the system.
-/

namespace Valet.Bd

open Valet.Library

namespace PageStore

variable {Data : Type}

/-- The pages that entries have. -/
def entryPages (s : PageStore Data) : Set Nat := {page | ∃ index, s.pageOf (some index) = some page}

/-- What the used count gains over the pages of the entries. -/
structure Uses (s next : PageStore Data) (gain : Int) : Prop where
  finite : s.entryPages.Finite → next.entryPages.Finite
  count : s.entryPages.Finite → next.pool.usedNr + (s.entryPages.ncard : Int) =
    s.pool.usedNr + (next.entryPages.ncard : Int) + gain

variable {s middle next : PageStore Data} {page index : Nat}

theorem Uses.trans {first second : Int} (start : Uses s middle first)
    (finish : Uses middle next second) : Uses s next (first + second) where
  finite := fun finite => finish.finite (start.finite finite)
  count := by
    intro finite
    have before := start.count finite
    have after := finish.count (start.finite finite)
    omega

/-- The entries have the pages they had. -/
theorem Uses.of_same {gain : Int} (same : next.entryPages = s.entryPages)
    (used : next.pool.usedNr = s.pool.usedNr + gain) : Uses s next gain := by
  refine ⟨fun finite => by rw [same]; exact finite, fun _ => ?_⟩
  rw [same, used]
  omega

/-- An entry lost a page. -/
theorem Uses.of_lost (loses : s.entryPages = insert page next.entryPages)
    (fresh : page ∉ next.entryPages) (used : next.pool.usedNr = s.pool.usedNr) :
    Uses s next 1 := by
  have after (finite : s.entryPages.Finite) : next.entryPages.Finite :=
    finite.subset (by rw [loses]; exact Set.subset_insert _ _)
  refine ⟨after, fun finite => ?_⟩
  rw [loses, Set.ncard_insert_of_notMem fresh (after finite), used]
  push_cast
  omega

/-- An entry got a page. -/
theorem Uses.of_got (gets : next.entryPages = insert page s.entryPages)
    (fresh : page ∉ s.entryPages) (used : next.pool.usedNr = s.pool.usedNr) :
    Uses s next (-1) := by
  refine ⟨fun finite => by rw [gets]; exact finite.insert page, fun finite => ?_⟩
  rw [gets, Set.ncard_insert_of_notMem fresh finite, used]
  push_cast
  omega

theorem entryPages_congr (same : ∀ index, next.pageOf (some index) = s.pageOf (some index)) :
    next.entryPages = s.entryPages := by
  ext page
  exact exists_congr fun index => by rw [same]

/-- The page that an attempt yields was with an entry. -/
theorem Reclaims.entryPages (reclaims : Reclaims s (some page) next) :
    s.entryPages = insert page next.entryPages := by
  generalize taken : some page = element at reclaims
  cases reclaims with
  | nothing => cases taken
  | skipped => cases taken
  | @taken index entry queue popped found idle =>
      ext other
      rw [Set.mem_insert_iff]
      constructor
      · rintro ⟨at_, here⟩
        by_cases same : at_ = index
        · subst same
          rw [pageOf_eq found, ← taken] at here
          cases here
          exact Or.inl rfl
        · exact Or.inr ⟨at_, by simpa [pageOf, same] using here⟩
      · rintro (rfl | ⟨at_, here⟩)
        · exact ⟨index, by rw [pageOf_eq found, taken]⟩
        · have kept := (Reclaims.taken popped found idle).drains.shrinks
          exact ⟨at_, kept at_ other here⟩

theorem Reclaims.uses {element : Option Nat} (owned : Owned s)
    (reclaims : Reclaims s element next) : Uses s next (if element.isSome then 1 else 0) := by
  cases element with
  | none =>
      refine .of_same (entryPages_congr reclaims.pageOf_none) ?_
      rw [reclaims.pool_eq]
      exact (Int.add_zero _).symm
  | some page =>
      have loose := owned.loose reclaims
      exact .of_lost (reclaims.entryPages) (fun ⟨index, here⟩ => loose.unheld index here)
        (by rw [reclaims.pool_eq])

/-- An allocation that ends hands out one page more. -/
theorem alloc_uses (owned : Owned s) (sound : s.reclaimList.Sound)
    (ran : s.valetMempoolAlloc = .ok (page, next)) : Uses s next 1 := by
  unfold valetMempoolAlloc Mempool.valetRemoveElement at ran
  cases elements : s.pool.elements with
  | cons element rest =>
      rw [elements] at ran
      cases ran
      exact .of_same rfl rfl
  | nil =>
      rw [elements] at ran
      have keep {mid later : PageStore Data}
          (holds : Owned mid ∧ mid.reclaimList.Sound ∧ Uses s mid 0)
          (attempt : mid.valetMempoolReclaim = .ok (none, later)) :
          Owned later ∧ later.reclaimList.Sound ∧ Uses s later 0 := by
        have reclaims := reclaims_of_ok holds.2.1 attempt
        exact ⟨holds.1.shrinks reclaims.drains.shrinks reclaims.pool_eq,
          reclaims.drains.sound holds.2.1, holds.2.2.trans (reclaims.uses holds.1)⟩
      obtain ⟨last, holds, attempt⟩ := reclaimRepeat_spec keep
        ⟨owned, sound, .of_same rfl (Int.add_zero _).symm⟩ ran
      exact holds.2.2.trans ((reclaims_of_ok holds.2.1 attempt).uses holds.1)

theorem give_entryPages {entry : TreeEntry} (has : entry.page = some page)
    (gone : s.pageOf (some index) = none) :
    entryPages { s with gptPages := Function.update s.gptPages index (some entry) } =
      insert page s.entryPages := by
  ext other
  rw [Set.mem_insert_iff]
  constructor
  · rintro ⟨at_, here⟩
    by_cases same : at_ = index
    · subst same
      rw [pageOf_eq (Function.update_self ..), has] at here
      cases here
      exact Or.inl rfl
    · exact Or.inr ⟨at_, by simpa [pageOf, same] using here⟩
  · rintro (rfl | ⟨at_, here⟩)
    · exact ⟨index, by rw [pageOf_eq (Function.update_self ..), has]⟩
    · have different : at_ ≠ index := by
        rintro rfl
        rw [gone] at here
        cases here
      exact ⟨at_, by simpa [pageOf, different] using here⟩

/-- A loose page is handed to an entry that has none. -/
theorem give_uses {entry : TreeEntry} (loose : Loose s page) (has : entry.page = some page)
    (gone : s.pageOf (some index) = none) :
    Uses s { s with gptPages := Function.update s.gptPages index (some entry) } (-1) :=
  .of_got (give_entryPages has gone) (fun ⟨at_, here⟩ => loose.unheld at_ here) rfl

/-- An entry that gets a page has none after the allocation. -/
theorem Allocates.still_gone (allocates : Allocates s page next)
    (gone : s.pageOf (some index) = none) : next.pageOf (some index) = none := by
  cases here : next.pageOf (some index) with
  | none => rfl
  | some other =>
      have before := allocates.drains.shrinks index other here
      rw [gone] at before
      cases before

theorem Inserts.uses (owned : Owned s) (sound : s.reclaimList.Sound)
    (inserts : Inserts s index next) : Uses s next 0 := by
  cases inserts with
  | fresh absent alloc =>
      have allocates := allocates_of_ok sound alloc
      have absent' : s.pageOf (some index) = none := by simp [pageOf, absent]
      have gone := allocates.still_gone absent'
      exact (alloc_uses owned sound alloc).trans (give_uses (allocates.owned owned).2 rfl gone)
  | @held entry page found here =>
      refine .of_same (entryPages_congr fun other => ?_) (Int.add_zero _).symm
      by_cases same : other = index
      · subst same
        simp [pageOf, found]
      · simp [pageOf, same]
  | @refilled entry later page middle found gone alloc still =>
      have allocates := allocates_of_ok sound alloc
      have gone' : s.pageOf (some index) = none := by rw [pageOf_eq found, gone]
      have before := allocates.still_gone gone'
      exact (alloc_uses owned sound alloc).trans (give_uses (allocates.owned owned).2 rfl before)

/-- The entries that a reclaim attempt leaves to the attempts after it. -/
theorem Reclaims.spareOf_take {element : Option Nat} (reclaims : Reclaims s element next)
    (turns : Nat) : (s.spareOf (s.reclaimList.contents.take (turns + 1))).card =
      (next.spareOf (next.reclaimList.contents.take turns)).card +
        (if element.isSome then 1 else 0) := by
  generalize outcome : element = result at reclaims
  cases reclaims with
  | nothing empty =>
      subst outcome
      rw [empty, List.take_nil, List.take_nil]
      rfl
  | @skipped index entry queue popped found busy =>
      subst outcome
      rw [popped.contents, List.take_succ_cons,
        spareOf_skip (by simp [takable_some found, busy])]
      rfl
  | @taken index entry queue popped found idle =>
      have takes : s.takable index = entry.page.isSome := by simp [takable_some found, idle]
      rw [popped.contents, List.take_succ_cons, spareOf_taken, ← outcome]
      cases here : entry.page with
      | none =>
          have out : index ∉ s.spareOf (index :: queue.contents.take turns) := by
            rw [mem_spareOf, takes, here]
            exact fun both => Bool.noConfusion both.2
          rw [Finset.erase_eq_of_notMem out, outcome, here]
          rfl
      | some page =>
          have member : index ∈ s.spareOf (index :: queue.contents.take turns) := by
            rw [mem_spareOf, takes, here]
            exact ⟨List.mem_cons_self, rfl⟩
          rw [← Finset.card_erase_add_one member, outcome, here]
          rfl

/-- The page goes back to the pool, or, if the pool is full, is counted for good. -/
theorem free_uses [Inhabited Data] (s : PageStore Data) (element : Nat) :
    Uses s (s.valetMempoolFree element) (if s.pool.currNr ≥ s.pool.capNr then 0 else -1) := by
  refine .of_same rfl ?_
  show (s.pool.valetAddElement element).usedNr = _
  unfold Mempool.valetAddElement
  split
  · exact (Int.add_zero _).symm
  · rfl

theorem free_currNr [Inhabited Data] (s : PageStore Data) (element : Nat) :
    (s.valetMempoolFree element).pool.currNr =
      s.pool.currNr + (if s.pool.currNr ≥ s.pool.capNr then 0 else 1) := by
  show (s.pool.valetAddElement element).currNr = _
  unfold Mempool.valetAddElement
  split
  · rfl
  · rfl

end PageStore

namespace Pages

variable {Data : Type}

/-- The pages that were handed out and neither freed nor given back to the system. -/
def inUse (s : Pages Data) : Set Nat := {page | page ∈ s.held} ∪ s.store.entryPages

/-- A page that the pool, the entries, the callers and the system do not know. -/
structure Stranger (s : Pages Data) (page : Nat) : Prop where
  loose : s.store.Loose page
  unlisted : page ∉ s.held ++ s.system

/-- Where the pages that `alloc_page` yielded are; `limbo` are those between two owners. -/
structure Ledger (s : Pages Data) (made : Nat) (limbo : List Nat) : Prop where
  accounted : s.Accounted
  finite : s.store.entryPages.Finite
  count : s.store.pool.usedNr =
    s.store.entryPages.ncard + s.held.length + s.system.length + limbo.length
  later : ∀ page, made ≤ page → s.Stranger page
  between : ∀ page ∈ limbo, s.Stranger page ∧ page < made

variable {s next : Pages Data} {made page : Nat}

/-- The store changes, and its used count with it. -/
theorem Ledger.goOn {store : PageStore Data} {limbo after : List Nat} (ledger : s.Ledger made limbo)
    (accounted : ({ s with store := store } : Pages Data).Accounted)
    (uses : s.store.Uses store ((after.length : Int) - limbo.length))
    (strangers : ∀ page, made ≤ page → store.Loose page)
    (between : ∀ page ∈ after, store.Loose page ∧ page ∉ s.held ++ s.system ∧ page < made) :
    ({ s with store := store } : Pages Data).Ledger made after where
  accounted := accounted
  finite := uses.finite ledger.finite
  count := by
    have total := uses.count ledger.finite
    have before := ledger.count
    show store.pool.usedNr = store.entryPages.ncard + s.held.length + s.system.length + after.length
    omega
  later := fun page late => ⟨strangers page late, (ledger.later page late).unlisted⟩
  between := fun page member =>
    ⟨⟨(between page member).1, (between page member).2.1⟩, (between page member).2.2⟩

/-- An allocation that ends. -/
theorem Ledger.allocate {store : PageStore Data} (ledger : s.Ledger made [])
    (ran : s.store.valetMempoolAlloc = .ok (page, store)) :
    ({ s with store := store } : Pages Data).Ledger made [page] := by
  have sound := ledger.accounted.sound
  have allocates := PageStore.allocates_of_ok sound ran
  obtain ⟨after, loose, fresh⟩ := ledger.accounted.allocate ran
  have later (other : Nat) (late : made ≤ other) : store.Loose other ∧ other ≠ page :=
    (ledger.later other late).loose.allocates allocates
  refine ledger.goOn after (PageStore.alloc_uses ledger.accounted.owned sound ran)
    (fun other late => (later other late).1) ?_
  intro other member
  rw [List.mem_singleton] at member
  subst member
  refine ⟨loose, fresh, Nat.lt_of_not_le fun late => ?_⟩
  exact (later other late).2 rfl

/-- A reclaim attempt. -/
theorem Ledger.reclaim {store : PageStore Data} {element : Option Nat} (ledger : s.Ledger made [])
    (reclaims : s.store.Reclaims element store) :
    ({ s with store := store } : Pages Data).Ledger made element.toList := by
  have owned := ledger.accounted.owned
  have after : ({ s with store := store } : Pages Data).Accounted :=
    ledger.accounted.goOn (reclaims.drains.sound ledger.accounted.sound)
      (owned.shrinks reclaims.drains.shrinks reclaims.pool_eq)
      fun page loose => (loose.reclaims reclaims).1
  have later (other : Nat) (late : made ≤ other) : store.Loose other ∧ element ≠ some other :=
    (ledger.later other late).loose.reclaims reclaims
  refine ledger.goOn after ?_ (fun other late => (later other late).1) ?_
  · have uses := reclaims.uses owned
    cases element with
    | none => exact uses
    | some page => exact uses
  · intro other member
    rw [Option.mem_toList] at member
    subst member
    refine ⟨owned.loose reclaims, fun member => ?_, Nat.lt_of_not_le fun late => ?_⟩
    · exact ((ledger.accounted.loose other member).reclaims reclaims).2 rfl
    · exact (later other late).2 rfl

/-- The page between two owners goes to the system. -/
theorem Ledger.freePages (ledger : s.Ledger made [page]) :
    (s.freePages page).Ledger made [] := by
  obtain ⟨stranger, early⟩ := ledger.between page (List.mem_singleton_self page)
  refine ⟨ledger.accounted.freePages stranger.loose stranger.unlisted, ledger.finite, ?_, ?_, ?_⟩
  · have count := ledger.count
    show s.store.pool.usedNr = s.store.entryPages.ncard + (s.held.length : Int) +
      ((page :: s.system).length : Nat) + _
    simp only [List.length_cons, List.length_nil] at count ⊢
    push_cast at count ⊢
    omega
  · intro other late
    have before := ledger.later other late
    refine ⟨before.loose, fun member => ?_⟩
    rcases List.mem_cons.mp (List.perm_middle.subset member) with rfl | old
    · omega
    · exact before.unlisted old
  · intro other member
    cases member

/-- The page between two owners goes to a caller. -/
theorem Ledger.hold (ledger : s.Ledger made [page]) :
    ({ s with held := page :: s.held } : Pages Data).Ledger made [] := by
  obtain ⟨stranger, early⟩ := ledger.between page (List.mem_singleton_self page)
  refine ⟨ledger.accounted.hold stranger.loose stranger.unlisted, ledger.finite, ?_, ?_, ?_⟩
  · have count := ledger.count
    show s.store.pool.usedNr = s.store.entryPages.ncard + ((page :: s.held).length : Nat) +
      (s.system.length : Int) + _
    simp only [List.length_cons, List.length_nil] at count ⊢
    push_cast at count ⊢
    omega
  · intro other late
    have before := ledger.later other late
    refine ⟨before.loose, fun member => ?_⟩
    rcases List.mem_cons.mp member with rfl | old
    · omega
    · exact before.unlisted old
  · intro other member
    cases member

/-- A caller is about to free a page. -/
theorem Ledger.release (ledger : s.Ledger made []) (holds : page ∈ s.held) :
    ({ s with held := s.held.erase page } : Pages Data).Ledger made [page] := by
  obtain ⟨accounted, loose, fresh⟩ := ledger.accounted.release holds
  refine ⟨accounted, ledger.finite, ?_, ?_, ?_⟩
  · have count := ledger.count
    have less := List.length_erase_add_one holds
    show s.store.pool.usedNr = s.store.entryPages.ncard + ((s.held.erase page).length : Int) +
      (s.system.length : Int) + _
    simp only [List.length_cons, List.length_nil] at count ⊢
    push_cast at count ⊢
    omega
  · intro other late
    have before := ledger.later other late
    refine ⟨before.loose, fun member => before.unlisted ?_⟩
    exact (List.erase_sublist.append_right s.system).subset member
  · intro other member
    rw [List.mem_singleton] at member
    subst member
    refine ⟨⟨loose, fresh⟩, Nat.lt_of_not_le fun late => ?_⟩
    exact (ledger.later other late).unlisted (List.mem_append_left s.system holds)

variable [Inhabited Data]

/-- The page between two owners is freed. -/
theorem Ledger.free (ledger : s.Ledger made [page]) :
    (s.valetMempoolFree page).Ledger made [] := by
  obtain ⟨stranger, early⟩ := ledger.between page (List.mem_singleton_self page)
  have uses := s.store.free_uses page
  have later (other : Nat) (late : made ≤ other) :
      (s.store.valetMempoolFree page).Loose other := by
    refine (ledger.later other late).loose.free ?_
    rintro rfl
    omega
  have whole := ledger.accounted.free stranger.loose stranger.unlisted
  unfold valetMempoolFree at whole ⊢
  dsimp only at whole ⊢
  split
  · rename_i full
    rw [if_pos full] at uses whole
    have freed : ({ s with store := s.store.valetMempoolFree page } : Pages Data).Ledger made
        [page] := by
      refine ledger.goOn ?_ uses later ?_
      · exact ⟨whole.sound, whole.owned, ledger.accounted.outside, fun other member =>
          whole.loose other (List.perm_middle.symm.subset (List.mem_cons_of_mem _ member))⟩
      · intro other member
        rw [List.mem_singleton] at member
        subst member
        exact ⟨stranger.loose.free_full full, stranger.unlisted, early⟩
    exact freed.freePages
  · rename_i roomy
    rw [if_neg roomy] at uses whole
    exact ledger.goOn whole uses later fun other member => by cases member

theorem Ledger.insertPage {env : AllocEnv} {index : Nat} (ledger : s.Ledger made [])
    (inserts : InsertsPage s env index next) : next.Ledger made [] := by
  have accounted := ledger.accounted
  cases inserts with
  | entered inserts =>
      have after := accounted.goOn (inserts.sound accounted.sound)
        (inserts.frame accounted.owned accounted.sound).owned
        fun page loose => loose.inserts accounted.sound inserts
      refine ledger.goOn after (inserts.uses accounted.owned accounted.sound) ?_
        fun other member => by cases member
      exact fun other late => (ledger.later other late).loose.inserts accounted.sound inserts
  | refused => exact ledger
  | undone alloc => exact (ledger.allocate alloc).free

omit [Inhabited Data] in
theorem Ledger.finish {store : PageStore Data} {indices : List Nat} (ledger : s.Ledger made [])
    (all : PageStore.FinishesAll s.store indices store) :
    ({ s with store := store } : Pages Data).Ledger made [] := by
  have accounted := ledger.accounted
  have still (page : Nat) (loose : s.store.Loose page) : store.Loose page :=
    loose.shrinks (fun index other here => (all.pageOf index).symm.trans here) all.pool_eq
  refine ledger.goOn (accounted.goOn (all.sound accounted.sound) (all.owned accounted.owned) still)
    (.of_same (PageStore.entryPages_congr all.pageOf) ?_)
    (fun page late => still page (ledger.later page late).loose) fun page member => by cases member
  rw [all.pool_eq]
  exact (Int.add_zero _).symm

omit [Inhabited Data] in
/-- A page that the pool gives up is counted as used, and goes to the system. -/
theorem Ledger.giveUp {newCapNr turns : Nat} (ledger : s.Ledger made []) :
    (giveUp newCapNr turns s).Ledger made [] := by
  induction turns generalizing s with
  | zero => exact ledger
  | succ turns ih =>
      unfold Pages.giveUp
      split
      · cases removed : s.store.pool.valetRemoveElement with
        | none => exact ledger
        | some result =>
            have taken : s.store.valetMempoolAlloc =
                .ok (result.1, { s.store with pool := result.2 }) := by
              unfold PageStore.valetMempoolAlloc
              rw [removed]
            exact ih (ledger.allocate taken).freePages
      · exact ledger

theorem Ledger.reclaimUnit {turns : Nat} (ledger : s.Ledger made [])
    (ran : reclaimUnit turns s = .ok next) : next.Ledger made [] := by
  induction turns generalizing s with
  | zero =>
      cases ran
      exact ledger
  | succ turns ih =>
      obtain ⟨⟨element, store⟩, reclaimed, rest⟩ := bind_eq_ok.mp ran
      have after := ledger.reclaim (PageStore.reclaims_of_ok ledger.accounted.sound reclaimed)
      cases element with
      | none => exact ih after rest
      | some page => exact ih after.free rest

theorem Ledger.shrink {newCapNr : Int} (ledger : s.Ledger made [])
    (ran : s.valetMempoolShrink newCapNr = .ok next) : next.Ledger made [] := by
  have accounted := ledger.accounted.shrink ran
  cases shrinkOutcome_of_ok ran with
  | gaveUp =>
      have after : (Pages.giveUp newCapNr.toNat s.store.pool.currNr s).Ledger made [] :=
        ledger.giveUp
      exact ⟨accounted, after.finite, after.count,
        fun page late => ⟨⟨(after.later page late).loose.unpooled,
          (after.later page late).loose.unheld⟩, (after.later page late).unlisted⟩,
        fun page member => by cases member⟩
  | reclaimed _ _ ran => exact ledger.reclaimUnit ran
  | kept => exact ledger

/-- What one call does to the books. -/
theorem Ledger.step {op : PageOp} (ledger : s.Ledger made []) (edge : s.step op = some next) :
    next.Ledger made [] := by
  cases calls_of_step ledger.accounted.sound edge with
  | inserted inserts => exact ledger.insertPage inserts
  | taken alloc => exact (ledger.allocate alloc).hold
  | freed holds => exact (ledger.release holds).free
  | written all => exact ledger.finish all
  | shrunk ran => exact ledger.shrink ran

/-! ## What goes back to the system -/

theorem free_system (s : Pages Data) (element : Nat) :
    (s.valetMempoolFree element).system.length =
      s.system.length + (if s.store.pool.currNr ≥ s.store.pool.capNr then 1 else 0) := by
  unfold valetMempoolFree
  dsimp only
  split
  · rfl
  · rfl

/-- What the attempts of a shrink at the minimum take and the pool has no room for goes back. -/
theorem reclaimUnit_system {turns : Nat} (sound : s.store.reclaimList.Sound)
    (stored : s.store.pool.currNr ≤ s.store.pool.capNr) (ran : reclaimUnit turns s = .ok next) :
    next.system.length = s.system.length + (s.store.pool.currNr +
      (s.store.spareOf (s.store.reclaimList.contents.take turns)).card - s.store.pool.capNr) := by
  induction turns generalizing s with
  | zero =>
      cases ran
      show next.system.length = next.system.length +
        (next.store.pool.currNr + 0 - next.store.pool.capNr)
      omega
  | succ turns ih =>
      obtain ⟨⟨element, store⟩, reclaimed, rest⟩ := bind_eq_ok.mp ran
      have reclaims := PageStore.reclaims_of_ok sound reclaimed
      have soundNext := reclaims.drains.sound sound
      have pool := reclaims.pool_eq
      have taken := reclaims.spareOf_take turns
      cases element with
      | none =>
          have later := ih soundNext (by rw [pool]; exact stored) rest
          rw [pool] at later
          rw [later, taken]
          rfl
      | some page =>
          have storedNext : store.pool.currNr ≤ store.pool.capNr := by rw [pool]; exact stored
          have freed := store.steady_free page
          have later := ih (by rw [valetMempoolFree_store]; exact soundNext)
            (by rw [valetMempoolFree_store, freed.cap]; exact freed.stored storedNext) rest
          have same : (store.valetMempoolFree page).spareOf
              ((store.valetMempoolFree page).reclaimList.contents.take turns) =
              store.spareOf (store.reclaimList.contents.take turns) := rfl
          have given := free_system { s with store := store } page
          rw [valetMempoolFree_store, same, freed.cap, store.free_currNr page] at later
          rw [later, given, taken, ← pool]
          simp only [Option.isSome_some, if_true]
          split
          · omega
          · omega

/-- A shrink has no page for the system: no free page is beyond the new capacity, or, at the
minimum, the pool has room for what the attempts take. -/
def ShrinkKeeps (s : Pages Data) (newCapNr : Int) : Prop :=
  if newCapNr < s.store.pool.capNr then
    (s.store.pool.currNr : Int) ≤ newCapNr
  else
    s.minPoolPages = s.store.pool.capNr → s.store.pool.currNr +
      (s.store.spareOf (s.store.reclaimList.contents.take resizingUnitInPages)).card ≤
        s.store.pool.capNr

/-- A call has no page for the system; only a shrink and a free may have one. -/
def CallKeeps (s : Pages Data) : PageOp → Prop
  | .free _ => s.store.pool.currNr < s.store.pool.capNr
  | .shrink newCapNr => s.ShrinkKeeps newCapNr
  | .insertPage _ _ | .alloc | .writeDone _ => True

theorem shrink_system {newCapNr : Int} (sound : s.store.reclaimList.Sound)
    (stored : s.store.pool.currNr ≤ s.store.pool.capNr)
    (ran : s.valetMempoolShrink newCapNr = .ok next) :
    next.system.length = s.system.length ↔ s.ShrinkKeeps newCapNr := by
  unfold ShrinkKeeps
  cases shrinkOutcome_of_ok ran with
  | gaveUp positive smaller =>
      rw [if_pos smaller]
      have gives := s.givesUp newCapNr.toNat s.store.pool.currNr
      have down := gives.down
      have given := gives.given
      have fewer := gives.fewer
      have least := gives.least
      show (giveUp newCapNr.toNat s.store.pool.currNr s).system.length = s.system.length ↔ _
      rw [Nat.sub_self, Nat.max_zero] at down
      rw [Nat.min_def] at least
      split at least
      · omega
      · omega
  | reclaimed larger least ran =>
      rw [if_neg larger, reclaimUnit_system sound stored ran]
      constructor
      · intro same _
        omega
      · intro fits
        have := fits least
        omega
  | kept larger above =>
      rw [if_neg larger]
      exact iff_of_true rfl fun least => absurd least above

/-- What a call does to the capacity, to the free pages and to what went back to the system. -/
structure Effect (s : Pages Data) (op : PageOp) (next : Pages Data) : Prop where
  positive : 0 < next.store.pool.capNr
  stored : next.store.pool.currNr ≤ next.store.pool.capNr
  system : next.system.length = s.system.length ↔ s.CallKeeps op

omit [Inhabited Data] in
/-- A page that has just been allocated has a place in the pool. -/
theorem room_of_alloc {store : PageStore Data} (sound : s.store.reclaimList.Sound)
    (positive : 0 < s.store.pool.capNr) (stored : s.store.pool.currNr ≤ s.store.pool.capNr)
    (alloc : s.store.valetMempoolAlloc = .ok (page, store)) :
    store.pool.currNr < store.pool.capNr := by
  have allocates := PageStore.allocates_of_ok sound alloc
  rw [allocates.cap]
  cases allocates with
  | @pooled pool top cap =>
      rw [Mempool.currNr, top, List.length_cons] at stored
      exact stored
  | reclaimed exhausted drains pool reclaims =>
      rw [reclaims.pool_eq, pool, Mempool.currNr, exhausted]
      exact positive

theorem Calls.effect {op : PageOp} (sound : s.store.reclaimList.Sound)
    (positive : 0 < s.store.pool.capNr) (stored : s.store.pool.currNr ≤ s.store.pool.capNr)
    (calls : Calls s op next) : Effect s op next := by
  have of_steady (steady : s.store.Steady next.store)
      (system : next.system.length = s.system.length ↔ s.CallKeeps op) : Effect s op next :=
    ⟨by rw [steady.cap]; exact positive, by rw [steady.cap]; exact steady.stored stored, system⟩
  cases calls with
  | inserted inserts =>
      refine of_steady (steady_insertPage sound inserts).1 (iff_of_true ?_ trivial)
      cases inserts with
      | entered inserts => rfl
      | refused => rfl
      | undone alloc =>
          have room := room_of_alloc sound positive stored alloc
          rw [free_system, if_neg (Nat.not_le_of_lt room)]
          rfl
  | taken alloc =>
      exact of_steady (PageStore.allocates_of_ok sound alloc).steady (iff_of_true rfl trivial)
  | @freed element holds =>
      refine of_steady ?_ ?_
      · rw [valetMempoolFree_store]
        exact s.store.steady_free element
      · rw [free_system]
        show s.system.length + (if s.store.pool.currNr ≥ s.store.pool.capNr then 1 else 0) =
          s.system.length ↔ s.store.pool.currNr < s.store.pool.capNr
        split
        · omega
        · omega
  | written all => exact of_steady all.steady (iff_of_true rfl trivial)
  | @shrunk newCapNr _ ran =>
      have system := shrink_system sound stored ran
      cases shrinkOutcome_of_ok ran with
      | gaveUp above =>
          have down := (s.givesUp newCapNr.toNat s.store.pool.currNr).down
          rw [Nat.sub_self, Nat.max_zero] at down
          refine ⟨?_, down, system⟩
          show 0 < newCapNr.toNat
          omega
      | reclaimed _ _ ran => exact of_steady (steady_reclaimUnit sound ran).1 system
      | kept => exact of_steady (.refl _) system

omit [Inhabited Data] in
/-- As long as nothing went back to the system, the used count is the number of pages in use. -/
theorem Ledger.used (ledger : s.Ledger made []) : s.inUse.Finite ∧
    (s.store.pool.usedNr = s.inUse.ncard ↔ s.system = []) := by
  have accounted := ledger.accounted
  have callers : {page | page ∈ s.held} = (s.held.toFinset : Set Nat) := (List.coe_toFinset _).symm
  have apart : Disjoint {page | page ∈ s.held} s.store.entryPages := by
    rw [Set.disjoint_left]
    rintro page holds ⟨index, here⟩
    exact (accounted.loose page (List.mem_append_left _ holds)).unheld index here
  have finite : {page | page ∈ s.held}.Finite := by
    rw [callers]
    exact s.held.toFinset.finite_toSet
  have count : s.inUse.ncard = s.held.length + s.store.entryPages.ncard := by
    rw [inUse, Set.ncard_union_eq apart finite ledger.finite, callers, Set.ncard_coe_finset,
      List.toFinset_card_of_nodup accounted.outside.of_append_left]
  refine ⟨finite.union ledger.finite, ?_⟩
  have total := ledger.count
  rw [List.length_nil] at total
  rw [count, ← List.length_eq_zero_iff]
  push_cast
  omega

end Pages

namespace ResizingPool

variable {Data : Type} {s next : ResizingPool Data} {op : ResizeOp}

/-- `used_nr` counts the pages in use. -/
def UsedCounted (s : ResizingPool Data) : Prop :=
  s.pages.inUse.Finite ∧ s.pool.usedNr = s.pages.inUse.ncard

/-- An expansion has room in the new array for the free pages and the new ones. -/
def NotOverrun (s : ResizingPool Data) : ResizeOp → Prop
  | .expand newCapNr env => env.vmallocOk = true →
      (s.pool.currNr + granted env.allocPageOk resizingUnitInPages : Nat) ≤ newCapNr
  | .round env => s.RoundFits (.round env)
  | .call _ => True

/-- No page goes back to the system. -/
def GivesNothing (s : ResizingPool Data) : ResizeOp → Prop
  | .call op => s.pages.CallKeeps op
  | .round env => env.freeram < s.thresholdPageShrink → s.pages.ShrinkKeeps s.shrunkCapNr
  | .expand _ _ => True

/-- The books of the pages, and a pool with some capacity that is kept to. -/
structure Books (s : ResizingPool Data) : Prop where
  ledger : s.pages.Ledger s.made []
  positive : 0 < s.pool.capNr
  stored : s.pool.currNr ≤ s.pool.capNr

/-- A pool with another capacity. -/
theorem ledger_newElements {made : Nat} (ledger : s.pages.Ledger made []) (newCapNr : Nat) :
    (s.newElements newCapNr).pages.Ledger made [] := by
  have accounted := ledger.accounted
  refine ⟨⟨accounted.sound, ⟨accounted.owned.distinct, accounted.owned.apart,
    accounted.owned.single⟩, accounted.outside, fun page member => ?_⟩, ledger.finite,
    ledger.count, fun page late => ?_, fun page member => by cases member⟩
  · have loose := accounted.loose page member
    exact ⟨loose.unpooled, loose.unheld⟩
  · have stranger := ledger.later page late
    exact ⟨⟨stranger.loose.unpooled, stranger.loose.unheld⟩, stranger.unlisted⟩

/-- The new page belonged to nobody. -/
theorem ledger_storePage (ledger : s.pages.Ledger s.made []) :
    s.storePage.pages.Ledger s.storePage.made [] := by
  have accounted := ledger.accounted
  have fresh := ledger.later s.made (le_refl _)
  have stays {page : Nat} (different : page ≠ s.made) (loose : s.pages.store.Loose page) :
      s.storePage.pages.store.Loose page := by
    refine ⟨fun member => ?_, loose.unheld⟩
    rcases List.mem_cons.mp member with same | old
    · exact different same
    · exact loose.unpooled old
  refine ⟨⟨accounted.sound, ⟨?_, ?_, accounted.owned.single⟩, accounted.outside,
    fun page member => ?_⟩, ledger.finite, ledger.count, fun page late => ?_,
    fun page member => by cases member⟩
  · exact List.nodup_cons.mpr ⟨fresh.loose.unpooled, accounted.owned.distinct⟩
  · intro index page here member
    rcases List.mem_cons.mp member with rfl | old
    · exact fresh.loose.unheld index here
    · exact accounted.owned.apart index page here old
  · refine stays ?_ (accounted.loose page member)
    rintro rfl
    exact fresh.unlisted member
  · have early : s.made + 1 ≤ page := late
    have stranger := ledger.later page (Nat.le_of_succ_le early)
    exact ⟨stays (Nat.ne_of_gt early) stranger.loose, stranger.unlisted⟩

theorem ledger_grow {allocPageOk : Nat → Bool} (ledger : s.pages.Ledger s.made []) (turns : Nat) :
    (s.grow allocPageOk turns).pages.Ledger (s.grow allocPageOk turns).made [] := by
  induction turns with
  | zero => exact ledger
  | succ turns ih =>
      rw [grow]
      split
      · exact ledger_storePage ih
      · exact ih

/-- New pages do not go to the system. -/
theorem grow_system (s : ResizingPool Data) (allocPageOk : Nat → Bool) (turns : Nat) :
    (s.grow allocPageOk turns).pages.system = s.pages.system := by
  induction turns with
  | zero => rfl
  | succ turns ih =>
      rw [grow]
      split
      · exact ih
      · exact ih

/-- What a step does to the books, and when nothing goes back to the system. -/
structure Kept (s : ResizingPool Data) (op : ResizeOp) (next : ResizingPool Data) : Prop where
  books : next.Books
  system : next.pages.system.length = s.pages.system.length ↔ s.GivesNothing op

theorem Books.grow {newCapNr : Nat} {allocPageOk : Nat → Bool} (books : s.Books)
    (positive : 0 < newCapNr)
    (fits : s.pool.currNr + granted allocPageOk resizingUnitInPages ≤ newCapNr) :
    ((s.newElements newCapNr).grow allocPageOk resizingUnitInPages).Books ∧
      ((s.newElements newCapNr).grow allocPageOk resizingUnitInPages).pages.system =
        s.pages.system := by
  have grown := grown (s.newElements newCapNr) allocPageOk resizingUnitInPages
  refine ⟨⟨ledger_grow (ledger_newElements books.ledger newCapNr) _, ?_, ?_⟩, ?_⟩
  · rw [grown.cap]
    exact positive
  · rw [grown.cap, grown.stored]
    exact fits
  · rw [grow_system]
    rfl

variable [Inhabited Data]

theorem Books.call {op : PageOp} (books : s.Books) (edge : s.call op = some next) :
    s.Kept (.call op) next := by
  obtain ⟨pages, threshold, ran, rfl⟩ := call_cases edge
  have sound := books.ledger.accounted.sound
  have effect := (Pages.calls_of_step sound ran).effect sound books.positive books.stored
  exact ⟨⟨books.ledger.step ran, effect.positive, effect.stored⟩, effect.system⟩

theorem Books.step (books : s.Books) (fits : s.NotOverrun op) (edge : s.step op = some next) :
    s.Kept op next := by
  cases op with
  | call op => exact books.call edge
  | expand newCapNr env =>
      have ran := toOption_eq_some edge
      unfold valetMempoolExpand at ran
      split at ran
      · cases ran
      · rename_i positive
        split at ran
        · cases ran
          exact ⟨books, iff_of_true rfl trivial⟩
        · rename_i array
          cases ran
          have room := fits (by simpa using array)
          have enough : s.pool.currNr + granted env.allocPageOk resizingUnitInPages ≤
              newCapNr.toNat := by omega
          obtain ⟨after, system⟩ := books.grow (by omega) enough
          exact ⟨after, iff_of_true (by rw [system]) trivial⟩
  | round env =>
      cases roundOutcome_of_step edge with
      | shrunk short ran =>
          have shrinks : { s with threshold := s.shrunkCapNr }.call (.shrink s.shrunkCapNr) =
              some next := by
            rw [ResizingPool.call, ran]
            rfl
          have sooner : Books { s with threshold := s.shrunkCapNr } :=
            ⟨books.ledger, books.positive, books.stored⟩
          have kept := sooner.call shrinks
          refine ⟨kept.books, kept.system.trans ?_⟩
          exact ⟨fun keeps _ => keeps, fun keeps => keeps short⟩
      | grown expands =>
          obtain ⟨after, system⟩ := books.grow expands.positive (fits expands)
          refine ⟨after, iff_of_true (by rw [system]) fun short => ?_⟩
          exact absurd short expands.plenty
      | idle plenty calm =>
          exact ⟨books, iff_of_true rfl fun short => absurd short plenty⟩

theorem books_init {minPoolPages : Nat} (positive : 0 < minPoolPages) (maxPoolPages freeram : Nat) :
    (init minPoolPages maxPoolPages freeram : ResizingPool Data).Books where
  ledger := by
    have empty : (init minPoolPages maxPoolPages freeram : ResizingPool Data).pages.store.entryPages =
        ∅ := Set.eq_empty_of_forall_notMem fun page ⟨index, here⟩ => by cases here
    refine ⟨Pages.accounted_init _ _ _, by rw [empty]; exact Set.finite_empty, ?_, ?_, ?_⟩
    · rw [empty, Set.ncard_empty]
      rfl
    · intro page late
      refine ⟨⟨fun member => ?_, fun index here => by cases here⟩, List.not_mem_nil⟩
      have early := Mempool.mem_allocatedPages.mp member
      exact absurd early (Nat.not_lt_of_le late)
    · intro page member
      cases member
  positive := positive
  stored := by
    show (Mempool.allocatedPages minPoolPages).length ≤ minPoolPages
    rw [Mempool.length_allocatedPages]

/-- Nothing has gone back to the system so far. -/
structure Whole (s : ResizingPool Data) : Prop where
  books : s.Books
  nothing : s.pages.system = []

/-- In a run in which the array is never overrun, `used_nr` counts the pages in use all along,
exactly as long as no free and no shrink has a page for the system. -/
theorem used_counted_iff {minPoolPages maxPoolPages freeram : Nat} {ops : List ResizeOp}
    {last : ResizingPool Data} (positive : 0 < minPoolPages)
    (run : Run step NotOverrun (init minPoolPages maxPoolPages freeram) ops last) :
    (∀ count (middle : ResizingPool Data),
      exec step (init minPoolPages maxPoolPages freeram) (ops.take count) = some middle →
        middle.UsedCounted) ↔
      Run step (fun s op => s.NotOverrun op ∧ s.GivesNothing op)
        (init minPoolPages maxPoolPages freeram) ops last := by
  have start : (init minPoolPages maxPoolPages freeram : ResizingPool Data).Whole :=
    ⟨books_init positive _ _, rfl⟩
  refine guarded_iff_within ?_ ?_ ?_ start run
  · intro s next op whole fits keeps edge
    have kept := whole.books.step fits edge
    have same := kept.system.mpr keeps
    rw [whole.nothing] at same
    exact ⟨kept.books, List.length_eq_zero_iff.mp same⟩
  · intro s whole
    obtain ⟨finite, used⟩ := whole.books.ledger.used
    exact ⟨finite, used.mpr whole.nothing⟩
  · intro s next op whole fits edge counted
    have kept := whole.books.step fits edge
    have nothing := kept.books.ledger.used.2.mp counted.2
    refine kept.system.mp ?_
    rw [nothing, whole.nothing]

/-- The round that expands and gets two pages. -/
theorem step_two : handedOut.step (.round (muchFree fun turn => decide (turn < 2))) =
    some ((handedOut.newElements 2).grow (fun turn => decide (turn < 2)) 2) := by
  have few : 2 ≤ resizingUnitInPages := by decide
  have cap : handedOut.expandedCapNr = 2 := by decide
  rw [step_of_expands (handedOut_expands _), cap]
  exact congrArg some (grow_stops (quiet_after 2) few)

/-- One page is handed out, the pool expands by two, and one of its pages is handed out too. -/
theorem used_counted_iff_two :
    ∃ last : ResizingPool Nat, exec step (init 1 2 100)
        [.call .alloc, .round (muchFree fun turn => decide (turn < 2)), .call .alloc] = some last ∧
      last.UsedCounted := by
  obtain ⟨last, third⟩ : ∃ last, ResizingPool.step
      ((handedOut.newElements 2).grow (fun turn => decide (turn < 2)) 2) (.call .alloc) =
        some last := ⟨_, rfl⟩
  have run : Run step NotOverrun (init 1 2 100)
      [.call .alloc, .round (muchFree fun turn => decide (turn < 2)), .call .alloc] last :=
    .head trivial step_handedOut (.head handedOut_fits step_two (.head trivial third (.refl _)))
  have plenty : ¬ (muchFree fun turn => decide (turn < 2)).freeram <
      handedOut.thresholdPageShrink := by
    show ¬ 100 < 15
    decide
  have whole := (used_counted_iff Nat.one_pos run).mpr (.head ⟨trivial, trivial⟩ step_handedOut
    (.head ⟨handedOut_fits, fun short => absurd short plenty⟩ step_two
      (.head ⟨trivial, trivial⟩ third (.refl _))))
  exact ⟨last, run.exec_eq, whole 3 last run.exec_eq⟩

/-- Little memory is free. -/
def littleFree : ResizeEnv := ⟨0, true, fun _ => true⟩

/-- One page is handed out, the pool expands by two and shrinks again by one, which stays counted. -/
theorem shrink_miscounts : ¬ ∀ (minPoolPages maxPoolPages freeram : Nat) (ops : List ResizeOp)
    (last : ResizingPool Nat), 0 < minPoolPages →
      Run step NotOverrun (init minPoolPages maxPoolPages freeram) ops last →
      last.UsedCounted := by
  intro claim
  obtain ⟨last, third, used, held, entries⟩ : ∃ last : ResizingPool Nat, ResizingPool.step
      ((handedOut.newElements 2).grow (fun turn => decide (turn < 2)) 2) (.round littleFree) =
        some last ∧ last.pool.usedNr = 2 ∧ last.pages.held = [0] ∧
      last.pages.store.gptPages = fun _ => none := ⟨_, rfl, rfl, rfl, rfl⟩
  have short : littleFree.freeram <
      ((handedOut.newElements 2).grow (fun turn => decide (turn < 2)) 2).thresholdPageShrink := by
    show 0 < 15
    decide
  have run : Run step NotOverrun (init 1 2 100)
      [.call .alloc, .round (muchFree fun turn => decide (turn < 2)), .round littleFree] last :=
    .head trivial step_handedOut (.head handedOut_fits step_two
      (.head (fun expands => absurd short expands.plenty) third (.refl _)))
  obtain ⟨_, counted⟩ := claim 1 2 100 _ last Nat.one_pos run
  have single : last.pages.inUse = {0} := by
    ext page
    constructor
    · rintro (holds | ⟨index, here⟩)
      · have member : page ∈ last.pages.held := holds
        rw [held, List.mem_singleton] at member
        exact member
      · rw [PageStore.pageOf, entries] at here
        cases here
    · rintro rfl
      exact Or.inl (by rw [held]; exact List.mem_cons_self)
  rw [used, single, Set.ncard_singleton] at counted
  omega

end ResizingPool

end Valet.Bd
