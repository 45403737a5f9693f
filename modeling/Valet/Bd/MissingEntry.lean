import Valet.Bd.Ownership
import Valet.Bd.Reclaim
import Mathlib.Data.Finset.Card

/-!
# Write requests with a page that cannot be inserted

`gpt_insert_page` returns `NULL` when `kmalloc` or the preload fails, and waits
while there is no page.  `write_to_brd` keeps what it returns and goes on: the
copy loop dereferences it, and no path from there gives the request up.  Other
threads go on while it waits.  The loop runs through without a wait when the
entries can be made and the pages suffice, counted in the pool and with the
listed entries that would give theirs up.
-/

namespace Valet.Bd

open Valet.Library

namespace PageStore

variable {Data : Type}

/-- The reclaim list is a sound ring of entries that are in the tree. -/
structure Filed (s : PageStore Data) : Prop where
  sound : s.reclaimList.Sound
  exist : ∀ index ∈ s.reclaimList.contents, (s.gptPages index).isSome

/-- The entry has a page that a reclaim attempt takes. -/
def takable (s : PageStore Data) (index : Nat) : Bool :=
  match s.gptPages index with
  | none => false
  | some entry => !entry.testFlag .updating && entry.page.isSome

/-- The entries of a list that would give their page up. -/
def spareOf (s : PageStore Data) (indices : List Nat) : Finset Nat :=
  indices.toFinset.filter fun index => s.takable index = true

/-- The listed entries that would give their page up. -/
def spare (s : PageStore Data) : Finset Nat := s.spareOf s.reclaimList.contents

/-- The pages that can be allocated. -/
def supply (s : PageStore Data) : Nat := s.pool.currNr + s.spare.card

/-- An insertion costs a page of the supply: one for the entry, or the one that the entry has
and would have given up. -/
def wants (s : PageStore Data) (index : Nat) : Bool :=
  (s.pageOf (some index)).isNone || decide (index ∈ s.spare)

/-- If the page has no entry yet, one can be made and inserted. -/
def Admits (env : AllocEnv) (s : PageStore Data) (index : Nat) : Prop :=
  s.gptPages index = none → env.kmallocOk = true ∧ env.preloadOk = true

variable {s middle next : PageStore Data} {index page : Nat}

theorem mem_spareOf {indices : List Nat} : index ∈ s.spareOf indices ↔
    index ∈ indices ∧ s.takable index = true := by
  rw [spareOf, Finset.mem_filter, List.mem_toFinset]

theorem mem_spare : index ∈ s.spare ↔
    index ∈ s.reclaimList.contents ∧ s.takable index = true := mem_spareOf

theorem takable_some {entry : TreeEntry} (found : s.gptPages index = some entry) :
    s.takable index = (!entry.testFlag .updating && entry.page.isSome) := by
  simp only [takable, found]

theorem Admits.congr_iff {env : AllocEnv} (same : next.gptPages index = none ↔
    s.gptPages index = none) : Admits env next index ↔ Admits env s index := by
  rw [Admits, Admits, same]

/-- An entry without a page has none to give up. -/
theorem not_spare (gone : s.pageOf (some index) = none) : index ∉ s.spare := by
  rw [mem_spare]
  rintro ⟨_, takes⟩
  cases found : s.gptPages index with
  | none =>
      simp only [takable, found] at takes
      cases takes
  | some entry =>
      rw [pageOf_eq found] at gone
      simp [takable_some found, gone] at takes

theorem Filed.drains (filed : Filed s) (drains : Drains s next) : Filed next :=
  ⟨drains.sound filed.sound,
    fun index member => drains.keeps index (filed.exist index (drains.mem member))⟩

theorem Filed.update (filed : Filed s) (entry : TreeEntry) :
    Filed { s with gptPages := Function.update s.gptPages index (some entry) } := by
  refine ⟨filed.sound, fun other member => ?_⟩
  by_cases same : other = index
  · subst same
    simp
  · simpa [same] using filed.exist other member

theorem Filed.finishes (filed : Filed s) (finishes : FinishesEntry s index next) : Filed next := by
  cases finishes with
  | listed found flagged => exact filed.update _
  | @queued entry queue found fresh put =>
      have exist : ∀ other ∈ queue.contents, (s.gptPages other).isSome := by
        intro other member
        rcases filed.sound.mem_enqueue put member with old | rfl
        · exact filed.exist other old
        · rw [found]
          rfl
      have queued : Filed { s with reclaimList := queue } := ⟨filed.sound.enqueue put, exist⟩
      exact queued.update _
  | full found fresh put => exact filed.update _

theorem Filed.finishesAll {indices : List Nat} (filed : Filed s)
    (all : FinishesAll s indices next) : Filed next := by
  induction all with
  | nil => exact filed
  | cons finishes tail ih => exact ih (filed.finishes finishes)

/-! ## What an allocation takes -/

/-- `count` pages of the supply are taken, and the insertions cost what they did. -/
structure Spends (s next : PageStore Data) (count : Nat) : Prop where
  supply : next.supply + count = s.supply
  wants : ∀ index, next.wants index = s.wants index

theorem Spends.trans {first second : Nat} (start : Spends s middle first)
    (finish : Spends middle next second) : Spends s next (first + second) := by
  refine ⟨?_, fun index => (finish.wants index).trans (start.wants index)⟩
  rw [← start.supply, ← finish.supply]
  omega

/-- The list without an entry that has nothing to give up. -/
theorem spareOf_skip {rest : List Nat} (nothing : s.takable index = false) :
    s.spareOf (index :: rest) = s.spareOf rest := by
  ext other
  rw [mem_spareOf, mem_spareOf, List.mem_cons]
  constructor
  · rintro ⟨rfl | member, takes⟩
    · rw [nothing] at takes
      cases takes
    · exact ⟨member, takes⟩
  · rintro ⟨member, takes⟩
    exact ⟨Or.inr member, takes⟩

/-- An attempt that takes an entry off the list leaves it with nothing to give up. -/
theorem spareOf_taken {entry : TreeEntry} {queue : AlfQueue Nat} {rest : List Nat} :
    spareOf { s with
      reclaimList := queue
      gptPages := Function.update s.gptPages index (some entry.emptied) } rest =
      (s.spareOf (index :: rest)).erase index := by
  ext other
  rw [mem_spareOf, Finset.mem_erase, mem_spareOf, List.mem_cons]
  by_cases same : other = index
  · subst same
    simp [takable]
  · simp [takable, same]

theorem spare_popped {queue : AlfQueue Nat} (popped : Popped s.reclaimList index queue)
    (nothing : s.takable index = false) :
    spare { s with reclaimList := queue } = s.spare := by
  rw [spare, spare, popped.contents, spareOf_skip nothing]
  rfl

theorem spare_taken {entry : TreeEntry} {queue : AlfQueue Nat}
    (popped : Popped s.reclaimList index queue) :
    spare { s with
      reclaimList := queue
      gptPages := Function.update s.gptPages index (some entry.emptied) } =
      s.spare.erase index := by
  rw [spare, spare, popped.contents, spareOf_taken]

theorem Reclaims.spends {element : Option Nat} (reclaims : Reclaims s element next) :
    Spends s next (if element.isSome then 1 else 0) := by
  generalize outcome : element = result at reclaims
  cases reclaims with
  | nothing =>
      subst outcome
      exact ⟨rfl, fun _ => rfl⟩
  | @skipped index entry queue popped found busy =>
      subst outcome
      have same := spare_popped popped (by simp [takable_some found, busy])
      refine ⟨?_, fun other => ?_⟩
      · simp [supply, same]
      · simp only [wants, same]
        rfl
  | @taken index entry queue popped found idle =>
      have left : spare { s with
          reclaimList := queue
          gptPages := Function.update s.gptPages index (some entry.emptied) } =
          s.spare.erase index := spare_taken popped
      have others (other : Nat) (different : other ≠ index) :
          wants { s with
            reclaimList := queue
            gptPages := Function.update s.gptPages index (some entry.emptied) } other =
            s.wants other := by
        simp [wants, left, pageOf, different]
      cases here : entry.page with
      | none =>
          have gone : s.pageOf (some index) = none := by rw [pageOf_eq found, here]
          have kept := left.trans (Finset.erase_eq_of_notMem (not_spare gone))
          rw [here] at outcome
          subst outcome
          refine ⟨by simp [supply, kept], fun other => ?_⟩
          by_cases same : other = index
          · subst same
            have before : s.wants other = true := by
              rw [wants, gone]
              rfl
            rw [before]
            simp [wants, pageOf]
          · exact others other same
      | some page =>
          have member : index ∈ s.spare := by
            rw [mem_spare, popped.contents, takable_some found, idle, here]
            exact ⟨List.mem_cons_self, rfl⟩
          have fewer := Finset.card_erase_add_one member
          rw [here] at outcome
          subst outcome
          refine ⟨?_, fun other => ?_⟩
          · simp only [supply, left, Option.isSome_some, if_true]
            rw [← fewer]
            rfl
          · by_cases same : other = index
            · subst same
              simp [wants, member, pageOf]
            · exact others other same

/-- An allocation that ends takes one page of the supply. -/
theorem alloc_spends (filed : Filed s) (ran : s.valetMempoolAlloc = .ok (page, next)) :
    Filed next ∧ Spends s next 1 := by
  unfold valetMempoolAlloc Mempool.valetRemoveElement at ran
  cases elements : s.pool.elements with
  | cons element rest =>
      rw [elements] at ran
      cases ran
      refine ⟨⟨filed.sound, filed.exist⟩, ?_, fun _ => rfl⟩
      simp only [supply, Mempool.currNr, elements, List.length_cons]
      show rest.length + s.spare.card + 1 = rest.length + 1 + s.spare.card
      omega
  | nil =>
      rw [elements] at ran
      have keep {mid later : PageStore Data} (holds : Filed mid ∧ Spends s mid 0)
          (attempt : mid.valetMempoolReclaim = .ok (none, later)) :
          Filed later ∧ Spends s later 0 := by
        have reclaims := reclaims_of_ok holds.1.sound attempt
        exact ⟨holds.1.drains reclaims.drains, holds.2.trans reclaims.spends⟩
      obtain ⟨last, holds, attempt⟩ :=
        reclaimRepeat_spec keep ⟨filed, rfl, fun _ => rfl⟩ ran
      have reclaims := reclaims_of_ok holds.1.sound attempt
      exact ⟨holds.1.drains reclaims.drains, holds.2.trans reclaims.spends⟩

/-- The attempts reach a listed entry that gives its page up. -/
theorem reclaimRepeat_of_spare {attempts : Nat} (filed : Filed s) (some_ : s.spare.Nonempty)
    (enough : s.reclaimList.contents.length < attempts) :
    ∃ page next, PageStore.reclaimRepeat attempts s = .ok (page, next) := by
  induction attempts generalizing s with
  | zero => omega
  | succ attempts ih =>
      obtain ⟨element, middle, attempt⟩ := reclaim_total filed.sound filed.exist
      have reclaims := reclaims_of_ok filed.sound attempt
      have spends := reclaims.spends
      unfold PageStore.reclaimRepeat
      cases element with
      | some page => exact ⟨page, middle, by rw [attempt]; rfl⟩
      | none =>
          have still : middle.spare.Nonempty := by
            have supply := spends.supply
            rw [PageStore.supply, PageStore.supply, reclaims.pool_eq] at supply
            have positive := Finset.card_pos.mpr some_
            simp only [Option.isSome_none, Bool.false_eq_true, if_false] at supply
            exact Finset.card_pos.mp (by omega)
          have shorter : middle.reclaimList.contents.length < attempts := by
            generalize vain : (none : Option Nat) = element at reclaims
            cases reclaims with
            | nothing empty =>
                obtain ⟨index, member⟩ := some_
                rw [mem_spare, empty] at member
                cases member.1
            | skipped popped found busy =>
                rw [popped.contents, List.length_cons] at enough
                exact Nat.lt_of_succ_lt_succ enough
            | taken popped found idle =>
                rw [popped.contents, List.length_cons] at enough
                exact Nat.lt_of_succ_lt_succ enough
          obtain ⟨page, last, rest⟩ := ih (filed.drains reclaims.drains) still shorter
          exact ⟨page, last, by rw [attempt]; exact rest⟩

/-- An allocation ends as long as there is a supply. -/
theorem alloc_of_supply (filed : Filed s) (positive : 0 < s.supply) :
    ∃ page next, s.valetMempoolAlloc = .ok (page, next) := by
  unfold valetMempoolAlloc Mempool.valetRemoveElement
  cases elements : s.pool.elements with
  | cons element rest => exact ⟨_, _, rfl⟩
  | nil =>
      rw [supply, Mempool.currNr, elements, List.length_nil, Nat.zero_add] at positive
      refine reclaimRepeat_of_spare filed (Finset.card_pos.mp positive) ?_
      rw [filed.sound.contents_length]
      exact Nat.lt_succ_self _

/-! ## What an insertion takes -/

/-- Writing an entry that has nothing to give up. -/
theorem spare_update {entry : TreeEntry}
    (keeps : index ∈ s.reclaimList.contents → entry.testFlag .updating = true) :
    spare { s with gptPages := Function.update s.gptPages index (some entry) } =
      s.spare.erase index := by
  ext other
  rw [mem_spare, Finset.mem_erase, mem_spare]
  by_cases same : other = index
  · subst same
    refine iff_of_false ?_ fun both => both.1 rfl
    rintro ⟨member, takes⟩
    rw [takable_some (Function.update_self ..), keeps member] at takes
    cases takes
  · simp [takable, same]

/-- What an insertion costs; the other entries are as before to later insertions. -/
structure InsertSpends (s : PageStore Data) (index : Nat) (next : PageStore Data) : Prop where
  filed : Filed next
  supply : next.supply + (if s.wants index then 1 else 0) = s.supply
  wants : ∀ other, other ≠ index → next.wants other = s.wants other
  absent : ∀ other, other ≠ index → (next.gptPages other = none ↔ s.gptPages other = none)

/-- The entry is written in the store that the allocation, if there is one, leaves. -/
theorem InsertSpends.update {entry : TreeEntry} {count : Nat} (filed : Filed middle)
    (spends : Spends s middle count)
    (absent : ∀ other, middle.gptPages other = none ↔ s.gptPages other = none)
    (keeps : index ∈ middle.reclaimList.contents → entry.testFlag .updating = true)
    (cost : (middle.spare.erase index).card + (if s.wants index then 1 else 0) =
      middle.spare.card + count) :
    InsertSpends s index
      { middle with gptPages := Function.update middle.gptPages index (some entry) } := by
  have left := spare_update keeps
  refine ⟨filed.update entry, ?_, ?_, ?_⟩
  · have total := spends.supply
    rw [PageStore.supply] at total
    rw [PageStore.supply, left]
    show middle.pool.currNr + _ + _ = _
    omega
  · intro other different
    rw [← spends.wants other]
    simp [PageStore.wants, left, pageOf, different]
  · intro other different
    rw [← absent other]
    simp [different]

theorem Inserts.spends (filed : Filed s) (inserts : Inserts s index next) :
    InsertSpends s index next := by
  cases inserts with
  | @fresh page middle absent alloc =>
      obtain ⟨filedNext, spends⟩ := alloc_spends filed alloc
      have drains := (allocates_of_ok filed.sound alloc).drains
      have out : index ∉ middle.reclaimList.contents := by
        intro member
        have present := filedNext.exist index member
        rw [drains.absent.mpr absent] at present
        cases present
      have wanted : s.wants index = true := by simp [wants, pageOf, absent]
      refine .update filedNext spends (fun _ => drains.absent) (fun member => absurd member out) ?_
      rw [Finset.erase_eq_of_notMem fun member => out (mem_spare.mp member).1, wanted, if_pos rfl]
  | @held entry page found here =>
      refine .update filed ⟨Nat.add_zero _, fun _ => rfl⟩ (fun _ => Iff.rfl) (by simp) ?_
      by_cases member : index ∈ s.spare
      · have wanted : s.wants index = true := by simp [wants, member]
        rw [wanted, if_pos rfl]
        exact Finset.card_erase_add_one member
      · have content : s.wants index = false := by
          simp [wants, member, pageOf_eq found, here]
        rw [Finset.erase_eq_of_notMem member, content]
        rfl
  | @refilled entry later page middle found gone alloc still =>
      obtain ⟨filedNext, spends⟩ := alloc_spends filed alloc
      have drains := (allocates_of_ok filed.sound alloc).drains
      have before : s.pageOf (some index) = none := by rw [pageOf_eq found, gone]
      have after : middle.pageOf (some index) = none := by
        cases here : middle.pageOf (some index) with
        | none => rfl
        | some page =>
            have earlier := drains.shrinks index page here
            rw [before] at earlier
            cases earlier
      have wanted : s.wants index = true := by simp [wants, before]
      refine .update filedNext spends (fun _ => drains.absent) (by simp) ?_
      rw [Finset.erase_eq_of_notMem (not_spare after), wanted, if_pos rfl]

theorem Filed.insertsAll {indices : List Nat} (filed : Filed s)
    (all : InsertsAll s indices next) : Filed next := by
  induction all with
  | nil => exact filed
  | cons inserts tail ih => exact ih (inserts.spends filed).filed

/-- An entry is returned when it can be made and there is a page for it. -/
theorem gptInsertPage_iff [Inhabited Data] {env : AllocEnv} (filed : Filed s) :
    (∃ next, gptInsertPage env s index = .ok (some index, next)) ↔
      Admits env s index ∧ (if s.wants index then 1 else 0) ≤ s.supply := by
  constructor
  · rintro ⟨next, ran⟩
    refine ⟨fun absent => ?_, ?_⟩
    · simp only [gptInsertPage, absent, gptAllocEntry] at ran
      cases kmalloc : env.kmallocOk with
      | false => simp [kmalloc] at ran; cases ran
      | true =>
          refine ⟨rfl, ?_⟩
          cases preload : env.preloadOk with
          | true => rfl
          | false =>
              obtain ⟨⟨allocated, middle⟩, alloc, rest⟩ := bind_eq_ok.mp ran
              simp only [kmalloc] at alloc
              obtain ⟨⟨page, middle⟩, took, pair⟩ := bind_eq_ok.mp alloc
              cases pair
              simp only [preload] at rest
              cases rest
    · rw [← ((inserts_of_ok filed.sound ran).2.spends filed).supply]
      exact Nat.le_add_left _ _
  · rintro ⟨admits, enough⟩
    unfold gptInsertPage
    cases found : s.gptPages index with
    | none =>
        have wanted : s.wants index = true := by simp [wants, pageOf, found]
        rw [wanted, if_pos rfl] at enough
        obtain ⟨page, middle, alloc⟩ := alloc_of_supply filed enough
        obtain ⟨kmalloc, preload⟩ := admits found
        have still := (allocates_of_ok filed.sound alloc).drains.absent.mpr found
        refine ⟨{ middle with
          gptPages := Function.update middle.gptPages index (some ⟨some page, fun _ => false, 0⟩) },
          ?_⟩
        simp only [gptAllocEntry, kmalloc, preload, alloc, Bool.not_true, Bool.false_eq_true,
          if_false]
        show (if (middle.gptPages index).isSome then _ else _) = _
        rw [still]
        rfl
    | some entry =>
        cases here : entry.page with
        | some page =>
            refine ⟨s.modifyEntry index TreeEntry.beginWrite, ?_⟩
            simp only [here]
        | none =>
            have wanted : s.wants index = true := by simp [wants, pageOf_eq found, here]
            rw [wanted, if_pos rfl] at enough
            obtain ⟨page, middle, alloc⟩ := alloc_of_supply filed enough
            refine ⟨(middle.modifyEntry index fun entry =>
              { entry with page := some page }).modifyEntry index TreeEntry.beginWrite, ?_⟩
            simp only [here, alloc]
            rfl

/-- The costs of the pages that are still to be inserted stay. -/
theorem InsertSpends.later {rest : List Nat} (spends : InsertSpends s index next)
    (fresh : index ∉ rest) : rest.countP next.wants = rest.countP s.wants := by
  refine List.countP_congr fun other member => ?_
  rw [spends.wants other fun same => fresh (same ▸ member)]

/-- The loop inserts all pages of a request without a wait exactly when the missing entries can be
made and the pages suffice. -/
theorem insertPages_iff [Inhabited Data] {env : Nat → AllocEnv} {indices : List Nat}
    (filed : Filed s) (distinct : indices.Nodup) :
    (∃ next, insertPages env s indices = .ok (indices.map some, next)) ↔
      (∀ index ∈ indices, Admits (env index) s index) ∧ indices.countP s.wants ≤ s.supply := by
  induction indices generalizing s with
  | nil =>
      refine iff_of_true ⟨s, rfl⟩ ⟨fun index member => ?_, Nat.zero_le _⟩
      cases member
  | cons index rest ih =>
      obtain ⟨fresh, distinct⟩ := List.nodup_cons.mp distinct
      rw [List.countP_cons]
      constructor
      · rintro ⟨next, ran⟩
        obtain ⟨⟨entry, middle⟩, first, more⟩ := bind_eq_ok.mp ran
        obtain ⟨⟨others, last⟩, tail, pair⟩ := bind_eq_ok.mp more
        cases pair
        have spends := (inserts_of_ok filed.sound first).2.spends filed
        obtain ⟨admits, enough⟩ := (ih spends.filed distinct).mp ⟨next, tail⟩
        obtain ⟨now, _⟩ := (gptInsertPage_iff filed).mp ⟨middle, first⟩
        rw [spends.later fresh] at enough
        refine ⟨fun other member => ?_, by rw [← spends.supply]; omega⟩
        rcases List.mem_cons.mp member with rfl | more
        · exact now
        · have different : other ≠ index := fun same => fresh (same ▸ more)
          exact (Admits.congr_iff (spends.absent other different)).mp (admits other more)
      · rintro ⟨admits, enough⟩
        obtain ⟨middle, first⟩ := (gptInsertPage_iff filed).mpr
          ⟨admits index List.mem_cons_self, by omega⟩
        have spends := (inserts_of_ok filed.sound first).2.spends filed
        have admitsRest : ∀ other ∈ rest, Admits (env other) middle other := by
          intro other member
          have different : other ≠ index := fun same => fresh (same ▸ member)
          exact (Admits.congr_iff (spends.absent other different)).mpr
            (admits other (List.mem_cons_of_mem _ member))
        have enoughRest : rest.countP middle.wants ≤ middle.supply := by
          rw [spends.later fresh]
          have total := spends.supply
          omega
        obtain ⟨next, tail⟩ := (ih spends.filed distinct).mpr ⟨admitsRest, enoughRest⟩
        exact ⟨next, bind_eq_ok.mpr ⟨_, first, bind_eq_ok.mpr ⟨_, tail, rfl⟩⟩⟩

/-- Two pages in the pool, and an empty tree. -/
def twoPagesFree : PageStore Nat where
  pool := .valetMempoolCreate 2
  gptPages := fun _ => none
  reclaimList := alfQueueAlloc AlfQueue.maxPoolPages
  memory := fun _ => 0

theorem filed_twoPagesFree : Filed twoPagesFree :=
  ⟨AlfQueue.ready_alloc.sound, fun index member => by simp [twoPagesFree] at member⟩

/-- Two pages are enough for two new entries, and not for three. -/
theorem insertPages_iff_twoFree :
    (∃ next, insertPages (fun _ => ⟨true, true⟩) twoPagesFree [0, 1] =
        .ok ([0, 1].map some, next)) ∧
      ¬ ∃ next, insertPages (fun _ => ⟨true, true⟩) twoPagesFree [0, 1, 2] =
        .ok ([0, 1, 2].map some, next) := by
  rw [insertPages_iff filed_twoPagesFree (by decide), insertPages_iff filed_twoPagesFree (by decide)]
  refine ⟨⟨fun _ _ _ => ⟨rfl, rfl⟩, by decide⟩, ?_⟩
  rintro ⟨_, enough⟩
  exact absurd enough (by decide)

/-! ## The loop among other threads -/

/-- What happens between two turns: the ring stays sound, and the pages that are still to be
inserted are in the tree as before. -/
structure Others (indices : List Nat) (s next : PageStore Data) : Prop where
  filed : Filed s → Filed next
  absent : ∀ index ∈ indices, next.gptPages index = none ↔ s.gptPages index = none

/-- The vain attempts of a call that waits are among it. -/
theorem Drains.others {indices : List Nat} (drains : Drains s next) : Others indices s next :=
  ⟨fun filed => filed.drains drains, fun _ _ => drains.absent⟩

/-- The executions of the first loop of `write_to_brd` that are over, with what it has put into
`batch_list`.  A call that waits for a page goes on when others have brought one. -/
inductive InsertLoop [Inhabited Data] (env : Nat → AllocEnv) :
    PageStore Data → List Nat → List (Option Nat) → PageStore Data → Prop where
  | nil (s : PageStore Data) : InsertLoop env s [] [] s
  | others {s middle next : PageStore Data} {indices : List Nat} {entries : List (Option Nat)}
      (others : Others indices s middle) (tail : InsertLoop env middle indices entries next) :
      InsertLoop env s indices entries next
  | turn {s middle next : PageStore Data} {index : Nat} {rest : List Nat} {entry : Option Nat}
      {entries : List (Option Nat)} (ran : gptInsertPage (env index) s index = .ok (entry, middle))
      (tail : InsertLoop env middle rest entries next) :
      InsertLoop env s (index :: rest) (entry :: entries) next

/-- Without a wait and without others the loop is `insertPages`. -/
theorem insertLoop_of_ok [Inhabited Data] {env : Nat → AllocEnv} {indices : List Nat}
    {entries : List (Option Nat)} (ran : insertPages env s indices = .ok (entries, next)) :
    InsertLoop env s indices entries next := by
  induction indices generalizing s entries with
  | nil =>
      cases ran
      exact .nil _
  | cons index rest ih =>
      obtain ⟨⟨entry, middle⟩, first, more⟩ := bind_eq_ok.mp ran
      obtain ⟨⟨others, last⟩, tail, pair⟩ := bind_eq_ok.mp more
      cases pair
      exact .turn first (ih tail)

/-- A call that returns no entry could not make one. -/
theorem not_admits_of_none [Inhabited Data] {env : AllocEnv}
    (ran : gptInsertPage env s index = .ok (none, next)) : ¬ Admits env s index := by
  intro admits
  unfold gptInsertPage at ran
  cases found : s.gptPages index with
  | none =>
      obtain ⟨kmalloc, preload⟩ := admits found
      rw [found] at ran
      obtain ⟨⟨allocated, middle⟩, alloc, rest⟩ := bind_eq_ok.mp ran
      simp only [gptAllocEntry, kmalloc] at alloc
      obtain ⟨⟨page, middle⟩, took, pair⟩ := bind_eq_ok.mp alloc
      cases pair
      simp only [preload, Bool.not_true, Bool.false_eq_true, if_false] at rest
      split at rest <;> cases rest
  | some entry =>
      rw [found] at ran
      cases here : entry.page with
      | some page =>
          simp only [here] at ran
          cases ran
      | none =>
          simp only [here] at ran
          obtain ⟨⟨page, middle⟩, took, rest⟩ := bind_eq_ok.mp ran
          cases rest

/-- However others came in between: either the missing entries could be made and every page has
its entry, or one of them could not and an entry is missing. -/
theorem InsertLoop.outcome [Inhabited Data] {env : Nat → AllocEnv} {indices : List Nat}
    {entries : List (Option Nat)} (loop : InsertLoop env s indices entries next) (filed : Filed s)
    (distinct : indices.Nodup) :
    ((∀ index ∈ indices, Admits (env index) s index) ∧ entries = indices.map some) ∨
      (¬ ∀ index ∈ indices, Admits (env index) s index) ∧ none ∈ entries := by
  induction loop with
  | nil s => exact .inl ⟨List.forall_mem_nil _, rfl⟩
  | @others s middle next indices entries others tail ih =>
      have same : (∀ index ∈ indices, Admits (env index) middle index) ↔
          ∀ index ∈ indices, Admits (env index) s index :=
        forall₂_congr fun index member => Admits.congr_iff (others.absent index member)
      rw [← same]
      exact ih (others.filed filed) distinct
  | @turn s middle next index rest entry entries ran tail ih =>
      obtain ⟨fresh, behind⟩ := List.nodup_cons.mp distinct
      cases entry with
      | none =>
          refine .inr ⟨fun admits => ?_, List.mem_cons_self⟩
          exact not_admits_of_none ran (admits index List.mem_cons_self)
      | some ptr =>
          obtain ⟨rfl, inserts⟩ := inserts_of_ok filed.sound ran
          have spends := inserts.spends filed
          have now := ((gptInsertPage_iff filed).mp ⟨middle, ran⟩).1
          have same : (∀ other ∈ rest, Admits (env other) middle other) ↔
              ∀ other ∈ rest, Admits (env other) s other := by
            refine forall₂_congr fun other member => ?_
            have different : other ≠ ptr := fun same => fresh (same ▸ member)
            exact Admits.congr_iff (spends.absent other different)
          rw [List.forall_mem_cons, ← same]
          rcases ih spends.filed behind with ⟨admits, entered⟩ | ⟨fails, missing⟩
          · exact .inl ⟨⟨now, admits⟩, congrArg (some ptr :: ·) entered⟩
          · exact .inr ⟨fun admits => fails admits.2, List.mem_cons_of_mem _ missing⟩

theorem InsertLoop.length [Inhabited Data] {env : Nat → AllocEnv} {indices : List Nat}
    {entries : List (Option Nat)} (loop : InsertLoop env s indices entries next) :
    entries.length = indices.length := by
  induction loop with
  | nil s => rfl
  | others others tail ih => exact ih
  | turn ran tail ih => exact congrArg Nat.succ ih

/-- The copy loop goes through only with an entry for every page. -/
theorem copyPages_of_none {s : PageStore Data} {entries : List (Option Nat)}
    {buffers : List Data} (lengths : entries.length = buffers.length) (missing : none ∈ entries) :
    s.copyPages entries buffers = .error .oops := by
  induction entries generalizing buffers s with
  | nil => cases missing
  | cons entry rest ih =>
      cases buffers with
      | nil => cases lengths
      | cons buffer buffers =>
          rw [copyPages]
          cases located : s.pageOf entry with
          | none => rfl
          | some page =>
              rcases List.mem_cons.mp missing with rfl | later
              · cases located
              · exact ih (Nat.succ.inj lengths) later

end PageStore

namespace Machine

variable {cpus servers : Nat} {Data Req : Type} [Inhabited Data]

/-- `radix_write`: `write_to_brd` on the device, with the check that it starts with and the value
that it returns. -/
def radixWrite (initDone : Bool) (env : Nat → AllocEnv) (m : Machine cpus servers Data Req)
    (req : WriteRequest Data) : Except Halt (Int × Machine cpus servers Data Req) :=
  if !initDone then
    .ok (1, m)
  else do
    let m ← m.writeToBrd env req
    return (0, m)

/-- The executions of `radix_write` that are over, among other threads, with the entries in
`batch_list`: the call is turned away, it stops in the copy loop, or it puts its item on the list,
where it waits for room. -/
inductive WriteCall (initDone : Bool) (env : Nat → AllocEnv) (m : Machine cpus servers Data Req)
    (req : WriteRequest Data) :
    List (Option Nat) → Except Halt (Int × Machine cpus servers Data Req) → Prop where
  | early (unset : initDone = false) : WriteCall initDone env m req [] (.ok (1, m))
  | halted {entries : List (Option Nat)} {store : PageStore Data} {halt : Halt}
      (set : initDone = true) (loop : PageStore.InsertLoop env m.store req.indices entries store)
      (copies : store.copyPages entries req.buffers = .error halt) :
      WriteCall initDone env m req entries (.error halt)
  | queued {entries : List (Option Nat)} {store : PageStore Data}
      {now next : Machine cpus servers Data Req} (set : initDone = true)
      (loop : PageStore.InsertLoop env m.store req.indices entries store)
      (copies : store.copyPages entries req.buffers = .ok now.store)
      (put : now.putSendingIndex ⟨req.startIndex, entries.reduceOption, 0⟩ = .ok next) :
      WriteCall initDone env m req entries (.ok (0, next))

/-- A failing request puts nothing on the sending list and changes no entry that was there. -/
structure Undone (m next : Machine cpus servers Data Req) : Prop where
  nothingSent : next.sendingList.contents = m.sendingList.contents
  entries : ∀ index entry, m.store.gptPages index = some entry →
    ∃ later, next.store.gptPages index = some later ∧ later.refCount = entry.refCount ∧
      later.flags = entry.flags

/-- A request with a page that was not inserted returns an error and leaves no trace. -/
def FailsClean (m : Machine cpus servers Data Req) (req : WriteRequest Data)
    (entries : List (Option Nat)) (last : Except Halt (Int × Machine cpus servers Data Req)) :
    Prop :=
  entries ≠ req.indices.map some → ∃ ret next,
    last = .ok (ret, next) ∧ ret ≠ 0 ∧ Undone m next

variable {m next : Machine cpus servers Data Req} {env : Nat → AllocEnv} {req : WriteRequest Data}
  {initDone : Bool} {ret : Int} {entries : List (Option Nat)}
  {last : Except Halt (Int × Machine cpus servers Data Req)}

/-- The pages are in the store, and the item goes on the list of a machine with this store. -/
theorem writeCall_queued (base : Machine cpus servers Data Req) {store copied : PageStore Data}
    (loop : PageStore.InsertLoop env m.store req.indices entries store)
    (copies : store.copyPages entries req.buffers = .ok copied)
    (put : { base with store := copied }.putSendingIndex ⟨req.startIndex, entries.reduceOption, 0⟩ =
      .ok next) : WriteCall true env m req entries (.ok (0, next)) :=
  .queued rfl loop copies put

/-- A call that returns without a wait is one of the executions. -/
theorem writeCall_of_ok (ran : m.radixWrite initDone env req = .ok (ret, next)) :
    ∃ entries, WriteCall initDone env m req entries (.ok (ret, next)) := by
  cases initDone with
  | false =>
      cases ran
      exact ⟨[], .early rfl⟩
  | true =>
      obtain ⟨after, wrote, pair⟩ := bind_eq_ok.mp ran
      cases pair
      obtain ⟨⟨entries, middle⟩, inserted, rest⟩ := bind_eq_ok.mp wrote
      obtain ⟨store, copied, put⟩ := bind_eq_ok.mp rest
      exact ⟨entries, writeCall_queued m (PageStore.insertLoop_of_ok inserted) copied put⟩

omit [Inhabited Data] in
theorem Undone.refl (m : Machine cpus servers Data Req) : Undone m m :=
  ⟨rfl, fun _ entry found => ⟨entry, found, rfl, rfl⟩⟩

/-- Once the device is there, a call whose pages cannot fail has the entries of all of them, and
any other call ends in an oops. -/
theorem WriteCall.outcome (call : WriteCall true env m req entries last)
    (filed : m.store.Filed) :
    ((∀ index ∈ req.indices, m.store.Admits (env index) index) ∧
        entries = req.indices.map some) ∨
      (¬ ∀ index ∈ req.indices, m.store.Admits (env index) index) ∧ none ∈ entries ∧
        last = .error .oops := by
  have distinct : req.indices.Nodup := List.nodup_range'
  have stops {after : PageStore Data}
      (loop : PageStore.InsertLoop env m.store req.indices entries after)
      (missing : none ∈ entries) : after.copyPages entries req.buffers = .error .oops := by
    refine PageStore.copyPages_of_none ?_ missing
    rw [loop.length, WriteRequest.indices, List.length_range']
  cases call with
  | early unset => cases unset
  | halted set loop copies =>
      rcases loop.outcome filed distinct with entered | ⟨fails, missing⟩
      · exact .inl entered
      · rw [stops loop missing] at copies
        cases copies
        exact .inr ⟨fails, missing, rfl⟩
  | queued set loop copies put =>
      rcases loop.outcome filed distinct with entered | ⟨fails, missing⟩
      · exact .inl entered
      · rw [stops loop missing] at copies
        cases copies

/-- A write leaves no trace of a failure exactly when it is turned away before the first page, or
none of its pages can fail: the entries that are missing can be made. -/
theorem failsClean_iff (filed : m.store.Filed)
    (call : WriteCall initDone env m req entries last) :
    FailsClean m req entries last ↔
      initDone = false ∨ ∀ index ∈ req.indices, m.store.Admits (env index) index := by
  cases initDone with
  | false =>
      cases call with
      | early unset => exact iff_of_true (fun _ => ⟨1, m, rfl, one_ne_zero, .refl m⟩) (.inl rfl)
      | halted set loop copies => cases set
      | queued set loop copies put => cases set
  | true =>
      rcases call.outcome filed with ⟨admits, entered⟩ | ⟨fails, missing, oops⟩
      · exact iff_of_true (fun lacking => absurd entered lacking) (.inr admits)
      · refine iff_of_false (fun clean => ?_) ?_
        · obtain ⟨ret, next, returned, _⟩ := clean fun same => by simp [same] at missing
          rw [oops] at returned
          cases returned
        · rintro (unset | admits)
          · cases unset
          · exact fails admits

theorem filed_init (minPoolPages writeCapNr readCapNr : Nat) :
    (init minPoolPages AlfQueue.maxPoolPages writeCapNr readCapNr :
      Machine cpus servers Data Req).store.Filed :=
  ⟨AlfQueue.ready_alloc.sound, fun index member => by simp [init] at member⟩

theorem filed_effect {label : DataLabel cpus servers Data Req} (filed : m.store.Filed)
    (effect : Effect m label next) : next.store.Filed := by
  cases effect with
  | wrote inserted located stored pending =>
      obtain ⟨sound, exist⟩ := filed.insertsAll (PageStore.insertsAll_of_some filed.sound inserted)
      rw [stored]
      exact ⟨sound, exist⟩
  | finished head sendingItem all pending => exact filed.finishesAll all
  | @reclaimed element middle _ reclaims stored pending =>
      obtain ⟨sound, exist⟩ := filed.drains reclaims.drains
      rw [stored]
      cases element with
      | none => exact ⟨sound, exist⟩
      | some page => exact ⟨sound, exist⟩
  | sent holds stored pending =>
      rw [stored]
      exact filed
  | moved stored pending =>
      rw [stored]
      exact filed

/-- The store is filed, and the sending list is in order. -/
structure FiledState (m : Machine cpus servers Data Req) : Prop where
  ready : m.sendingList.Ready
  filed : m.store.Filed

/-- As long as the sending list stays within the reach of its ring, every state reached is filed. -/
theorem filed_run {minPoolPages writeCapNr readCapNr : Nat}
    {labels : List (DataLabel cpus servers Data Req)} {last : Machine cpus servers Data Req}
    (run : Run Machine.step RingRoom
      (init minPoolPages AlfQueue.maxPoolPages writeCapNr readCapNr) labels last) :
    last.store.Filed := by
  have start : FiledState (init minPoolPages AlfQueue.maxPoolPages writeCapNr readCapNr :
      Machine cpus servers Data Req) :=
    ⟨AlfQueue.ready_alloc, filed_init minPoolPages writeCapNr readCapNr⟩
  refine FiledState.filed (run.preserves ?_ start)
  intro m next label state room edge
  have outcome := outcome_of_step state.ready state.filed.sound edge
  obtain ⟨ready, effect⟩ := outcome.effect state.ready room
  exact ⟨ready, filed_effect state.filed effect⟩

/-- Two pages in the pool, and none. -/
def twoFree : Machine 1 1 Nat Nat := init 2 AlfQueue.maxPoolPages 4 4

def exhausted : Machine 1 1 Nat Nat :=
  { twoFree with store := { twoFree.store with pool := { twoFree.store.pool with elements := [] } } }

theorem filed_exhausted : exhausted.store.Filed :=
  ⟨(filed_init 2 4 4 : twoFree.store.Filed).sound, (filed_init 2 4 4 : twoFree.store.Filed).exist⟩

/-- A write that waits for a page until others bring two leaves no trace of a failure, as nothing
fails. -/
theorem failsClean_iff_waits : exhausted.store.insertPages allocated [0] = .error .spin ∧
    ∃ entries last, WriteCall true allocated exhausted (pageRequest 0 7 zero_inside) entries last ∧
      FailsClean exhausted (pageRequest 0 7 zero_inside) entries last := by
  have brought : PageStore.Others [0] exhausted.store twoFree.store :=
    ⟨fun _ => filed_init 2 4 4, fun _ _ => Iff.rfl⟩
  have inserted : twoFree.store.insertPages allocated [0] = .ok ([some 0], _) := rfl
  have loop := PageStore.InsertLoop.others brought (PageStore.insertLoop_of_ok inserted)
  obtain ⟨last, call⟩ : ∃ last,
      WriteCall true allocated exhausted (pageRequest 0 7 zero_inside) [some 0] last :=
    ⟨_, writeCall_queued twoFree loop rfl rfl⟩
  exact ⟨rfl, _, last, call,
    (failsClean_iff filed_exhausted call).mpr (.inr fun _ _ _ => ⟨rfl, rfl⟩)⟩

/-- `kmalloc` fails for the page of the request. -/
theorem kmalloc_failure_dereferenced :
    ¬ ∀ (m : Machine 1 1 Nat Nat) (env : Nat → AllocEnv) (req : WriteRequest Nat)
      (entries : List (Option Nat)) (last : Except Halt (Int × Machine 1 1 Nat Nat)),
      m.store.Filed → WriteCall true env m req entries last → FailsClean m req entries last := by
  intro claim
  have inserted : twoFree.store.insertPages (fun _ => ⟨false, true⟩) [0] = .ok ([none], _) := rfl
  have call : WriteCall true (fun _ => ⟨false, true⟩) twoFree (pageRequest 0 7 zero_inside) [none]
      (.error .oops) := .halted rfl (PageStore.insertLoop_of_ok inserted) rfl
  obtain ⟨ret, next, returned, _⟩ := claim _ _ _ _ _ (filed_init 2 4 4) call nofun
  cases returned

end Machine

end Valet.Bd
