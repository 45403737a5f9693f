import Valet.Bd.UsedPages

/-!
# Tearing the page table down

`gpt_free_pages` takes the entries off the tree in batches and looks in the
`index` of their pages for the place where they are.  Nothing here writes the
`index` of a page: it is what the kernel left there, and an entry that lost its
page to reclaim has none to look in.
-/

namespace Valet.Bd

open Valet.Library

/-- The entry pointers of a tree. -/
abbrev RadixTree := Nat → Option TreeEntry

/-- `FREE_BATCH`. -/
def freeBatch : Nat := 16

/-- What is left of the tree, and what was freed.  The index of an entry stands for its address. -/
structure TearDown where
  gptPages : RadixTree
  freedEntries : List Nat
  freedPages : List Nat

/-- `radix_tree_gang_lookup` of the kernel on one tree: from `pos` on, in ascending order, as many
entries as exist up to `count`. -/
structure GangLookup (lookup : RadixTree → Nat → Nat → List Nat) (tree : RadixTree) : Prop where
  ascending : ∀ pos count, (lookup tree pos count).Pairwise (· < ·)
  present : ∀ pos count, ∀ index ∈ lookup tree pos count, pos ≤ index ∧ tree index ≠ none
  limited : ∀ pos count, (lookup tree pos count).length ≤ count
  complete : ∀ pos count index, pos ≤ index → tree index ≠ none → index ∉ lookup tree pos count →
    (lookup tree pos count).length = count ∧ ∀ other ∈ lookup tree pos count, other < index

/-- A gang lookup for trees whose entries are all below `limit`. -/
def firstEntries (limit : Nat) (tree : RadixTree) (pos count : Nat) : List Nat :=
  ((List.range limit).filter fun index => decide (pos ≤ index) && (tree index).isSome).take count

theorem gangLookup_firstEntries {limit : Nat} {tree : RadixTree}
    (bounded : ∀ index, tree index ≠ none → index < limit) :
    GangLookup (firstEntries limit) tree := by
  have ascending (pos : Nat) : ((List.range limit).filter fun index =>
      decide (pos ≤ index) && (tree index).isSome).Pairwise (· < ·) :=
    List.pairwise_lt_range.filter _
  refine ⟨fun pos count => (ascending pos).sublist (List.take_sublist _ _), ?_,
    fun pos count => List.length_take_le _ _, ?_⟩
  · intro pos count index member
    obtain ⟨-, kept⟩ := List.mem_filter.mp (List.mem_of_mem_take member)
    rw [Bool.and_eq_true, decide_eq_true_eq, Option.isSome_iff_ne_none] at kept
    exact kept
  · intro pos count index later there outside
    have listed : index ∈ (List.range limit).filter fun index =>
        decide (pos ≤ index) && (tree index).isSome := by
      rw [List.mem_filter, List.mem_range, Bool.and_eq_true, decide_eq_true_eq,
        Option.isSome_iff_ne_none]
      exact ⟨bounded index there, later, there⟩
    have parts := ascending pos
    rw [← List.take_append_drop count (List.filter _ _)] at listed parts
    have dropped := (List.mem_append.mp listed).resolve_left outside
    refine ⟨?_, fun other member => (List.pairwise_append.mp parts).2.2 other member index dropped⟩
    have some_ := List.length_pos_of_mem dropped
    rw [List.length_drop] at some_
    rw [firstEntries, List.length_take]
    omega

namespace TearDown

/-- A turn of the inner loop, for the entry at `index`; `pageIndex` is the `index` of a page. -/
def freeEntry (pageIndex : Nat → Nat) (t : TearDown) (pos index : Nat) :
    Except Halt (TearDown × Nat) :=
  match t.gptPages index with
  | none => .error .oops
  | some entry =>
      match entry.page with
      | none => .error .oops
      | some page =>
          if pageIndex page < pos then
            .error .bugOn
          else if t.gptPages (pageIndex page) = none ∨ pageIndex page ≠ index then
            .error .bugOn
          else
            .ok ({ gptPages := Function.update t.gptPages (pageIndex page) none
                   freedEntries := index :: t.freedEntries
                   freedPages := page :: t.freedPages }, pageIndex page)

/-- The inner loop. -/
def freeEntries (pageIndex : Nat → Nat) : List Nat → TearDown → Nat → Except Halt (TearDown × Nat)
  | [], t, pos => .ok (t, pos)
  | index :: rest, t, pos => do
      let (t, pos) ← t.freeEntry pageIndex pos index
      freeEntries pageIndex rest t pos

/-- `gpt_free_pages`, for as many rounds as are given to it; `pos` is an `unsigned long`. -/
def gptFreePages (lookup : RadixTree → Nat → Nat → List Nat) (pageIndex : Nat → Nat) :
    Nat → TearDown → Nat → Except Halt TearDown
  | 0, _, _ => .error .spin
  | rounds + 1, t, pos => do
      let entries := lookup t.gptPages pos freeBatch
      let (t, pos) ← freeEntries pageIndex entries t pos
      if entries.length = freeBatch then
        gptFreePages lookup pageIndex rounds t ((pos + 1) % 2 ^ 64)
      else
        return t

/-- Nothing is freed yet. -/
def start (gptPages : RadixTree) : TearDown := ⟨gptPages, [], []⟩

end TearDown

namespace PageStore

variable {Data : Type}

/-- The entries of the tree. -/
def entries (s : PageStore Data) : Set Nat := {index | s.gptPages index ≠ none}

/-- The tree is empty, and every entry and every page of an entry was freed, once. -/
structure FreedOnce (s : PageStore Data) (last : TearDown) : Prop where
  empty : ∀ index, last.gptPages index = none
  entriesOnce : last.freedEntries.Nodup
  entries : ∀ index, index ∈ last.freedEntries ↔ index ∈ s.entries
  pagesOnce : last.freedPages.Nodup
  pages : ∀ page, page ∈ last.freedPages ↔ page ∈ s.entryPages

/-- `gpt_free_pages` ends without a `BUG_ON` and has freed everything once. -/
def TornDown (s : PageStore Data) (lookup : RadixTree → Nat → Nat → List Nat)
    (pageIndex : Nat → Nat) : Prop :=
  ∃ rounds last, TearDown.gptFreePages lookup pageIndex rounds (.start s.gptPages) 0 = .ok last ∧
    s.FreedOnce last

/-- The entry at `index` has a page, and the page says so. -/
def Indexed (s : PageStore Data) (pageIndex : Nat → Nat) (index : Nat) : Prop :=
  ∃ page, s.pageOf (some index) = some page ∧ pageIndex page = index

end PageStore

/-! ## One round -/

namespace TearDown

variable {pageIndex : Nat → Nat} {t next : TearDown} {pos last index : Nat}

/-- The only way on for an entry. -/
inductive Frees (pageIndex : Nat → Nat) (t : TearDown) (pos index : Nat) : TearDown → Nat → Prop where
  | freed {entry : TreeEntry} {page : Nat} (found : t.gptPages index = some entry)
      (here : entry.page = some page) (right : pageIndex page = index) (later : pos ≤ index) :
      Frees pageIndex t pos index
        { gptPages := Function.update t.gptPages index none
          freedEntries := index :: t.freedEntries
          freedPages := page :: t.freedPages } index

theorem frees_of_ok (ran : t.freeEntry pageIndex pos index = .ok (next, last)) :
    Frees pageIndex t pos index next last := by
  unfold freeEntry at ran
  cases found : t.gptPages index with
  | none =>
      rw [found] at ran
      cases ran
  | some entry =>
      rw [found] at ran
      dsimp only at ran
      cases here : entry.page with
      | none =>
          rw [here] at ran
          cases ran
      | some page =>
          rw [here] at ran
          dsimp only at ran
          split at ran
          · cases ran
          · rename_i later
            split at ran
            · cases ran
            · rename_i right
              rw [not_or, not_not] at right
              obtain ⟨-, right⟩ := right
              cases ran
              rw [right] at later ⊢
              exact .freed found here right (Nat.le_of_not_lt later)

theorem Frees.ok (frees : Frees pageIndex t pos index next last) :
    t.freeEntry pageIndex pos index = .ok (next, last) := by
  obtain ⟨found, here, right, later⟩ := frees
  unfold freeEntry
  rw [found]
  dsimp only
  rw [here]
  dsimp only
  rw [right, if_neg (Nat.not_lt.mpr later), if_neg]
  rw [not_or, not_not, found]
  exact ⟨Option.some_ne_none _, rfl⟩

variable {Data : Type} {s : PageStore Data}

/-- How far the tear-down of a page table has come. -/
structure Progress (s : PageStore Data) (pageIndex : Nat → Nat) (t : TearDown) : Prop where
  tree : ∀ index, t.gptPages index = if index ∈ t.freedEntries then none else s.gptPages index
  once : t.freedEntries.Nodup
  indexed : ∀ index ∈ t.freedEntries, s.Indexed pageIndex index
  pages : t.freedPages.map some = t.freedEntries.map fun index => s.pageOf (some index)

theorem progress_start : Progress s pageIndex (start s.gptPages) where
  tree := fun _ => (if_neg List.not_mem_nil).symm
  once := List.nodup_nil
  indexed := fun _ member => absurd member List.not_mem_nil
  pages := rfl

theorem Progress.left (progress : Progress s pageIndex t) (there : t.gptPages index ≠ none) :
    index ∉ t.freedEntries ∧ t.gptPages index = s.gptPages index := by
  have tree := progress.tree index
  split at tree
  · exact absurd tree there
  · rename_i fresh
    exact ⟨fresh, tree⟩

theorem Progress.frees (progress : Progress s pageIndex t)
    (frees : Frees pageIndex t pos index next last) : Progress s pageIndex next := by
  obtain ⟨found, here, right, -⟩ := frees
  obtain ⟨fresh, same⟩ := progress.left (by rw [found]; exact Option.some_ne_none _)
  have page := PageStore.pageOf_eq (same.symm.trans found)
  refine ⟨fun other => ?_, List.nodup_cons.mpr ⟨fresh, progress.once⟩, ?_, ?_⟩
  · show Function.update t.gptPages _ none other = if other ∈ _ :: t.freedEntries then none else _
    rw [Function.update_apply, progress.tree other]
    by_cases same : other = last
    · simp [same]
    · simp [same]
  · intro other member
    rcases List.mem_cons.mp member with rfl | old
    · exact ⟨_, page.trans here, right⟩
    · exact progress.indexed other old
  · rw [List.map_cons, List.map_cons, progress.pages, page, here]

/-- What a round keeps. -/
theorem Progress.batch {entries : List Nat} (progress : Progress s pageIndex t)
    (ran : freeEntries pageIndex entries t pos = .ok (next, last)) :
    Progress s pageIndex next := by
  induction entries generalizing t pos with
  | nil =>
      cases ran
      exact progress
  | cons index rest ih =>
      obtain ⟨⟨middle, reached⟩, first, more⟩ := bind_eq_ok.mp ran
      exact ih (progress.frees (frees_of_ok first)) more

/-- What the rounds keep. -/
theorem Progress.run {lookup : RadixTree → Nat → Nat → List Nat} {rounds : Nat}
    (progress : Progress s pageIndex t)
    (ran : gptFreePages lookup pageIndex rounds t pos = .ok next) : Progress s pageIndex next := by
  induction rounds generalizing t pos with
  | zero => cases ran
  | succ rounds ih =>
      obtain ⟨⟨middle, reached⟩, first, more⟩ := bind_eq_ok.mp ran
      have kept := progress.batch first
      dsimp only at more
      split at more
      · exact ih kept more
      · cases more
        exact kept

/-- A round on entries of the tree that are where their pages say. -/
theorem batch_ok {entries : List Nat} (indexed : ∀ index ∈ s.entries, s.Indexed pageIndex index)
    (progress : Progress s pageIndex t) (ascending : entries.Pairwise (· < ·))
    (present : ∀ index ∈ entries, pos ≤ index ∧ t.gptPages index ≠ none) :
    ∃ next last, freeEntries pageIndex entries t pos = .ok (next, last) ∧
      (∀ index, next.gptPages index = if index ∈ entries then none else t.gptPages index) ∧
      (entries ≠ [] → last ∈ entries) := by
  induction entries generalizing t pos with
  | nil => exact ⟨t, pos, rfl, fun index => (if_neg List.not_mem_nil).symm, fun bad => absurd rfl bad⟩
  | cons index rest ih =>
      obtain ⟨later, there⟩ := present index List.mem_cons_self
      obtain ⟨entry, found⟩ := Option.ne_none_iff_exists'.mp there
      obtain ⟨fresh, same⟩ := progress.left there
      have member : s.gptPages index ≠ none := by
        rw [← same]
        exact there
      obtain ⟨page, here, right⟩ := indexed index member
      have has : entry.page = some page :=
        (PageStore.pageOf_eq (same.symm.trans found)).symm.trans here
      have frees := Frees.freed found has right later
      obtain ⟨above, ascends⟩ := List.pairwise_cons.mp ascending
      have rest_ : ∀ other ∈ rest, index ≤ other ∧
          Function.update t.gptPages index none other ≠ none := by
        intro other listed
        have bigger := above other listed
        refine ⟨Nat.le_of_lt bigger, ?_⟩
        rw [Function.update_of_ne (Nat.ne_of_gt bigger)]
        exact (present other (List.mem_cons_of_mem _ listed)).2
      obtain ⟨next, last, ran, tree, reached⟩ := ih (progress.frees frees) ascends rest_
      refine ⟨next, last, ?_, fun other => ?_, fun _ => ?_⟩
      · rw [freeEntries, frees.ok]
        exact ran
      · have cut : next.gptPages other =
            if other ∈ rest then none else Function.update t.gptPages index none other := tree other
        rw [cut, Function.update_apply]
        by_cases same : other = index
        · simp [same]
        · simp [same]
      · cases rest with
        | nil =>
            cases ran
            exact List.mem_cons_self
        | cons second others =>
            exact List.mem_cons_of_mem _ (reached (List.cons_ne_nil _ _))

section Rounds

variable {lookup : RadixTree → Nat → Nat → List Nat} {left : Finset Nat}

/-- A round on a tree whose entries are all at or after `pos`: the tree is empty, or the round was
full and the next one goes on at or before what is left. -/
theorem round_ok
    (kernel : ∀ tree : RadixTree, (∀ index, tree index ≠ none → index ∈ s.entries) →
      GangLookup lookup tree)
    (indexed : ∀ index ∈ s.entries, s.Indexed pageIndex index) (progress : Progress s pageIndex t)
    (tree : ∀ index, t.gptPages index ≠ none ↔ index ∈ left) (later : ∀ index ∈ left, pos ≤ index) :
    ∃ next last, freeEntries pageIndex (lookup t.gptPages pos freeBatch) t pos = .ok (next, last) ∧
      ((lookup t.gptPages pos freeBatch).length ≠ freeBatch ∧ (∀ index, next.gptPages index = none) ∨
        (lookup t.gptPages pos freeBatch).length = freeBatch ∧ ∃ rest : Finset Nat,
          (∀ index, next.gptPages index ≠ none ↔ index ∈ rest) ∧ rest.card < left.card ∧
          ∀ index ∈ rest, (last + 1) % 2 ^ 64 ≤ index) := by
  have gang : GangLookup lookup t.gptPages := kernel t.gptPages fun index there => by
    have kept := (progress.left there).2
    show s.gptPages index ≠ none
    rw [← kept]
    exact there
  obtain ⟨next, last, ran, cut, reached⟩ := batch_ok indexed progress
    (gang.ascending pos freeBatch) (gang.present pos freeBatch)
  have missed {index : Nat} (there : next.gptPages index ≠ none) :
      index ∈ left ∧ index ∉ lookup t.gptPages pos freeBatch := by
    rw [cut] at there
    split at there
    · exact absurd rfl there
    · rename_i outside
      exact ⟨(tree index).mp there, outside⟩
  refine ⟨next, last, ran, ?_⟩
  by_cases full : (lookup t.gptPages pos freeBatch).length = freeBatch
  · have some_ : lookup t.gptPages pos freeBatch ≠ [] := by
      intro none_
      rw [none_] at full
      cases full
    have listed := reached some_
    have above (index : Nat) (there : next.gptPages index ≠ none) : last < index := by
      obtain ⟨here, outside⟩ := missed there
      exact (gang.complete pos freeBatch index (later index here) ((tree index).mpr here)
        outside).2 last listed
    refine Or.inr ⟨full, left.filter (· ∉ lookup t.gptPages pos freeBatch), fun index => ?_, ?_, ?_⟩
    · rw [Finset.mem_filter]
      constructor
      · exact missed
      · rintro ⟨here, outside⟩
        rw [cut, if_neg outside]
        exact (tree index).mpr here
    · refine Finset.card_lt_card (Finset.filter_ssubset.mpr ⟨last, ?_, not_not.mpr listed⟩)
      exact (tree last).mp (gang.present pos freeBatch last listed).2
    · intro index here
      obtain ⟨inLeft, outside⟩ := Finset.mem_filter.mp here
      have there : next.gptPages index ≠ none := by
        rw [cut, if_neg outside]
        exact (tree index).mpr inLeft
      exact (Nat.mod_le _ _).trans (above index there)
  · refine Or.inl ⟨full, fun index => ?_⟩
    by_contra there
    obtain ⟨here, outside⟩ := missed there
    exact full (gang.complete pos freeBatch index (later index here) ((tree index).mpr here)
      outside).1

/-- The rounds empty a tree of at most as many entries. -/
theorem run_ok {rounds : Nat}
    (kernel : ∀ tree : RadixTree, (∀ index, tree index ≠ none → index ∈ s.entries) →
      GangLookup lookup tree)
    (indexed : ∀ index ∈ s.entries, s.Indexed pageIndex index) (progress : Progress s pageIndex t)
    (tree : ∀ index, t.gptPages index ≠ none ↔ index ∈ left) (later : ∀ index ∈ left, pos ≤ index)
    (few : left.card ≤ rounds) :
    ∃ last, gptFreePages lookup pageIndex (rounds + 1) t pos = .ok last ∧
      ∀ index, last.gptPages index = none := by
  induction rounds generalizing t pos left with
  | zero =>
      obtain ⟨next, last, ran, ⟨short, empty⟩ | ⟨_, rest, _, fewer, _⟩⟩ :=
        round_ok kernel indexed progress tree later
      · refine ⟨next, ?_, empty⟩
        rw [gptFreePages, ran]
        exact if_neg short
      · omega
  | succ rounds ih =>
      obtain ⟨next, last, ran, ⟨short, empty⟩ | ⟨full, rest, kept, fewer, above⟩⟩ :=
        round_ok kernel indexed progress tree later
      · refine ⟨next, ?_, empty⟩
        rw [gptFreePages, ran]
        exact if_neg short
      · obtain ⟨final, more, empty⟩ := ih (progress.batch ran) kept above (by omega)
        refine ⟨final, ?_, empty⟩
        rw [gptFreePages, ran]
        exact (if_pos full).trans more

end Rounds

/-- The empty tree says what was freed. -/
theorem Progress.freedOnce (owned : s.Owned) (progress : Progress s pageIndex t)
    (empty : ∀ index, t.gptPages index = none) : s.FreedOnce t := by
  have freed (index : Nat) : index ∈ t.freedEntries ↔ index ∈ s.entries := by
    constructor
    · intro member
      obtain ⟨page, here, -⟩ := progress.indexed index member
      obtain ⟨entry, found, -⟩ := PageStore.exists_of_pageOf here
      show s.gptPages index ≠ none
      rw [found]
      exact Option.some_ne_none _
    · intro there
      by_contra fresh
      have gone := (progress.tree index).symm.trans (empty index)
      rw [if_neg fresh] at gone
      exact there gone
  have pagesOf (page : Nat) : page ∈ t.freedPages ↔
      ∃ index ∈ t.freedEntries, s.pageOf (some index) = some page := by
    rw [← List.mem_map_of_injective (Option.some_injective Nat), progress.pages, List.mem_map]
  refine ⟨empty, progress.once, freed, ?_, fun page => ?_⟩
  · apply List.Nodup.of_map some
    rw [progress.pages]
    refine progress.once.map_on fun first member second _ same => ?_
    obtain ⟨page, here, -⟩ := progress.indexed first member
    exact owned.single first second page here (same.symm.trans here)
  · rw [pagesOf]
    constructor
    · rintro ⟨index, -, here⟩
      exact ⟨index, here⟩
    · rintro ⟨index, here⟩
      obtain ⟨entry, found, -⟩ := PageStore.exists_of_pageOf here
      refine ⟨index, (freed index).mpr ?_, here⟩
      show s.gptPages index ≠ none
      rw [found]
      exact Option.some_ne_none _

end TearDown

/-! ## The trees that calls make -/

namespace PageStore

variable {Data : Type} {s next : PageStore Data} {index : Nat}

theorem Drains.entries_eq (drains : Drains s next) : next.entries = s.entries :=
  Set.ext fun _ => not_congr drains.absent

theorem entries_update (value : Option TreeEntry) :
    entries { s with gptPages := Function.update s.gptPages index value } ⊆
      insert index s.entries := by
  intro other there
  rcases eq_or_ne other index with rfl | different
  · exact Or.inl rfl
  · have same : Function.update s.gptPages index value other = s.gptPages other :=
      Function.update_of_ne different ..
    refine Or.inr fun gone => there ?_
    show Function.update s.gptPages index value other = none
    rw [same]
    exact gone

theorem Inserts.finite (sound : s.reclaimList.Sound) (finite : s.entries.Finite)
    (inserts : Inserts s index next) : next.entries.Finite := by
  cases inserts with
  | fresh absent alloc =>
      rw [← (allocates_of_ok sound alloc).drains.entries_eq] at finite
      exact (finite.insert index).subset (entries_update _)
  | held found here => exact (finite.insert index).subset (entries_update _)
  | refilled found gone alloc still =>
      rw [← (allocates_of_ok sound alloc).drains.entries_eq] at finite
      exact (finite.insert index).subset (entries_update _)

theorem FinishesAll.finite {indices : List Nat} (finite : s.entries.Finite)
    (all : FinishesAll s indices next) : next.entries.Finite := by
  induction all with
  | nil => exact finite
  | @cons s middle next index rest finishes tail ih =>
      apply ih
      cases finishes with
      | listed found flagged => exact (finite.insert index).subset (entries_update _)
      | queued found fresh put => exact (finite.insert index).subset (entries_update _)
      | full found fresh put => exact (finite.insert index).subset (entries_update _)

end PageStore

namespace Pages

variable {Data : Type} [Inhabited Data] {s next : Pages Data}

omit [Inhabited Data] in
theorem giveUp_entries (newCapNr turns : Nat) (s : Pages Data) :
    (giveUp newCapNr turns s).store.entries = s.store.entries := by
  induction turns generalizing s with
  | zero => rfl
  | succ turns ih =>
      unfold giveUp
      split
      · cases s.store.pool.valetRemoveElement with
        | none => rfl
        | some result => exact ih _
      · rfl

theorem reclaimUnit_entries {turns : Nat} (sound : s.store.reclaimList.Sound)
    (ran : reclaimUnit turns s = .ok next) : next.store.entries = s.store.entries := by
  induction turns generalizing s with
  | zero =>
      cases ran
      rfl
  | succ turns ih =>
      obtain ⟨⟨element, store⟩, reclaimed, rest⟩ := bind_eq_ok.mp ran
      have drains := (PageStore.reclaims_of_ok sound reclaimed).drains
      have soundNext := drains.sound sound
      rw [← drains.entries_eq]
      cases element with
      | none => exact ih soundNext rest
      | some page =>
          have stored := valetMempoolFree_store { s with store := store } page
          rw [ih (by rw [stored]; exact soundNext) rest, stored]
          rfl

/-- A page has one owner, and the tree has finitely many entries. -/
structure Grown (s : Pages Data) : Prop where
  accounted : s.Accounted
  finite : s.store.entries.Finite

/-- What one call preserves. -/
theorem Grown.step {op : PageOp} (grown : s.Grown) (edge : s.step op = some next) : next.Grown := by
  have sound := grown.accounted.sound
  refine ⟨grown.accounted.step edge, ?_⟩
  cases calls_of_step sound edge with
  | inserted inserts =>
      cases inserts with
      | entered inserts => exact inserts.finite sound grown.finite
      | refused => exact grown.finite
      | @undone page store alloc =>
          rw [valetMempoolFree_store]
          show store.entries.Finite
          rw [(PageStore.allocates_of_ok sound alloc).drains.entries_eq]
          exact grown.finite
  | @taken page store alloc =>
      show store.entries.Finite
      rw [(PageStore.allocates_of_ok sound alloc).drains.entries_eq]
      exact grown.finite
  | freed holds =>
      rw [valetMempoolFree_store]
      exact grown.finite
  | written all => exact all.finite grown.finite
  | shrunk ran =>
      cases shrinkOutcome_of_ok ran with
      | gaveUp =>
          show (giveUp _ _ s).store.entries.Finite
          rw [giveUp_entries]
          exact grown.finite
      | reclaimed _ _ ran =>
          rw [reclaimUnit_entries sound ran]
          exact grown.finite
      | kept => exact grown.finite

theorem grown_init (capNr minPoolPages maxPoolPages : Nat) :
    (init capNr minPoolPages maxPoolPages : Pages Data).Grown where
  accounted := accounted_init capNr minPoolPages maxPoolPages
  finite := by
    have none_ : (init capNr minPoolPages maxPoolPages : Pages Data).store.entries = ∅ :=
      Set.eq_empty_of_forall_notMem fun _ there => there rfl
    rw [none_]
    exact Set.finite_empty

omit [Inhabited Data] in
/-- What the tear-down needs of a page table with finitely many entries. -/
theorem Grown.tornDown_iff {lookup : RadixTree → Nat → Nat → List Nat} (grown : s.Grown)
    (kernel : ∀ tree : RadixTree, (∀ index, tree index ≠ none → index ∈ s.store.entries) →
      GangLookup lookup tree) (pageIndex : Nat → Nat) :
    s.store.TornDown lookup pageIndex ↔
      ∀ index ∈ s.store.entries, s.store.Indexed pageIndex index := by
  constructor
  · rintro ⟨rounds, last, ran, freed⟩ index member
    have progress := TearDown.progress_start.run ran
    exact progress.indexed index ((freed.entries index).mpr member)
  · intro indexed
    obtain ⟨left, whole⟩ := grown.finite.exists_finset
    have later : ∀ index ∈ left, 0 ≤ index := fun index _ => Nat.zero_le index
    obtain ⟨last, ran, empty⟩ := TearDown.run_ok kernel indexed TearDown.progress_start
      (fun index => (whole index).symm) later (Nat.le_refl left.card)
    exact ⟨_, last, ran, (TearDown.progress_start.run ran).freedOnce grown.accounted.owned empty⟩

/-- The tear-down of a page table that calls have made frees everything once, without a `BUG_ON`,
exactly when every entry has a page and the `index` of that page is the index of the entry. -/
theorem torn_down_iff {lookup : RadixTree → Nat → Nat → List Nat} {pageIndex : Nat → Nat}
    {capNr minPoolPages maxPoolPages : Nat} {ops : List PageOp} {last : Pages Data}
    (run : Run Pages.step always (init capNr minPoolPages maxPoolPages) ops last)
    (kernel : ∀ tree : RadixTree, (∀ index, tree index ≠ none → index ∈ last.store.entries) →
      GangLookup lookup tree) :
    last.store.TornDown lookup pageIndex ↔
      ∀ index ∈ last.store.entries, last.store.Indexed pageIndex index :=
  (run.preserves (fun grown _ edge => Grown.step grown edge)
    (grown_init capNr minPoolPages maxPoolPages)).tornDown_iff kernel pageIndex

/-- Two entries whose pages say where they are. -/
theorem torn_down_iff_two : ∃ last : Pages Nat,
    exec Pages.step (init 2 2 8) [.insertPage ⟨true, true⟩ 5, .insertPage ⟨true, true⟩ 9] =
        some last ∧
      last.store.TornDown (firstEntries 16) fun page => if page = 1 then 5 else 9 := by
  obtain ⟨last, ends, tree⟩ : ∃ last : Pages Nat, exec Pages.step (init 2 2 8)
        [.insertPage ⟨true, true⟩ 5, .insertPage ⟨true, true⟩ 9] = some last ∧
      last.store.gptPages = Function.update (Function.update (fun _ => none)
        5 (some ⟨some 1, fun _ => false, 0⟩)) 9 (some ⟨some 0, fun _ => false, 0⟩) :=
    ⟨_, rfl, rfl⟩
  have two (index : Nat) (there : index ∈ last.store.entries) : index = 9 ∨ index = 5 := by
    have some_ : last.store.gptPages index ≠ none := there
    rw [tree, Function.update_apply, Function.update_apply] at some_
    by_contra neither
    rw [not_or] at neither
    rw [if_neg neither.1, if_neg neither.2] at some_
    exact some_ rfl
  have kernel (tree : RadixTree) (within : ∀ index, tree index ≠ none → index ∈ last.store.entries) :
      GangLookup (firstEntries 16) tree := by
    refine gangLookup_firstEntries fun index there => ?_
    rcases two index (within index there) with rfl | rfl
    · decide
    · decide
  refine ⟨last, ends, (torn_down_iff (run_of_exec ends) kernel).mpr fun index there => ?_⟩
  rcases two index there with rfl | rfl
  · exact ⟨0, by rw [PageStore.pageOf, tree]; rfl, rfl⟩
  · exact ⟨1, by rw [PageStore.pageOf, tree]; rfl, rfl⟩

/-- The `index` of the page of the only entry is still what `alloc_page` left there. -/
theorem tear_down_bugs : ¬ ∀ (lookup : RadixTree → Nat → Nat → List Nat) (pageIndex : Nat → Nat)
    (ops : List PageOp) (last : Pages Nat), Run Pages.step always (init 2 2 8) ops last →
      (∀ tree : RadixTree, (∀ index, tree index ≠ none → index ∈ last.store.entries) →
        GangLookup lookup tree) → last.store.TornDown lookup pageIndex := by
  intro claim
  obtain ⟨last, ends, tree⟩ : ∃ last : Pages Nat,
      exec Pages.step (init 2 2 8) [.insertPage ⟨true, true⟩ 5] = some last ∧
      last.store.gptPages =
        Function.update (fun _ => none) 5 (some ⟨some 1, fun _ => false, 0⟩) := ⟨_, rfl, rfl⟩
  have one (index : Nat) (there : index ∈ last.store.entries) : index < 16 := by
    have some_ : last.store.gptPages index ≠ none := there
    rw [tree, Function.update_apply] at some_
    by_contra big
    rw [if_neg (by omega)] at some_
    exact some_ rfl
  obtain ⟨rounds, final, ran, -⟩ := claim (firstEntries 16) (fun _ => 0) _ last (run_of_exec ends)
    fun tree within => gangLookup_firstEntries fun index there => one index (within index there)
  rw [tree] at ran
  cases rounds with
  | zero => cases ran
  | succ rounds => cases ran

end Pages

end Valet.Bd
