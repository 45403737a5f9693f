import Valet.Bd.UsedPages

/-!
# Insertions at the same time

`gpt_insert_page` looks an index up in one critical section and inserts the new
entry in another, and gives a page to an entry that has none outside of any.
Two calls for one index can both find nothing, or both find an entry without a
page: the second insertion panics, and the page that was given first is lost.
Calls whose insertion finds the index still free, and whose entry is still
without a page when they give it one, are safe in every interleaving.
-/

namespace Valet.Bd

open Valet.Library

/-- Where a call of `gpt_insert_page` is: what it does next, with its locals.  An entry is the
address that `kmalloc` gave. -/
inductive InsertCall where
  | idle
  | lookup (index : Nat)
  | allocEntry (index : Nat)
  | preload (index entry : Nat)
  | insert (index entry : Nat)
  | checkPage (index entry : Nat)
  | allocPage (index entry : Nat)
  | setPage (index entry page : Nat)
  | countRef (index entry : Nat)
  deriving DecidableEq

namespace InsertCall

/-- The entry that the call has made and not yet inserted. -/
def made : InsertCall → Option Nat
  | preload _ entry => some entry
  | insert _ entry => some entry
  | _ => none

/-- The entry that the call has found, with its index. -/
def found : InsertCall → Option (Nat × Nat)
  | checkPage index entry => some (index, entry)
  | allocPage index entry => some (index, entry)
  | setPage index entry _ => some (index, entry)
  | countRef index entry => some (index, entry)
  | _ => none

/-- The page that the call holds for an entry that it has found. -/
def page : InsertCall → Option Nat
  | setPage _ _ page => some page
  | _ => none

end InsertCall

/-- The radix tree, the entries by address in the page store, and the calls on the CPUs.
`kmalloced` counts the entries that were made, and `returned` lists what calls have returned. -/
structure Inserting (cpus : Nat) (Data : Type) where
  pages : Pages Data
  gptPages : Nat → Option Nat
  kmalloced : Nat
  calls : Fin cpus → InsertCall
  returned : List (Nat × Option Nat)
  panicked : Bool

/-- A call begins, or goes on by its next step with what the kernel answers. -/
inductive InsertLabel (cpus : Nat) where
  | call (cpu : Fin cpus) (index : Nat)
  | run (cpu : Fin cpus) (env : AllocEnv)

namespace PageStore

variable {Data : Type}

def putEntry (s : PageStore Data) (entry : Nat) (value : Option TreeEntry) : PageStore Data :=
  { s with gptPages := Function.update s.gptPages entry value }

end PageStore

namespace Inserting

variable {cpus : Nat} {Data : Type}

/-- The call goes on to its next step. -/
def goTo (s : Inserting cpus Data) (cpu : Fin cpus) (call : InsertCall) : Inserting cpus Data :=
  { s with calls := Function.update s.calls cpu call }

/-- The call returns. -/
def ret (s : Inserting cpus Data) (cpu : Fin cpus) (index : Nat) (entry : Option Nat) :
    Inserting cpus Data :=
  { s with
    calls := Function.update s.calls cpu .idle
    returned := (index, entry) :: s.returned }

def setPages (s : Inserting cpus Data) (pages : Pages Data) : Inserting cpus Data :=
  { s with pages := pages }

def setStore (s : Inserting cpus Data) (store : PageStore Data) : Inserting cpus Data :=
  s.setPages { s.pages with store := store }

variable [Inhabited Data]

/-- `valet_free(entry->page)` and `kfree(entry)`. -/
def freeEntry (pages : Pages Data) (entry : Nat) : Pages Data :=
  let pages :=
    match pages.store.pageOf (some entry) with
    | none => pages
    | some page => pages.valetMempoolFree page
  { pages with store := pages.store.putEntry entry none }

/-- The next step of the call on a CPU; an allocation waits until there is a page. -/
def runCall (s : Inserting cpus Data) (cpu : Fin cpus) (env : AllocEnv) :
    Option (Inserting cpus Data) :=
  match s.calls cpu with
  | .idle => none
  | .lookup index =>
      match s.gptPages index with
      | none => some (s.goTo cpu (.allocEntry index))
      | some entry => some (s.goTo cpu (.checkPage index entry))
  | .allocEntry index =>
      if !env.kmallocOk then
        some (s.ret cpu index none)
      else
        match s.pages.store.valetMempoolAlloc with
        | .error _ => none
        | .ok (page, store) =>
            let entry := s.kmalloced
            let s := s.setStore (store.putEntry entry (some ⟨some page, fun _ => false, 0⟩))
            some ({ s with kmalloced := entry + 1 }.goTo cpu (.preload index entry))
  | .preload index entry =>
      if !env.preloadOk then
        some ((s.setPages (freeEntry s.pages entry)).ret cpu index none)
      else
        some (s.goTo cpu (.insert index entry))
  | .insert index entry =>
      if (s.gptPages index).isSome then
        some { s with panicked := true }
      else
        some ({ s with gptPages := Function.update s.gptPages index (some entry) }.ret cpu index
          (some entry))
  | .checkPage index entry =>
      match s.pages.store.gptPages entry with
      | none => none
      | some found =>
          match found.page with
          | none => some (s.goTo cpu (.allocPage index entry))
          | some _ => some (s.goTo cpu (.countRef index entry))
  | .allocPage index entry =>
      match s.pages.store.valetMempoolAlloc with
      | .error _ => none
      | .ok (page, store) =>
          some ((s.setPages { s.pages with store := store, held := page :: s.pages.held }).goTo cpu
            (.setPage index entry page))
  | .setPage index entry page =>
      let store := s.pages.store.modifyEntry entry fun found => { found with page := some page }
      some ((s.setPages { s.pages with
        store := store
        held := s.pages.held.erase page }).goTo cpu (.countRef index entry))
  | .countRef index entry =>
      let store := s.pages.store.modifyEntry entry TreeEntry.beginWrite
      some ((s.setStore store).ret cpu index (some entry))

/-- A panic stops the machine. -/
def step (s : Inserting cpus Data) (label : InsertLabel cpus) : Option (Inserting cpus Data) :=
  if s.panicked then
    none
  else
    match label with
    | .call cpu index =>
        match s.calls cpu with
        | .idle => some (s.goTo cpu (.lookup index))
        | _ => none
    | .run cpu env => s.runCall cpu env

omit [Inhabited Data]

/-- Somebody can still reach the page: the pool, the system, the tree, or a call. -/
def Referenced (s : Inserting cpus Data) (page : Nat) : Prop :=
  page ∈ s.pages.store.pool.elements ∨ page ∈ s.pages.system ∨
    (∃ index entry, s.gptPages index = some entry ∧
      s.pages.store.pageOf (some entry) = some page) ∨
    (∃ cpu entry, (s.calls cpu).made = some entry ∧
      s.pages.store.pageOf (some entry) = some page) ∨
    ∃ cpu, (s.calls cpu).page = some page

/-- What concurrent insertions leave intact, from a state on: nobody panicked; an entry is that of
one index or of the call that made it; callers got the entry of their index; and every page that
could be reached still can. -/
structure Safe (first s : Inserting cpus Data) : Prop where
  calm : s.panicked = false
  entries : ∀ entry, (s.pages.store.gptPages entry).isSome →
    (∃ index, s.gptPages index = some entry) ∨ ∃ cpu, (s.calls cpu).made = some entry
  single : ∀ index other entry, s.gptPages index = some entry → s.gptPages other = some entry →
    index = other
  returned : ∀ index entry, (index, some entry) ∈ s.returned → s.gptPages index = some entry
  referenced : ∀ page, first.Referenced page → s.Referenced page

/-- The index is still free, or the entry still without a page, when the call is about to act on
what it saw. -/
def StillSo (s : Inserting cpus Data) : InsertCall → Prop
  | .insert index _ => s.gptPages index = none
  | .setPage _ entry _ => s.pages.store.pageOf (some entry) = none
  | _ => True

/-- A call inserts its entry while the index is still free, and gives a page to its entry while the
entry is still without one. -/
def Unraced (s : Inserting cpus Data) : InsertLabel cpus → Prop
  | .run cpu _ => s.StillSo (s.calls cpu)
  | .call _ _ => True

instance decidableStillSo (s : Inserting cpus Data) (call : InsertCall) :
    Decidable (s.StillSo call) :=
  match call with
  | .insert index _ => inferInstanceAs (Decidable (s.gptPages index = none))
  | .setPage _ entry _ => inferInstanceAs (Decidable (s.pages.store.pageOf (some entry) = none))
  | .idle | .lookup _ | .allocEntry _ | .preload _ _ | .checkPage _ _ | .allocPage _ _
  | .countRef _ _ => isTrue trivial

instance decidableUnraced (s : Inserting cpus Data) (label : InsertLabel cpus) :
    Decidable (s.Unraced label) :=
  match label with
  | .run cpu _ => inferInstanceAs (Decidable (s.StillSo (s.calls cpu)))
  | .call _ _ => isTrue trivial

/-- No call is under way; the entries of the tree exist, each for one index, and every page has one
owner. -/
structure Quiet (s : Inserting cpus Data) : Prop where
  accounted : s.pages.Accounted
  unheld : s.pages.held = []
  exist : ∀ index entry, s.gptPages index = some entry → (s.pages.store.gptPages entry).isSome
  entries : ∀ entry, (s.pages.store.gptPages entry).isSome → entry < s.kmalloced ∧
    ∃ index, s.gptPages index = some entry
  single : ∀ index other entry, s.gptPages index = some entry → s.gptPages other = some entry →
    index = other
  idle : ∀ cpu, s.calls cpu = .idle
  unreturned : s.returned = []
  calm : s.panicked = false

end Inserting

namespace Inserting

variable {cpus : Nat} {Data : Type} [Inhabited Data]

/-- A new pool, an empty tree, and no call. -/
def init (capNr minPoolPages maxPoolPages : Nat) : Inserting cpus Data where
  pages := .init capNr minPoolPages maxPoolPages
  gptPages := fun _ => none
  kmalloced := 0
  calls := fun _ => .idle
  returned := []
  panicked := false

theorem quiet_init (capNr minPoolPages maxPoolPages : Nat) :
    (init capNr minPoolPages maxPoolPages : Inserting cpus Data).Quiet where
  accounted := Pages.accounted_init capNr minPoolPages maxPoolPages
  unheld := rfl
  exist := fun index entry here => by cases here
  entries := fun entry here => by cases here
  single := fun index other entry here => by cases here
  idle := fun _ => rfl
  unreturned := rfl
  calm := rfl

end Inserting

/-! ## What a step does to the pages -/

namespace PageStore

variable {Data : Type} {s next : PageStore Data} {page entry : Nat}

theorem entryPages_none (reclaims : Reclaims s none next) : next.entryPages = s.entryPages :=
  entryPages_congr reclaims.pageOf_none

/-- An allocation takes its page from the pool or from an entry. -/
theorem alloc_known (sound : s.reclaimList.Sound) (ran : s.valetMempoolAlloc = .ok (page, next))
    (other : Nat) : (other ∈ s.pool.elements ∨ other ∈ s.entryPages) ↔
      other = page ∨ other ∈ next.pool.elements ∨ other ∈ next.entryPages := by
  unfold valetMempoolAlloc Mempool.valetRemoveElement at ran
  cases elements : s.pool.elements with
  | cons element rest =>
      rw [elements] at ran
      cases ran
      rw [List.mem_cons, or_assoc]
      exact Iff.rfl
  | nil =>
      rw [elements] at ran
      have keep {mid later : PageStore Data}
          (holds : mid.reclaimList.Sound ∧ mid.pool = s.pool ∧ mid.entryPages = s.entryPages)
          (attempt : mid.valetMempoolReclaim = .ok (none, later)) :
          later.reclaimList.Sound ∧ later.pool = s.pool ∧ later.entryPages = s.entryPages := by
        obtain ⟨soundMid, pool, entries⟩ := holds
        have reclaims := reclaims_of_ok soundMid attempt
        exact ⟨reclaims.drains.sound soundMid, reclaims.pool_eq.trans pool,
          (entryPages_none reclaims).trans entries⟩
      obtain ⟨last, ⟨soundLast, pool, entries⟩, attempt⟩ :=
        reclaimRepeat_spec keep ⟨sound, rfl, rfl⟩ ran
      have reclaims := reclaims_of_ok soundLast attempt
      rw [← entries, reclaims.entryPages, reclaims.pool_eq, pool, elements, Set.mem_insert_iff]
      simp

theorem pageOf_putEntry (value : Option TreeEntry) (other : Nat) :
    (s.putEntry entry value).pageOf (some other) =
      if other = entry then value.bind TreeEntry.page else s.pageOf (some other) := by
  by_cases same : other = entry
  · subst same
    simp [pageOf, putEntry]
  · simp [pageOf, putEntry, same]

theorem isSome_putEntry (value : Option TreeEntry) (other : Nat) :
    ((s.putEntry entry value).gptPages other).isSome =
      if other = entry then value.isSome else (s.gptPages other).isSome := by
  by_cases same : other = entry
  · subst same
    simp [putEntry]
  · simp [putEntry, same]

theorem shrinks_remove : s.Shrinks (s.putEntry entry none) := by
  intro other page here
  rw [pageOf_putEntry] at here
  split at here
  · cases here
  · exact here

theorem pageOf_modifyEntry {change : TreeEntry → TreeEntry}
    (keeps : ∀ found, (change found).page = found.page) (other : Nat) :
    (s.modifyEntry entry change).pageOf (some other) = s.pageOf (some other) := by
  by_cases same : other = entry
  · subst same
    cases here : s.gptPages other with
    | none => simp [pageOf, modifyEntry, here]
    | some found => simp [pageOf, modifyEntry, here, keeps]
  · simp [pageOf, modifyEntry, same]

theorem isSome_modifyEntry (change : TreeEntry → TreeEntry) (other : Nat) :
    ((s.modifyEntry entry change).gptPages other).isSome = (s.gptPages other).isSome := by
  by_cases same : other = entry
  · subst same
    simp [modifyEntry]
  · simp [modifyEntry, same]

/-- An allocation takes pages from entries, but no entry. -/
theorem isSome_alloc (sound : s.reclaimList.Sound) (ran : s.valetMempoolAlloc = .ok (page, next))
    (other : Nat) : (next.gptPages other).isSome = (s.gptPages other).isSome := by
  have drains := (allocates_of_ok sound ran).drains
  rw [Bool.eq_iff_iff, Option.isSome_iff_ne_none, Option.isSome_iff_ne_none]
  exact not_congr drains.absent

end PageStore

namespace Pages

variable {Data : Type} {s middle next : Pages Data} {page entry : Nat}

/-- The page is in the pool, with an entry or a caller, or went back to the system. -/
def Known (s : Pages Data) (page : Nat) : Prop :=
  (page ∈ s.store.pool.elements ∨ page ∈ s.store.entryPages) ∨ page ∈ s.held ++ s.system

/-- `next` knows one page more. -/
def Learns (s : Pages Data) (page : Nat) (next : Pages Data) : Prop :=
  ∀ other, next.Known other ↔ other = page ∨ s.Known other

/-- The pages have one owner each again, and they are the pages there were. -/
structure Moved (s next : Pages Data) : Prop where
  accounted : next.Accounted
  known : ∀ page, next.Known page ↔ s.Known page

/-- A page that leaves one owner and comes to another. -/
theorem Moved.of_learns (accounted : next.Accounted) (before : Learns middle page s)
    (after : Learns middle page next) : Moved s next :=
  ⟨accounted, fun other => (after other).trans (before other).symm⟩

theorem learns_alloc {store : PageStore Data} (accounted : s.Accounted)
    (ran : s.store.valetMempoolAlloc = .ok (page, store)) :
    Learns { s with store := store } page s := by
  intro other
  have parts := PageStore.alloc_known accounted.sound ran other
  rw [Known, parts, Known]
  exact or_assoc

/-- An entry without a page is given one. -/
theorem learns_give {value : TreeEntry} (has : value.page = some page)
    (gone : s.store.pageOf (some entry) = none) :
    Learns s page { s with store := s.store.putEntry entry (some value) } := by
  intro other
  have pages : (s.store.putEntry entry (some value)).entryPages = insert page s.store.entryPages :=
    PageStore.give_entryPages has gone
  show (other ∈ s.store.pool.elements ∨ other ∈ (s.store.putEntry entry (some value)).entryPages) ∨
    other ∈ s.held ++ s.system ↔ _
  rw [pages, Set.mem_insert_iff, Known]
  exact (or_congr_left or_left_comm).trans or_assoc

/-- A caller holds a page. -/
theorem learns_hold : Learns s page { s with held := page :: s.held } := by
  intro other
  show (other ∈ s.store.pool.elements ∨ other ∈ s.store.entryPages) ∨
    other ∈ page :: (s.held ++ s.system) ↔ _
  rw [List.mem_cons, Known]
  exact or_left_comm

/-- A caller held a page. -/
theorem learns_erase (holds : page ∈ s.held) :
    Learns { s with held := s.held.erase page } page s := by
  intro other
  have parts := ((List.perm_cons_erase holds).append_right s.system).mem_iff (a := other)
  rw [List.cons_append, List.mem_cons] at parts
  rw [Known, parts, Known]
  exact or_left_comm

/-- The entry that had the page is no more. -/
theorem learns_remove (here : s.store.pageOf (some entry) = some page) :
    Learns { s with store := s.store.putEntry entry none } page s := by
  intro other
  have pages : other ∈ s.store.entryPages ↔
      other = page ∨ other ∈ (s.store.putEntry entry none).entryPages := by
    constructor
    · rintro ⟨at_, there⟩
      by_cases same : at_ = entry
      · subst same
        rw [here] at there
        cases there
        exact Or.inl rfl
      · exact Or.inr ⟨at_, by rw [PageStore.pageOf_putEntry, if_neg same]; exact there⟩
    · rintro (rfl | ⟨at_, there⟩)
      · exact ⟨entry, here⟩
      · exact ⟨at_, PageStore.shrinks_remove at_ other there⟩
  rw [Known, pages, Known]
  show _ ↔ other = page ∨ (other ∈ s.store.pool.elements ∨
    other ∈ (s.store.putEntry entry none).entryPages) ∨ other ∈ s.held ++ s.system
  exact (or_congr_left or_left_comm).trans or_assoc

/-- Every entry keeps its page. -/
theorem Moved.of_same {store : PageStore Data} (accounted : s.Accounted)
    (pool : store.pool = s.store.pool) (list : store.reclaimList = s.store.reclaimList)
    (same : ∀ entry, store.pageOf (some entry) = s.store.pageOf (some entry)) :
    Moved s { s with store := store } := by
  have kept : s.store.Shrinks store := fun entry page here => (same entry).symm.trans here
  refine ⟨accounted.goOn (by rw [list]; exact accounted.sound) (accounted.owned.shrinks kept pool)
    fun page loose => loose.shrinks kept pool, fun page => ?_⟩
  rw [Known, Known, pool, PageStore.entryPages_congr same]

/-- A page that nobody has is given to an entry that has none. -/
theorem Accounted.put {value : TreeEntry} (accounted : s.Accounted) (loose : s.store.Loose page)
    (fresh : page ∉ s.held ++ s.system) (has : value.page = some page) :
    ({ s with store := s.store.putEntry entry (some value) } : Pages Data).Accounted := by
  refine ⟨accounted.sound, accounted.owned.give loose has, accounted.outside, ?_⟩
  intro other member
  refine (accounted.loose other member).give fun same => fresh ?_
  rw [has] at same
  cases same
  exact member

/-- An allocation for an entry that has no page. -/
theorem Moved.make {value : TreeEntry} {store : PageStore Data} (accounted : s.Accounted)
    (ran : s.store.valetMempoolAlloc = .ok (page, store)) (has : value.page = some page)
    (gone : store.pageOf (some entry) = none) :
    Moved s { s with store := store.putEntry entry (some value) } := by
  obtain ⟨after, loose, fresh⟩ := accounted.allocate ran
  exact .of_learns (after.put loose fresh has) (learns_alloc accounted ran)
    (learns_give (s := { s with store := store }) has gone)

/-- An allocation for a caller. -/
theorem Moved.take {store : PageStore Data} (accounted : s.Accounted)
    (ran : s.store.valetMempoolAlloc = .ok (page, store)) :
    Moved s { s with store := store, held := page :: s.held } := by
  obtain ⟨after, loose, fresh⟩ := accounted.allocate ran
  exact .of_learns (after.hold loose fresh) (learns_alloc accounted ran) learns_hold

/-- A caller gives the page that it holds to an entry that has none. -/
theorem Moved.give {value : TreeEntry} (accounted : s.Accounted) (holds : page ∈ s.held)
    (has : value.page = some page) (gone : s.store.pageOf (some entry) = none) :
    Moved s { s with
      store := s.store.putEntry entry (some value)
      held := s.held.erase page } := by
  obtain ⟨after, loose, fresh⟩ := accounted.release holds
  exact .of_learns (after.put loose fresh has) (learns_erase holds)
    (learns_give (s := { s with held := s.held.erase page }) has gone)

variable [Inhabited Data]

/-- A page is freed, to the pool or to the system. -/
theorem learns_free (s : Pages Data) (page : Nat) : Learns s page (s.valetMempoolFree page) := by
  intro other
  have pages : (s.store.valetMempoolFree page).entryPages = s.store.entryPages := rfl
  unfold valetMempoolFree
  dsimp only
  split
  · rename_i full
    have pool : (s.store.valetMempoolFree page).pool.elements = s.store.pool.elements := by
      show (s.store.pool.valetAddElement page).elements = _
      rw [Mempool.valetAddElement, if_pos full]
    show (other ∈ (s.store.valetMempoolFree page).pool.elements ∨
      other ∈ (s.store.valetMempoolFree page).entryPages) ∨ other ∈ s.held ++ page :: s.system ↔ _
    rw [pool, pages, List.perm_middle.mem_iff, List.mem_cons, Known]
    exact or_left_comm
  · rename_i roomy
    have pool : (s.store.valetMempoolFree page).pool.elements = page :: s.store.pool.elements := by
      show (s.store.pool.valetAddElement page).elements = _
      rw [Mempool.valetAddElement, if_neg roomy]
    show (other ∈ (s.store.valetMempoolFree page).pool.elements ∨
      other ∈ (s.store.valetMempoolFree page).entryPages) ∨ other ∈ s.held ++ s.system ↔ _
    rw [pool, pages, List.mem_cons, Known]
    exact (or_congr_left or_assoc).trans or_assoc

/-- An entry is freed, and its page with it. -/
theorem moved_freeEntry (accounted : s.Accounted) (entry : Nat) :
    Moved s (Inserting.freeEntry s entry) := by
  unfold Inserting.freeEntry
  cases here : s.store.pageOf (some entry) with
  | none =>
      refine .of_same accounted rfl rfl fun other => ?_
      rw [PageStore.pageOf_putEntry]
      split
      · rename_i same
        rw [same, here]
        rfl
      · rfl
  | some page =>
      have kept : s.store.Shrinks (s.store.putEntry entry none) := PageStore.shrinks_remove
      have removed : ({ s with store := s.store.putEntry entry none } : Pages Data).Accounted :=
        accounted.goOn accounted.sound (accounted.owned.shrinks kept rfl)
          fun other loose => loose.shrinks kept rfl
      have loose : (s.store.putEntry entry none).Loose page := by
        refine ⟨accounted.owned.apart entry page here, fun other there => ?_⟩
        rw [PageStore.pageOf_putEntry] at there
        split at there
        · cases there
        · rename_i different
          exact different (accounted.owned.single other entry page there here)
      have fresh : page ∉ s.held ++ s.system := fun member =>
        (accounted.loose page member).unheld entry here
      have swapped : { s.valetMempoolFree page with
            store := (s.valetMempoolFree page).store.putEntry entry none } =
          ({ s with store := s.store.putEntry entry none } : Pages Data).valetMempoolFree page := by
        unfold valetMempoolFree
        dsimp only
        split
        · rename_i full
          exact (if_pos full).symm
        · rename_i roomy
          exact (if_neg roomy).symm
      show Moved s { s.valetMempoolFree page with
        store := (s.valetMempoolFree page).store.putEntry entry none }
      rw [swapped]
      exact .of_learns (removed.free loose fresh) (learns_remove here) (learns_free _ page)

end Pages

/-! ## What every step keeps -/

namespace Inserting

variable {cpus : Nat} {Data : Type} {s next : Inserting cpus Data} {cpu : Fin cpus}
  {index entry page : Nat} {call : InsertCall}

/-- How the tree, the entries and the pages hang together with the calls that are under way. -/
structure Orderly (s : Inserting cpus Data) : Prop where
  accounted : s.pages.Accounted
  exist : ∀ index entry, s.gptPages index = some entry → (s.pages.store.gptPages entry).isSome
  bound : ∀ entry, (s.pages.store.gptPages entry).isSome → entry < s.kmalloced
  entries : ∀ entry, (s.pages.store.gptPages entry).isSome →
    (∃ index, s.gptPages index = some entry) ∨ ∃ cpu, (s.calls cpu).made = some entry
  single : ∀ index other entry, s.gptPages index = some entry → s.gptPages other = some entry →
    index = other
  made : ∀ cpu entry, (s.calls cpu).made = some entry → (s.pages.store.gptPages entry).isSome ∧
    ∀ index, s.gptPages index ≠ some entry
  madeOnce : ∀ cpu other entry, (s.calls cpu).made = some entry →
    (s.calls other).made = some entry → cpu = other
  found : ∀ cpu index entry, (s.calls cpu).found = some (index, entry) →
    s.gptPages index = some entry
  held : ∀ page, page ∈ s.pages.held ↔ ∃ cpu, (s.calls cpu).page = some page
  heldOnce : ∀ cpu other page, (s.calls cpu).page = some page →
    (s.calls other).page = some page → cpu = other
  returned : ∀ index entry, (index, some entry) ∈ s.returned → s.gptPages index = some entry
  calm : s.panicked = false

theorem Quiet.orderly (quiet : s.Quiet) : s.Orderly where
  accounted := quiet.accounted
  exist := quiet.exist
  bound := fun entry alive => (quiet.entries entry alive).1
  entries := fun entry alive => Or.inl (quiet.entries entry alive).2
  single := quiet.single
  made := fun cpu entry here => by rw [quiet.idle] at here; cases here
  madeOnce := fun cpu other entry here => by rw [quiet.idle] at here; cases here
  found := fun cpu index entry here => by rw [quiet.idle] at here; cases here
  held := by
    intro page
    rw [quiet.unheld]
    constructor
    · intro member
      cases member
    · rintro ⟨cpu, here⟩
      rw [quiet.idle] at here
      cases here
  heldOnce := fun cpu other page here => by rw [quiet.idle] at here; cases here
  returned := fun index entry member => by rw [quiet.unreturned] at member; cases member
  calm := quiet.calm

theorem calls_goTo (s : Inserting cpus Data) (cpu other : Fin cpus) (call : InsertCall) :
    (s.goTo cpu call).calls other = if other = cpu then call else s.calls other :=
  Function.update_apply ..

variable {Value : Type} {value : Value} {other : Fin cpus}

/-- What a call has, after the call of one CPU has gone on. -/
theorem has_goTo (has : InsertCall → Option Value) :
    has ((s.goTo cpu call).calls other) = some value ↔
      other = cpu ∧ has call = some value ∨ other ≠ cpu ∧ has (s.calls other) = some value := by
  rw [calls_goTo]
  split
  · rename_i same
    simp [same]
  · rename_i different
    simp [different]

/-- What a call has that it had before it went on. -/
theorem has_goTo_same {has : InsertCall → Option Value} (same : has call = has (s.calls cpu))
    (other : Fin cpus) : has ((s.goTo cpu call).calls other) = has (s.calls other) := by
  rw [calls_goTo]
  split
  · rename_i here
    rw [here, same]
  · rfl

/-- A call goes on without what it had. -/
theorem has_goTo_none (has : InsertCall → Option Value) (without : has call = none)
    (here : has ((s.goTo cpu call).calls other) = some value) :
    other ≠ cpu ∧ has (s.calls other) = some value := by
  rcases (has_goTo has).mp here with ⟨-, there⟩ | there
  · rw [without] at there
    cases there
  · exact there

/-- Two calls have nothing in common if what a call goes on with is new. -/
theorem once_goTo {has : InsertCall → Option Value}
    (fresh : ∀ other value, other ≠ cpu → has call = some value → has (s.calls other) ≠ some value)
    (once : ∀ first second value, has (s.calls first) = some value →
      has (s.calls second) = some value → first = second) (first second : Fin cpus) (value : Value)
    (left : has ((s.goTo cpu call).calls first) = some value)
    (right : has ((s.goTo cpu call).calls second) = some value) : first = second := by
  rcases (has_goTo has).mp left with ⟨rfl, new⟩ | ⟨apart, old⟩
  · rcases (has_goTo has).mp right with ⟨rfl, -⟩ | ⟨apart, old⟩
    · rfl
    · exact absurd old (fresh second value apart new)
  · rcases (has_goTo has).mp right with ⟨rfl, new⟩ | ⟨-, there⟩
    · exact absurd old (fresh first value apart new)
    · exact once first second value old there

/-- The same for a call that keeps what it has. -/
theorem once_goTo_same {has : InsertCall → Option Value} (same : has call = has (s.calls cpu))
    (once : ∀ first second value, has (s.calls first) = some value →
      has (s.calls second) = some value → first = second) (first second : Fin cpus) (value : Value)
    (left : has ((s.goTo cpu call).calls first) = some value)
    (right : has ((s.goTo cpu call).calls second) = some value) : first = second := by
  refine once_goTo (fun other value apart new old => ?_) once first second value left right
  rw [same] at new
  exact apart (once other cpu value old new)

theorem exists_goTo_same {has : InsertCall → Option Value} (same : has call = has (s.calls cpu)) :
    (∃ other, has ((s.goTo cpu call).calls other) = some value) ↔
      ∃ other, has (s.calls other) = some value :=
  exists_congr fun other => by rw [has_goTo_same same]

/-- The calls have found entries of the tree if the call that goes on has. -/
theorem found_goTo {tree : Nat → Option Nat}
    (new : ∀ index entry, call.found = some (index, entry) → tree index = some entry)
    (old : ∀ other index entry, (s.calls other).found = some (index, entry) →
      tree index = some entry) (other : Fin cpus) (index entry : Nat)
    (here : ((s.goTo cpu call).calls other).found = some (index, entry)) :
    tree index = some entry := by
  rcases (has_goTo InsertCall.found).mp here with ⟨-, there⟩ | ⟨-, there⟩
  · exact new index entry there
  · exact old other index entry there

namespace Orderly

/-- The pages change, but no entry comes or goes and no caller gets a page. -/
theorem setPages {pages : Pages Data} (orderly : s.Orderly) (accounted : pages.Accounted)
    (alive : ∀ entry, (pages.store.gptPages entry).isSome = (s.pages.store.gptPages entry).isSome)
    (held : pages.held = s.pages.held) : (s.setPages pages).Orderly where
  accounted := accounted
  exist := fun index entry here => (alive entry).trans (orderly.exist index entry here)
  bound := fun entry here => orderly.bound entry ((alive entry).symm.trans here)
  entries := fun entry here => orderly.entries entry ((alive entry).symm.trans here)
  single := orderly.single
  made := fun cpu entry here =>
    ⟨(alive entry).trans (orderly.made cpu entry here).1, (orderly.made cpu entry here).2⟩
  madeOnce := orderly.madeOnce
  found := orderly.found
  held := fun page => by
    show page ∈ pages.held ↔ _
    rw [held]
    exact orderly.held page
  heldOnce := orderly.heldOnce
  returned := orderly.returned
  calm := orderly.calm

/-- A call goes on with the entry that it made and the page that it holds. -/
theorem goTo {old : InsertCall} (orderly : s.Orderly) (at_ : s.calls cpu = old)
    (made : call.made = old.made) (page : call.page = old.page)
    (found : ∀ index entry, call.found = some (index, entry) → s.gptPages index = some entry) :
    (s.goTo cpu call).Orderly := by
  subst at_
  refine ⟨orderly.accounted, orderly.exist, orderly.bound, ?_, orderly.single, ?_,
    once_goTo_same made orderly.madeOnce, found_goTo found orderly.found, ?_,
    once_goTo_same page orderly.heldOnce, orderly.returned, orderly.calm⟩
  · intro entry alive
    rw [exists_goTo_same made]
    exact orderly.entries entry alive
  · intro other entry here
    rw [has_goTo_same made] at here
    exact orderly.made other entry here
  · intro held
    rw [exists_goTo_same page]
    exact orderly.held held

/-- A call answers with the entry of its index, or with none. -/
theorem answer {result : Option Nat} (orderly : s.Orderly)
    (right : ∀ entry, result = some entry → s.gptPages index = some entry) :
    ({ s with returned := (index, result) :: s.returned } : Inserting cpus Data).Orderly := by
  refine { orderly with returned := fun other entry member => ?_ }
  rcases List.mem_cons.mp member with same | old
  · cases same
    exact right entry rfl
  · exact orderly.returned other entry old

/-- A call makes an entry, at an address where there was none. -/
theorem make {pages : Pages Data} (orderly : s.Orderly) (unmade : (s.calls cpu).made = none)
    (unheld : (s.calls cpu).page = none) (accounted : pages.Accounted)
    (alive : ∀ entry, (pages.store.gptPages entry).isSome ↔
      entry = s.kmalloced ∨ (s.pages.store.gptPages entry).isSome)
    (held : pages.held = s.pages.held) :
    ({ s.setPages pages with kmalloced := s.kmalloced + 1 }.goTo cpu
      (.preload index s.kmalloced)).Orderly := by
  have fresh : ¬ (s.pages.store.gptPages s.kmalloced).isSome := fun here =>
    Nat.lt_irrefl _ (orderly.bound s.kmalloced here)
  have exist (index entry : Nat) (here : s.gptPages index = some entry) :
      (pages.store.gptPages entry).isSome :=
    (alive entry).mpr (Or.inr (orderly.exist index entry here))
  refine ⟨accounted, exist, ?_, ?_, orderly.single, ?_, once_goTo ?_ orderly.madeOnce,
    found_goTo ?_ orderly.found, ?_, once_goTo_same unheld.symm orderly.heldOnce, orderly.returned,
    orderly.calm⟩
  · intro entry here
    rcases (alive entry).mp here with rfl | old
    · exact Nat.lt_succ_self _
    · exact Nat.lt_succ_of_lt (orderly.bound entry old)
  · intro entry here
    rcases (alive entry).mp here with rfl | old
    · exact Or.inr ⟨cpu, (has_goTo InsertCall.made).mpr (Or.inl ⟨rfl, rfl⟩)⟩
    · rcases orderly.entries entry old with tree | ⟨other, there⟩
      · exact Or.inl tree
      · refine Or.inr ⟨other, (has_goTo InsertCall.made).mpr (Or.inr ⟨?_, there⟩)⟩
        rintro rfl
        rw [unmade] at there
        cases there
  · intro other entry here
    rcases (has_goTo InsertCall.made).mp here with ⟨-, there⟩ | ⟨-, there⟩
    · cases there
      exact ⟨(alive _).mpr (Or.inl rfl), fun index tree => fresh (orderly.exist index _ tree)⟩
    · obtain ⟨old, untreed⟩ := orderly.made other entry there
      exact ⟨(alive entry).mpr (Or.inr old), untreed⟩
  · intro other entry _ new old
    cases new
    exact fresh (orderly.made other _ old).1
  · intro index entry here
    cases here
  · intro page
    show page ∈ pages.held ↔ _
    rw [held, orderly.held page]
    exact (exists_goTo_same unheld.symm).symm

/-- A call frees the entry that it made. -/
theorem drop {pages : Pages Data} (orderly : s.Orderly) (made : (s.calls cpu).made = some entry)
    (unheld : (s.calls cpu).page = none) (accounted : pages.Accounted)
    (alive : ∀ other, (pages.store.gptPages other).isSome ↔
      other ≠ entry ∧ (s.pages.store.gptPages other).isSome)
    (held : pages.held = s.pages.held) : ((s.setPages pages).goTo cpu .idle).Orderly := by
  obtain ⟨old, untreed⟩ := orderly.made cpu entry made
  have exist (index other : Nat) (here : s.gptPages index = some other) :
      (pages.store.gptPages other).isSome := by
    refine (alive other).mpr ⟨?_, orderly.exist index other here⟩
    rintro rfl
    exact untreed index here
  refine ⟨accounted, exist, ?_, ?_, orderly.single, ?_, once_goTo ?_ orderly.madeOnce,
    found_goTo ?_ orderly.found, ?_, once_goTo_same unheld.symm orderly.heldOnce, orderly.returned,
    orderly.calm⟩
  · exact fun other here => orderly.bound other ((alive other).mp here).2
  · intro other here
    obtain ⟨different, there⟩ := (alive other).mp here
    rcases orderly.entries other there with tree | ⟨first, makes⟩
    · exact Or.inl tree
    · refine Or.inr ⟨first, (has_goTo InsertCall.made).mpr (Or.inr ⟨?_, makes⟩)⟩
      rintro rfl
      rw [made] at makes
      cases makes
      exact different rfl
  · intro first other here
    obtain ⟨apart, there⟩ := has_goTo_none InsertCall.made rfl here
    obtain ⟨there', free⟩ := orderly.made first other there
    refine ⟨(alive other).mpr ⟨?_, there'⟩, free⟩
    rintro rfl
    exact apart (orderly.madeOnce first cpu other there made)
  · intro other entry _ new
    cases new
  · intro index entry here
    cases here
  · intro page
    show page ∈ pages.held ↔ _
    rw [held, orderly.held page]
    exact (exists_goTo_same unheld.symm).symm

/-- A call puts the entry that it made into the tree, under an index that is free. -/
theorem insert (orderly : s.Orderly) (made : (s.calls cpu).made = some entry)
    (unheld : (s.calls cpu).page = none) (free : s.gptPages index = none) :
    ({ s with gptPages := Function.update s.gptPages index (some entry) }.goTo cpu .idle).Orderly := by
  obtain ⟨alive, untreed⟩ := orderly.made cpu entry made
  have tree {at_ other : Nat} : Function.update s.gptPages index (some entry) at_ = some other ↔
      at_ = index ∧ other = entry ∨ at_ ≠ index ∧ s.gptPages at_ = some other := by
    rw [Function.update_apply]
    split
    · rename_i same
      simp [same, eq_comm]
    · rename_i different
      simp [different]
  have still {at_ other : Nat} (here : s.gptPages at_ = some other) :
      Function.update s.gptPages index (some entry) at_ = some other := by
    refine tree.mpr (Or.inr ⟨?_, here⟩)
    rintro rfl
    rw [free] at here
    cases here
  refine ⟨orderly.accounted, ?_, orderly.bound, ?_, ?_, ?_, once_goTo ?_ orderly.madeOnce,
    found_goTo ?_ fun other at_ found here => still (orderly.found other at_ found here), ?_,
    once_goTo_same unheld.symm orderly.heldOnce,
    fun at_ other member => still (orderly.returned at_ other member), orderly.calm⟩
  · intro at_ other here
    rcases tree.mp here with ⟨-, rfl⟩ | ⟨-, there⟩
    · exact alive
    · exact orderly.exist at_ other there
  · intro other here
    rcases orderly.entries other here with ⟨at_, there⟩ | ⟨first, makes⟩
    · exact Or.inl ⟨at_, still there⟩
    · by_cases same : first = cpu
      · subst same
        rw [made] at makes
        cases makes
        exact Or.inl ⟨index, tree.mpr (Or.inl ⟨rfl, rfl⟩)⟩
      · exact Or.inr ⟨first, (has_goTo InsertCall.made).mpr (Or.inr ⟨same, makes⟩)⟩
  · intro first second other here there
    rcases tree.mp here with ⟨rfl, rfl⟩ | ⟨-, left⟩
    · rcases tree.mp there with ⟨rfl, -⟩ | ⟨-, right⟩
      · rfl
      · exact absurd right (untreed second)
    · rcases tree.mp there with ⟨rfl, rfl⟩ | ⟨-, right⟩
      · exact absurd left (untreed first)
      · exact orderly.single first second other left right
  · intro first other here
    obtain ⟨apart, there⟩ := has_goTo_none InsertCall.made rfl here
    obtain ⟨alive', free'⟩ := orderly.made first other there
    refine ⟨alive', fun at_ taken => ?_⟩
    rcases tree.mp taken with ⟨-, rfl⟩ | ⟨-, old⟩
    · exact apart (orderly.madeOnce first cpu other there made)
    · exact free' at_ old
  · intro other entry _ new
    cases new
  · intro index entry here
    cases here
  · exact fun page => (orderly.held page).trans (exists_goTo_same unheld.symm).symm

/-- A call holds a page for the entry that it has found. -/
theorem hold {pages : Pages Data} (orderly : s.Orderly)
    (here : s.calls cpu = .allocPage index entry) (accounted : pages.Accounted)
    (alive : ∀ entry, (pages.store.gptPages entry).isSome = (s.pages.store.gptPages entry).isSome)
    (held : pages.held = page :: s.pages.held) :
    ((s.setPages pages).goTo cpu (.setPage index entry page)).Orderly := by
  have unheld : (s.calls cpu).page = none := by rw [here]; rfl
  have sameMade : (InsertCall.setPage index entry page).made = (s.calls cpu).made := by
    rw [here]
    rfl
  have fresh (other : Fin cpus) : (s.calls other).page ≠ some page := by
    intro there
    have distinct := accounted.outside
    rw [held, List.cons_append, List.nodup_cons] at distinct
    exact distinct.1 (List.mem_append_left _ ((orderly.held page).mpr ⟨other, there⟩))
  refine ⟨accounted, fun index entry there => (alive entry).trans (orderly.exist index entry there),
    fun entry there => orderly.bound entry ((alive entry).symm.trans there), ?_, orderly.single, ?_,
    once_goTo_same sameMade orderly.madeOnce, found_goTo ?_ orderly.found, ?_,
    once_goTo ?_ orderly.heldOnce, orderly.returned, orderly.calm⟩
  · intro entry there
    refine (orderly.entries entry ((alive entry).symm.trans there)).imp_right ?_
    exact (exists_goTo_same sameMade).mpr
  · intro other entry there
    obtain ⟨old, untreed⟩ := orderly.made other entry ((has_goTo_same sameMade other).symm.trans there)
    exact ⟨(alive entry).trans old, untreed⟩
  · intro at_ found there
    cases there
    exact orderly.found cpu index entry (by rw [here]; rfl)
  · intro other
    show other ∈ pages.held ↔ _
    rw [held, List.mem_cons]
    constructor
    · rintro (rfl | old)
      · exact ⟨cpu, (has_goTo InsertCall.page).mpr (Or.inl ⟨rfl, rfl⟩)⟩
      · obtain ⟨first, there⟩ := (orderly.held other).mp old
        refine ⟨first, (has_goTo InsertCall.page).mpr (Or.inr ⟨?_, there⟩)⟩
        rintro rfl
        rw [unheld] at there
        cases there
    · rintro ⟨first, there⟩
      rcases (has_goTo InsertCall.page).mp there with ⟨-, new⟩ | ⟨-, old⟩
      · cases new
        exact Or.inl rfl
      · exact Or.inr ((orderly.held other).mpr ⟨first, old⟩)
  · intro other there _ new
    cases new
    exact fresh other

/-- A call has given the page that it held to the entry that it had found. -/
theorem release {pages : Pages Data} (orderly : s.Orderly)
    (here : s.calls cpu = .setPage index entry page) (accounted : pages.Accounted)
    (alive : ∀ entry, (pages.store.gptPages entry).isSome = (s.pages.store.gptPages entry).isSome)
    (held : pages.held = s.pages.held.erase page) :
    ((s.setPages pages).goTo cpu (.countRef index entry)).Orderly := by
  have holds : (s.calls cpu).page = some page := by rw [here]; rfl
  have sameMade : (InsertCall.countRef index entry).made = (s.calls cpu).made := by
    rw [here]
    rfl
  have distinct : s.pages.held.Nodup := orderly.accounted.outside.of_append_left
  refine ⟨accounted, fun index entry there => (alive entry).trans (orderly.exist index entry there),
    fun entry there => orderly.bound entry ((alive entry).symm.trans there), ?_, orderly.single, ?_,
    once_goTo_same sameMade orderly.madeOnce, found_goTo ?_ orderly.found, ?_,
    once_goTo ?_ orderly.heldOnce, orderly.returned, orderly.calm⟩
  · intro entry there
    refine (orderly.entries entry ((alive entry).symm.trans there)).imp_right ?_
    exact (exists_goTo_same sameMade).mpr
  · intro other entry there
    obtain ⟨old, untreed⟩ := orderly.made other entry ((has_goTo_same sameMade other).symm.trans there)
    exact ⟨(alive entry).trans old, untreed⟩
  · intro at_ found there
    cases there
    exact orderly.found cpu index entry (by rw [here]; rfl)
  · intro other
    show other ∈ pages.held ↔ _
    rw [held, distinct.mem_erase_iff, orderly.held other]
    constructor
    · rintro ⟨different, first, there⟩
      refine ⟨first, (has_goTo InsertCall.page).mpr (Or.inr ⟨?_, there⟩)⟩
      rintro rfl
      rw [holds] at there
      cases there
      exact different rfl
    · rintro ⟨first, there⟩
      obtain ⟨apart, old⟩ := has_goTo_none InsertCall.page rfl there
      refine ⟨?_, first, old⟩
      rintro rfl
      exact apart (orderly.heldOnce first cpu other old holds)
  · intro other there _ new
    cases new

end Orderly

variable [Inhabited Data]

/-- The steps of a call. -/
inductive Moves (s : Inserting cpus Data) (cpu : Fin cpus) : Inserting cpus Data → Prop where
  | absent {index : Nat} (at_ : s.calls cpu = .lookup index) :
      Moves s cpu (s.goTo cpu (.allocEntry index))
  | present {index entry : Nat} (at_ : s.calls cpu = .lookup index)
      (there : s.gptPages index = some entry) : Moves s cpu (s.goTo cpu (.checkPage index entry))
  | unmade {index : Nat} (at_ : s.calls cpu = .allocEntry index) :
      Moves s cpu (s.ret cpu index none)
  | made {index page : Nat} {store : PageStore Data} (at_ : s.calls cpu = .allocEntry index)
      (alloc : s.pages.store.valetMempoolAlloc = .ok (page, store)) :
      Moves s cpu ({ s.setStore (store.putEntry s.kmalloced (some ⟨some page, fun _ => false, 0⟩)) with
        kmalloced := s.kmalloced + 1 }.goTo cpu (.preload index s.kmalloced))
  | undone {index entry : Nat} (at_ : s.calls cpu = .preload index entry) :
      Moves s cpu ((s.setPages (freeEntry s.pages entry)).ret cpu index none)
  | preloaded {index entry : Nat} (at_ : s.calls cpu = .preload index entry) :
      Moves s cpu (s.goTo cpu (.insert index entry))
  | collided {index entry : Nat} (at_ : s.calls cpu = .insert index entry)
      (taken : (s.gptPages index).isSome) : Moves s cpu { s with panicked := true }
  | inserted {index entry : Nat} (at_ : s.calls cpu = .insert index entry)
      (free : s.gptPages index = none) :
      Moves s cpu ({ s with gptPages := Function.update s.gptPages index (some entry) }.ret cpu index
        (some entry))
  | pageless {index entry : Nat} (at_ : s.calls cpu = .checkPage index entry) :
      Moves s cpu (s.goTo cpu (.allocPage index entry))
  | paged {index entry : Nat} (at_ : s.calls cpu = .checkPage index entry) :
      Moves s cpu (s.goTo cpu (.countRef index entry))
  | taken {index entry page : Nat} {store : PageStore Data}
      (at_ : s.calls cpu = .allocPage index entry)
      (alloc : s.pages.store.valetMempoolAlloc = .ok (page, store)) :
      Moves s cpu ((s.setPages { s.pages with store := store, held := page :: s.pages.held }).goTo cpu
        (.setPage index entry page))
  | given {index entry page : Nat} (at_ : s.calls cpu = .setPage index entry page) :
      Moves s cpu ((s.setPages { s.pages with
        store := s.pages.store.modifyEntry entry fun found => { found with page := some page }
        held := s.pages.held.erase page }).goTo cpu (.countRef index entry))
  | counted {index entry : Nat} (at_ : s.calls cpu = .countRef index entry) :
      Moves s cpu ((s.setStore (s.pages.store.modifyEntry entry TreeEntry.beginWrite)).ret cpu index
        (some entry))

theorem moves_of_run {env : AllocEnv} (edge : s.runCall cpu env = some next) : Moves s cpu next := by
  unfold runCall at edge
  cases at_ : s.calls cpu with
  | idle =>
      rw [at_] at edge
      cases edge
  | lookup index =>
      rw [at_] at edge
      dsimp only at edge
      cases there : s.gptPages index with
      | none =>
          rw [there] at edge
          cases edge
          exact .absent at_
      | some entry =>
          rw [there] at edge
          cases edge
          exact .present at_ there
  | allocEntry index =>
      rw [at_] at edge
      dsimp only at edge
      split at edge
      · cases edge
        exact .unmade at_
      · cases alloc : s.pages.store.valetMempoolAlloc with
        | error halt =>
            rw [alloc] at edge
            cases edge
        | ok result =>
            rw [alloc] at edge
            cases edge
            exact .made at_ alloc
  | preload index entry =>
      rw [at_] at edge
      dsimp only at edge
      split at edge
      · cases edge
        exact .undone at_
      · cases edge
        exact .preloaded at_
  | insert index entry =>
      rw [at_] at edge
      dsimp only at edge
      split at edge
      · rename_i taken
        cases edge
        exact .collided at_ taken
      · rename_i free
        cases edge
        exact .inserted at_ (Option.not_isSome_iff_eq_none.mp free)
  | checkPage index entry =>
      rw [at_] at edge
      dsimp only at edge
      split at edge
      · cases edge
      · split at edge
        · cases edge
          exact .pageless at_
        · cases edge
          exact .paged at_
  | allocPage index entry =>
      rw [at_] at edge
      dsimp only at edge
      cases alloc : s.pages.store.valetMempoolAlloc with
      | error halt =>
          rw [alloc] at edge
          cases edge
      | ok result =>
          rw [alloc] at edge
          cases edge
          exact .taken at_ alloc
  | setPage index entry page =>
      rw [at_] at edge
      cases edge
      exact .given at_
  | countRef index entry =>
      rw [at_] at edge
      cases edge
      exact .counted at_

/-- While nobody panicked, a call begins or goes on. -/
theorem moves_of_step {label : InsertLabel cpus} (calm : s.panicked = false)
    (edge : s.step label = some next) :
    (∃ cpu index, label = .call cpu index ∧ s.calls cpu = .idle ∧
      next = s.goTo cpu (.lookup index)) ∨
      ∃ cpu env, label = .run cpu env ∧ Moves s cpu next := by
  have goesOn : ¬ s.panicked = true := by
    rw [calm]
    exact Bool.false_ne_true
  unfold Inserting.step at edge
  rw [if_neg goesOn] at edge
  cases label with
  | call cpu index =>
      dsimp only at edge
      split at edge
      · rename_i at_
        cases edge
        exact Or.inl ⟨cpu, index, rfl, at_, rfl⟩
      · cases edge
  | run cpu env => exact Or.inr ⟨cpu, env, rfl, moves_of_run edge⟩

theorem freeEntry_held (pages : Pages Data) (entry : Nat) :
    (freeEntry pages entry).held = pages.held := by
  unfold freeEntry
  cases pages.store.pageOf (some entry) with
  | none => rfl
  | some page => exact Pages.valetMempoolFree_held pages page

theorem freeEntry_alive (pages : Pages Data) (entry other : Nat) :
    ((freeEntry pages entry).store.gptPages other).isSome ↔
      other ≠ entry ∧ (pages.store.gptPages other).isSome := by
  have kept : (freeEntry pages entry).store.gptPages =
      (pages.store.putEntry entry none).gptPages := by
    unfold freeEntry
    cases pages.store.pageOf (some entry) with
    | none => rfl
    | some page =>
        dsimp only
        rw [Pages.valetMempoolFree_store]
        rfl
  rw [kept, PageStore.isSome_putEntry]
  by_cases same : other = entry
  · simp [same]
  · simp [same]

/-- What a step of a call keeps. -/
theorem Orderly.moves (orderly : s.Orderly) {env : AllocEnv} (unraced : s.Unraced (.run cpu env))
    (moves : Moves s cpu next) : next.Orderly ∧ Pages.Moved s.pages next.pages := by
  have stays : Pages.Moved s.pages s.pages := ⟨orderly.accounted, fun _ => Iff.rfl⟩
  have begins {call : InsertCall} (none_ : call.found = none) (index entry : Nat)
      (found : call.found = some (index, entry)) : s.gptPages index = some entry := by
    rw [none_] at found
    cases found
  cases moves with
  | absent at_ => exact ⟨orderly.goTo at_ rfl rfl (begins rfl), stays⟩
  | present at_ there =>
      refine ⟨orderly.goTo at_ rfl rfl ?_, stays⟩
      intro index entry found
      cases found
      exact there
  | unmade at_ =>
      have idle : (s.goTo cpu .idle).Orderly := orderly.goTo at_ rfl rfl (begins rfl)
      exact ⟨idle.answer fun entry same => (by cases same), stays⟩
  | @made index page store at_ alloc =>
      have alive := PageStore.isSome_alloc orderly.accounted.sound alloc
      have gone : store.pageOf (some s.kmalloced) = none := by
        cases there : store.gptPages s.kmalloced with
        | none => simp [PageStore.pageOf, there]
        | some entry =>
            have old : (s.pages.store.gptPages s.kmalloced).isSome := by
              rw [← alive, there]
              rfl
            exact absurd (orderly.bound _ old) (Nat.lt_irrefl _)
      have has : (⟨some page, fun _ => false, 0⟩ : TreeEntry).page = some page := rfl
      have moved := Pages.Moved.make orderly.accounted alloc has gone
      refine ⟨orderly.make (by rw [at_]; rfl) (by rw [at_]; rfl) moved.accounted ?_ rfl, moved⟩
      intro entry
      rw [PageStore.isSome_putEntry, alive]
      split
      · rename_i same
        simp [same]
      · rename_i different
        simp [different]
  | @undone index entry at_ =>
      have moved := Pages.moved_freeEntry orderly.accounted entry
      have made : (s.calls cpu).made = some entry := by rw [at_]; rfl
      have dropped := orderly.drop made (by rw [at_]; rfl) moved.accounted
        (freeEntry_alive s.pages entry) (freeEntry_held s.pages entry)
      exact ⟨dropped.answer fun entry same => (by cases same), moved⟩
  | preloaded at_ => exact ⟨orderly.goTo at_ rfl rfl (begins rfl), stays⟩
  | @collided index entry at_ taken =>
      have free : s.gptPages index = none := by
        rw [Unraced, at_] at unraced
        exact unraced
      rw [free] at taken
      cases taken
  | @inserted index entry at_ free =>
      have made : (s.calls cpu).made = some entry := by rw [at_]; rfl
      have inserted := orderly.insert made (by rw [at_]; rfl) free
      refine ⟨inserted.answer fun other same => ?_, stays⟩
      cases same
      exact Function.update_self ..
  | pageless at_ =>
      refine ⟨orderly.goTo at_ rfl rfl fun index entry found => ?_, stays⟩
      exact orderly.found cpu index entry (by rw [at_]; exact found)
  | paged at_ =>
      refine ⟨orderly.goTo at_ rfl rfl fun index entry found => ?_, stays⟩
      exact orderly.found cpu index entry (by rw [at_]; exact found)
  | @taken index entry page store at_ alloc =>
      have moved := Pages.Moved.take orderly.accounted alloc
      have alive := PageStore.isSome_alloc orderly.accounted.sound alloc
      exact ⟨orderly.hold at_ moved.accounted alive rfl, moved⟩
  | @given index entry page at_ =>
      have gone : s.pages.store.pageOf (some entry) = none := by
        rw [Unraced, at_] at unraced
        exact unraced
      have holds : page ∈ s.pages.held := (orderly.held page).mpr ⟨cpu, by rw [at_]; rfl⟩
      have inTree := orderly.found cpu index entry (by rw [at_]; rfl)
      obtain ⟨value, there⟩ := Option.isSome_iff_exists.mp (orderly.exist index entry inTree)
      have moved : Pages.Moved s.pages { s.pages with
          store := s.pages.store.modifyEntry entry fun found => { found with page := some page }
          held := s.pages.held.erase page } := by
        rw [PageStore.modifyEntry_some there]
        have has : ({ value with page := some page } : TreeEntry).page = some page := rfl
        exact .give orderly.accounted holds has gone
      exact ⟨orderly.release at_ moved.accounted (PageStore.isSome_modifyEntry _) rfl, moved⟩
  | @counted index entry at_ =>
      have moved : Pages.Moved s.pages { s.pages with
          store := s.pages.store.modifyEntry entry TreeEntry.beginWrite } := by
        refine .of_same orderly.accounted rfl rfl ?_
        exact PageStore.pageOf_modifyEntry TreeEntry.beginWrite_page
      have written := orderly.setPages moved.accounted (PageStore.isSome_modifyEntry _) rfl
      have idle : ((s.setStore (s.pages.store.modifyEntry entry TreeEntry.beginWrite)).goTo cpu
        .idle).Orderly := written.goTo at_ rfl rfl (begins rfl)
      have inTree := orderly.found cpu index entry (by rw [at_]; rfl)
      refine ⟨idle.answer fun other same => ?_, moved⟩
      cases same
      exact inTree

/-- What a step keeps. -/
theorem Orderly.step {label : InsertLabel cpus} (orderly : s.Orderly) (unraced : s.Unraced label)
    (edge : s.step label = some next) : next.Orderly ∧ Pages.Moved s.pages next.pages := by
  obtain ⟨cpu, index, rfl, at_, rfl⟩ | ⟨cpu, env, rfl, moves⟩ := moves_of_step orderly.calm edge
  · refine ⟨orderly.goTo at_ rfl rfl fun index entry found => ?_, orderly.accounted,
      fun _ => Iff.rfl⟩
    cases found
  · exact orderly.moves unraced moves

omit [Inhabited Data] in
/-- The pages that can be reached are those with an owner. -/
theorem Orderly.referenced_iff (orderly : s.Orderly) (page : Nat) :
    s.Referenced page ↔ s.pages.Known page := by
  constructor
  · rintro (pooled | gone | ⟨_, entry, _, here⟩ | ⟨_, entry, _, here⟩ | held)
    · exact Or.inl (Or.inl pooled)
    · exact Or.inr (List.mem_append_right _ gone)
    · exact Or.inl (Or.inr ⟨entry, here⟩)
    · exact Or.inl (Or.inr ⟨entry, here⟩)
    · exact Or.inr (List.mem_append_left _ ((orderly.held page).mpr held))
  · rintro ((pooled | ⟨entry, here⟩) | listed)
    · exact Or.inl pooled
    · have alive : (s.pages.store.gptPages entry).isSome := by
        obtain ⟨value, there, -⟩ := PageStore.exists_of_pageOf here
        rw [there]
        rfl
      rcases orderly.entries entry alive with ⟨index, tree⟩ | ⟨cpu, makes⟩
      · exact Or.inr (Or.inr (Or.inl ⟨index, entry, tree, here⟩))
      · exact Or.inr (Or.inr (Or.inr (Or.inl ⟨cpu, entry, makes, here⟩)))
    · rcases List.mem_append.mp listed with held | gone
      · exact Or.inr (Or.inr (Or.inr (Or.inr ((orderly.held page).mp held))))
      · exact Or.inr (Or.inl gone)

/-- The state is orderly, and its pages are those of the start. -/
structure Kept (first s : Inserting cpus Data) : Prop where
  orderly : s.Orderly
  known : ∀ page, s.pages.Known page ↔ first.pages.Known page

variable {first : Inserting cpus Data}

omit [Inhabited Data] in
theorem Kept.safe (started : first.Orderly) (kept : Kept first s) : Safe first s where
  calm := kept.orderly.calm
  entries := kept.orderly.entries
  single := kept.orderly.single
  returned := kept.orderly.returned
  referenced := fun page known =>
    (kept.orderly.referenced_iff page).mpr
      ((kept.known page).mpr ((started.referenced_iff page).mp known))

omit [Inhabited Data] in
/-- The page that an entry had is lost when a call gives the entry another one. -/
theorem Orderly.lost {old : Nat} (orderly : s.Orderly) (at_ : s.calls cpu = .setPage index entry page)
    (here : s.pages.store.pageOf (some entry) = some old) :
    ¬ Referenced ((s.setPages { s.pages with
      store := s.pages.store.modifyEntry entry fun found => { found with page := some page }
      held := s.pages.held.erase page }).goTo cpu (.countRef index entry)) old := by
  have owned := orderly.accounted.owned
  have outside (listed : old ∈ s.pages.held ++ s.pages.system) : False :=
    (orderly.accounted.loose old listed).unheld entry here
  have holds : page ∈ s.pages.held := (orderly.held page).mpr ⟨cpu, by rw [at_]; rfl⟩
  obtain ⟨value, there, -⟩ := PageStore.exists_of_pageOf here
  have nowhere (other : Nat) : PageStore.pageOf (s.pages.store.modifyEntry entry fun found =>
      { found with page := some page }) (some other) ≠ some old := by
    rw [PageStore.modifyEntry_some there]
    intro still
    by_cases same : other = entry
    · subst same
      simp only [PageStore.pageOf, Option.bind_some, Function.update_self, Option.some.injEq] at still
      subst still
      exact outside (List.mem_append_left _ holds)
    · have before : s.pages.store.pageOf (some other) = some old := by
        simpa [PageStore.pageOf, same] using still
      exact same (owned.single other entry old before here)
  rintro (pooled | gone | ⟨_, other, _, still⟩ | ⟨_, other, _, still⟩ | ⟨other, held⟩)
  · exact owned.apart entry old here pooled
  · exact outside (List.mem_append_right _ gone)
  · exact nowhere other still
  · exact nowhere other still
  · rcases (has_goTo InsertCall.page).mp held with ⟨-, bad⟩ | ⟨-, before⟩
    · cases bad
    · exact outside (List.mem_append_left _ ((orderly.held old).mpr ⟨other, before⟩))

/-- A step that leaves everything safe was not raced. -/
theorem Kept.unraced {label : InsertLabel cpus} (started : first.Orderly) (kept : Kept first s)
    (edge : s.step label = some next) (safe : Safe first next) : s.Unraced label := by
  have orderly := kept.orderly
  obtain ⟨cpu, index, rfl, -, -⟩ | ⟨cpu, env, rfl, moves⟩ := moves_of_step orderly.calm edge
  · trivial
  · show s.StillSo (s.calls cpu)
    cases moves with
    | absent at_ | present at_ | unmade at_ | made at_ | undone at_ | preloaded at_ | pageless at_
    | paged at_ | taken at_ | counted at_ =>
        rw [at_]
        trivial
    | collided at_ => exact Bool.noConfusion safe.calm
    | inserted at_ free =>
        rw [at_]
        exact free
    | @given index entry page at_ =>
        rw [at_]
        show s.pages.store.pageOf (some entry) = none
        cases here : s.pages.store.pageOf (some entry) with
        | none => rfl
        | some old =>
            have known : s.pages.Known old := Or.inl (Or.inr ⟨entry, here⟩)
            have before := (started.referenced_iff old).mpr ((kept.known old).mp known)
            exact absurd (safe.referenced old before) (orderly.lost at_ here)

/-- Among all interleavings of insertions, those that are safe all along are those in which every
call inserts its entry while the index is still free, and gives a page to an entry that is still
without one. -/
theorem insertions_safe_iff {labels : List (InsertLabel cpus)} {last : Inserting cpus Data}
    (quiet : first.Quiet) (run : Run step always first labels last) :
    (∀ count (middle : Inserting cpus Data),
      exec step first (labels.take count) = some middle → Safe first middle) ↔
      Run step Unraced first labels last := by
  have start : Kept first first := ⟨quiet.orderly, fun _ => Iff.rfl⟩
  refine guarded_iff ?_ (fun kept => kept.safe quiet.orderly) ?_ start run
  · intro s next label kept unraced edge
    obtain ⟨after, moved⟩ := kept.orderly.step unraced edge
    exact ⟨after, fun page => (moved.known page).trans (kept.known page)⟩
  · exact fun kept edge safe => kept.unraced quiet.orderly edge safe

/-- The kernel allocators answer. -/
def answered : AllocEnv := ⟨true, true⟩

/-- Two CPUs insert different indices at the same time, and then one of them the other's index. -/
def apart : List (InsertLabel 2) :=
  [.call 0 7, .call 1 9, .run 0 answered, .run 1 answered, .run 1 answered, .run 0 answered,
    .run 0 answered, .run 1 answered, .run 0 answered, .run 1 answered, .call 0 9,
    .run 0 answered, .run 0 answered, .run 0 answered]

theorem insertions_safe_iff_apart : ∃ last : Inserting 2 Nat,
    exec step (init 2 2 8) apart = some last ∧ Safe (init 2 2 8) last := by
  have ran : (exec (guardedStep step Unraced) (init 2 2 8 : Inserting 2 Nat) apart).isSome =
      true := by
    decide +kernel
  obtain ⟨last, ends⟩ := Option.isSome_iff_exists.mp ran
  have guarded := run_of_guarded ends
  have run : Run step always (init 2 2 8) apart last := guarded.mono fun _ _ _ => trivial
  have safe := (insertions_safe_iff (quiet_init 2 2 8) run).mpr guarded
  exact ⟨last, run.exec_eq, safe apart.length last run.exec_eq⟩

/-- Two CPUs look the same index up before either of them has inserted it. -/
def collision : List (InsertLabel 2) :=
  [.call 0 7, .call 1 7, .run 0 answered, .run 1 answered, .run 0 answered, .run 1 answered,
    .run 0 answered, .run 1 answered, .run 0 answered, .run 1 answered]

/-- The second insertion panics. -/
theorem insertions_collide : ¬ ∀ (first : Inserting 2 Nat) (labels : List (InsertLabel 2))
    (last : Inserting 2 Nat), first.Quiet → Run step always first labels last →
      Safe first last := by
  intro claim
  have panics : (exec step (init 2 2 8 : Inserting 2 Nat) collision).map panicked = some true := by
    decide +kernel
  obtain ⟨last, ends, stopped⟩ := Option.map_eq_some_iff.mp panics
  have calm := (claim _ _ last (quiet_init 2 2 8) (run_of_exec ends)).calm
  rw [stopped] at calm
  cases calm

end Inserting

end Valet.Bd
