import Valet.Bd.AlfQueue
import Valet.Library.Channel
import Valet.Library.Halt
import Mathlib.Data.List.Range
import Mathlib.Algebra.Order.Ring.Int

/-!
# The page store

`gpt.c` keeps the locally held pages in a radix tree of entries and
`valet_mempool.c` hands out the pages for them: from a stack of free pages
while there are any, and from the entries on the reclaim list afterwards.  An
entry is never freed once it is in the tree, so its index stands for its
address; a page is a number, and `memory` holds what is stored in it.  `len` is
left out of an entry: every assignment to it here writes `VALET_PAGE_SIZE`.
-/

namespace Valet.Bd

open Valet.Library

/-- `enum entry_flags`. -/
inductive EntryFlag where
  | updating
  | reclaimable
  | reclaimed
  deriving DecidableEq

structure TreeEntry where
  page : Option Nat
  flags : EntryFlag → Bool
  refCount : Int

namespace TreeEntry

def testFlag (entry : TreeEntry) (flag : EntryFlag) : Bool := entry.flags flag

def setFlag (entry : TreeEntry) (flag : EntryFlag) : TreeEntry :=
  { entry with flags := Function.update entry.flags flag true }

def clearFlag (entry : TreeEntry) (flag : EntryFlag) : TreeEntry :=
  { entry with flags := Function.update entry.flags flag false }

/-- What `gpt_insert_page` does to an entry that it finds in the tree. -/
def beginWrite (entry : TreeEntry) : TreeEntry :=
  { entry with refCount := entry.refCount + 1 }.setFlag .updating

/-- The entry after reclaim has taken its page. -/
def emptied (entry : TreeEntry) : TreeEntry :=
  { entry.clearFlag .reclaimable with page := none }

/-- `atomic_dec`, and the clamp that `write_done_postwork` applies at zero. -/
def finishWrite (entry : TreeEntry) : TreeEntry :=
  let entry := { entry with refCount := entry.refCount - 1 }
  if entry.refCount ≤ 0 then
    { entry.clearFlag .updating with refCount := 0 }
  else
    entry

variable (entry : TreeEntry) (flag other : EntryFlag)

@[simp] theorem testFlag_mk (page : Option Nat) (flags : EntryFlag → Bool) (refCount : Int) :
    (TreeEntry.mk page flags refCount).testFlag flag = flags flag := rfl

@[simp] theorem setFlag_page : (entry.setFlag flag).page = entry.page := rfl

@[simp] theorem setFlag_refCount : (entry.setFlag flag).refCount = entry.refCount := rfl

@[simp] theorem clearFlag_page : (entry.clearFlag flag).page = entry.page := rfl

@[simp] theorem clearFlag_refCount : (entry.clearFlag flag).refCount = entry.refCount := rfl

@[simp] theorem testFlag_setFlag : (entry.setFlag flag).testFlag other =
    (decide (other = flag) || entry.testFlag other) := by
  by_cases same : other = flag <;> simp [testFlag, setFlag, same]

@[simp] theorem testFlag_clearFlag : (entry.clearFlag flag).testFlag other =
    (!decide (other = flag) && entry.testFlag other) := by
  by_cases same : other = flag <;> simp [testFlag, clearFlag, same]

@[simp] theorem emptied_page : entry.emptied.page = none := rfl

@[simp] theorem emptied_refCount : entry.emptied.refCount = entry.refCount := rfl

@[simp] theorem testFlag_emptied : entry.emptied.testFlag flag =
    (!decide (flag = .reclaimable) && entry.testFlag flag) := testFlag_clearFlag _ _ _

@[simp] theorem beginWrite_page : entry.beginWrite.page = entry.page := rfl

@[simp] theorem beginWrite_refCount : entry.beginWrite.refCount = entry.refCount + 1 := rfl

@[simp] theorem testFlag_beginWrite : entry.beginWrite.testFlag flag =
    (decide (flag = .updating) || entry.testFlag flag) := testFlag_setFlag _ _ _

@[simp] theorem finishWrite_page : entry.finishWrite.page = entry.page := by
  unfold finishWrite
  dsimp only
  split <;> rfl

/-- The count after a completion is never negative. -/
@[simp] theorem finishWrite_refCount : entry.finishWrite.refCount = max (entry.refCount - 1) 0 := by
  unfold finishWrite
  dsimp only
  split
  · rw [max_eq_right (by omega)]
  · rw [max_eq_left (by omega)]

/-- A completion that leaves nothing counted clears `UPDATING`. -/
@[simp] theorem testFlag_finishWrite : entry.finishWrite.testFlag flag =
    ((!decide (flag = .updating) || decide (1 < entry.refCount)) && entry.testFlag flag) := by
  unfold finishWrite
  dsimp only
  split
  · have few : ¬ 1 < entry.refCount := by omega
    rw [testFlag_mk]
    simp only [few, decide_false, Bool.or_false]
    exact testFlag_clearFlag _ _ _
  · have many : 1 < entry.refCount := by omega
    simp [many, testFlag]

end TreeEntry

/-- `valet_mempool_t`: the free pages, the top of the stack first. -/
structure Mempool where
  capNr : Nat
  usedNr : Int
  elements : List Nat

namespace Mempool

def currNr (pool : Mempool) : Nat := pool.elements.length

/-- A page beyond the capacity goes back to the kernel. -/
def valetAddElement (pool : Mempool) (element : Nat) : Mempool :=
  if pool.currNr ≥ pool.capNr then
    pool
  else
    { pool with elements := element :: pool.elements, usedNr := pool.usedNr - 1 }

def valetRemoveElement (pool : Mempool) : Option (Nat × Mempool) :=
  match pool.elements with
  | [] => none
  | element :: rest => some (element, { pool with elements := rest, usedNr := pool.usedNr + 1 })

/-- The stack after `count` calls of `alloc_page`. -/
def allocatedPages : Nat → List Nat
  | 0 => []
  | count + 1 => count :: allocatedPages count

def valetMempoolCreate (capNr : Nat) : Mempool := ⟨capNr, 0, allocatedPages capNr⟩

/-- A pool with some capacity is not empty after a page was handed back. -/
theorem valetAddElement_filled (pool : Mempool) (element : Nat) (cap : 0 < pool.capNr) :
    (pool.valetAddElement element).capNr = pool.capNr ∧
      (pool.valetAddElement element).elements ≠ [] := by
  unfold valetAddElement currNr
  split
  · rename_i full
    refine ⟨rfl, fun empty => ?_⟩
    rw [empty, List.length_nil] at full
    omega
  · exact ⟨rfl, List.cons_ne_nil _ _⟩

theorem length_allocatedPages (count : Nat) : (allocatedPages count).length = count := by
  induction count with
  | zero => rfl
  | succ count ih => rw [allocatedPages, List.length_cons, ih]

theorem mem_allocatedPages {count page : Nat} : page ∈ allocatedPages count ↔ page < count := by
  induction count with
  | zero => simp [allocatedPages]
  | succ count ih =>
      rw [allocatedPages, List.mem_cons, ih]
      omega

theorem nodup_allocatedPages (count : Nat) : (allocatedPages count).Nodup := by
  induction count with
  | zero => exact List.nodup_nil
  | succ count ih =>
      refine List.nodup_cons.mpr ⟨fun member => ?_, ih⟩
      exact Nat.lt_irrefl count (mem_allocatedPages.mp member)

end Mempool

/-- What the kernel allocators answer while an entry is inserted. -/
structure AllocEnv where
  kmallocOk : Bool
  preloadOk : Bool

structure PageStore (Data : Type) where
  pool : Mempool
  gptPages : Nat → Option TreeEntry
  reclaimList : AlfQueue Nat
  memory : Nat → Data

namespace PageStore

variable {Data : Type}

/-- A write through the pointer to an entry. -/
def modifyEntry (s : PageStore Data) (index : Nat) (change : TreeEntry → TreeEntry) :
    PageStore Data :=
  { s with gptPages := Function.update s.gptPages index ((s.gptPages index).map change) }

def getReclaimableIndex (s : PageStore Data) : Option (Option Nat × PageStore Data) :=
  if s.reclaimList.alfQueueEmpty then
    none
  else
    match s.reclaimList.alfMcDequeue with
    | none => none
    | some (ptr, queue) => some (ptr, { s with reclaimList := queue })

/-- `none` stands for the error return. -/
def putReclaimableIndex (s : PageStore Data) (index : Nat) : Option (PageStore Data) :=
  (s.reclaimList.alfMpEnqueue index).map fun queue => { s with reclaimList := queue }

def valetMempoolReclaim (s : PageStore Data) : Except Halt (Option Nat × PageStore Data) :=
  match s.getReclaimableIndex with
  | none => .ok (none, s)
  | some (ptr, s) =>
      match ptr with
      | none => .error .oops
      | some index =>
          match s.gptPages index with
          | none => .error .oops
          | some entry =>
              if entry.testFlag .updating then
                .ok (none, s)
              else
                let s := s.modifyEntry index fun entry => entry.clearFlag .reclaimable
                match entry.page with
                | none => .ok (none, s)
                | some element =>
                    .ok (some element, s.modifyEntry index fun entry => { entry with page := none })

/-- The attempts of `valet_mempool_alloc` from its label `repeat` on. -/
def reclaimRepeat : Nat → PageStore Data → Except Halt (Nat × PageStore Data)
  | 0, _ => .error .spin
  | attempts + 1, s => do
      let (element, s) ← s.valetMempoolReclaim
      match element with
      | some element => return (element, s)
      | none => reclaimRepeat attempts s

/-- Every attempt takes one element off the reclaim list, and an attempt on the empty list
changes nothing, so one attempt more than the list is long decides whether the loop ends. -/
def valetMempoolAlloc (s : PageStore Data) : Except Halt (Nat × PageStore Data) :=
  match s.pool.valetRemoveElement with
  | some (element, pool) => .ok (element, { s with pool := pool })
  | none => reclaimRepeat (s.reclaimList.alfQueueCount + 1) s

/-- The page that an entry pointer leads to; `none` when a pointer on the way is `NULL`. -/
def pageOf (s : PageStore Data) (entry : Option Nat) : Option Nat :=
  (entry.bind s.gptPages).bind TreeEntry.page

/-- The second loop of `write_to_brd`. -/
def copyPages : PageStore Data → List (Option Nat) → List Data → Except Halt (PageStore Data)
  | s, entry :: entries, buffer :: buffers =>
      match s.pageOf entry with
      | none => .error .oops
      | some page =>
          copyPages { s with memory := Function.update s.memory page buffer } entries buffers
  | s, _, _ => .ok s

/-- The part of the loop of `write_done_postwork` that works on one entry.  A full reclaim
list is only reported. -/
def writeDoneEntry (s : PageStore Data) (index : Nat) : Except Halt (PageStore Data) :=
  match s.gptPages index with
  | none => .error .oops
  | some entry =>
      let entry := entry.finishWrite
      if entry.testFlag .reclaimable then
        .ok (s.modifyEntry index fun _ => entry)
      else
        let s := s.modifyEntry index fun _ => entry.setFlag .reclaimable
        match s.putReclaimableIndex index with
        | none => .ok s
        | some s => .ok s

def writeDoneEntries : PageStore Data → List Nat → Except Halt (PageStore Data)
  | s, [] => .ok s
  | s, index :: rest => do
      let s ← s.writeDoneEntry index
      writeDoneEntries s rest

/-- `clear_highpage` comes before the page is handed back. -/
def valetMempoolFree [Inhabited Data] (s : PageStore Data) (element : Nat) : PageStore Data :=
  { s with
    memory := Function.update s.memory element default
    pool := s.pool.valetAddElement element }

/-- `None` stands for `NULL`. -/
def gptAllocEntry (env : AllocEnv) (s : PageStore Data) :
    Except Halt (Option TreeEntry × PageStore Data) :=
  if !env.kmallocOk then
    .ok (none, s)
  else do
    let (element, s) ← s.valetMempoolAlloc
    return (some { page := some element, flags := fun _ => false, refCount := 0 }, s)

def gptInsertPage [Inhabited Data] (env : AllocEnv) (s : PageStore Data) (index : Nat) :
    Except Halt (Option Nat × PageStore Data) :=
  match s.gptPages index with
  | none => do
      let (allocated, s) ← s.gptAllocEntry env
      match allocated with
      | none => return (none, s)
      | some entry =>
          if !env.preloadOk then
            match entry.page with
            | none => return (none, s)
            | some element => return (none, s.valetMempoolFree element)
          else if (s.gptPages index).isSome then
            .error .panic
          else
            return (some index, { s with
              gptPages := Function.update s.gptPages index (some { entry with refCount := 0 }) })
  | some entry =>
      match entry.page with
      | some _ => .ok (some index, s.modifyEntry index TreeEntry.beginWrite)
      | none => do
          let (element, s) ← s.valetMempoolAlloc
          let s := s.modifyEntry index fun entry => { entry with page := some element }
          return (some index, s.modifyEntry index TreeEntry.beginWrite)

/-- The first loop of `write_to_brd`. -/
def insertPages [Inhabited Data] (env : Nat → AllocEnv) :
    PageStore Data → List Nat → Except Halt (List (Option Nat) × PageStore Data)
  | s, [] => .ok ([], s)
  | s, index :: rest => do
      let (entry, s) ← s.gptInsertPage (env index) index
      let (entries, s) ← insertPages env s rest
      return (entry :: entries, s)

/-! ## What each call does -/

@[simp] theorem modifyEntry_pool (s : PageStore Data) (index : Nat)
    (change : TreeEntry → TreeEntry) : (s.modifyEntry index change).pool = s.pool := rfl

@[simp] theorem modifyEntry_reclaimList (s : PageStore Data) (index : Nat)
    (change : TreeEntry → TreeEntry) :
    (s.modifyEntry index change).reclaimList = s.reclaimList := rfl

@[simp] theorem modifyEntry_memory (s : PageStore Data) (index : Nat)
    (change : TreeEntry → TreeEntry) : (s.modifyEntry index change).memory = s.memory := rfl

theorem modifyEntry_some {s : PageStore Data} {index : Nat} {entry : TreeEntry}
    (found : s.gptPages index = some entry) (change : TreeEntry → TreeEntry) :
    s.modifyEntry index change =
      { s with gptPages := Function.update s.gptPages index (some (change entry)) } := by
  simp [modifyEntry, found]

/-- `next` is `queue` without its oldest element `head`. -/
structure Popped (queue : AlfQueue Nat) (head : Nat) (next : AlfQueue Nat) : Prop where
  sound : next.Sound
  mask : next.mask = queue.mask
  size : next.size = queue.size
  contents : queue.contents = head :: next.contents

/-- The outcomes of a reclaim attempt. -/
inductive Reclaims (s : PageStore Data) : Option Nat → PageStore Data → Prop where
  | nothing (empty : s.reclaimList.contents = []) : Reclaims s none s
  | skipped {index : Nat} {entry : TreeEntry} {queue : AlfQueue Nat}
      (popped : Popped s.reclaimList index queue) (found : s.gptPages index = some entry)
      (busy : entry.testFlag .updating = true) :
      Reclaims s none { s with reclaimList := queue }
  | taken {index : Nat} {entry : TreeEntry} {queue : AlfQueue Nat}
      (popped : Popped s.reclaimList index queue) (found : s.gptPages index = some entry)
      (idle : entry.testFlag .updating = false) :
      Reclaims s entry.page { s with
        reclaimList := queue
        gptPages := Function.update s.gptPages index
          (some entry.emptied) }

theorem getReclaimableIndex_cases {s : PageStore Data} (sound : s.reclaimList.Sound) :
    (s.getReclaimableIndex = none ∧ s.reclaimList.contents = []) ∨
      ∃ index queue, s.getReclaimableIndex = some (some index, { s with reclaimList := queue }) ∧
        Popped s.reclaimList index queue := by
  unfold getReclaimableIndex
  by_cases empty : s.reclaimList.alfQueueEmpty = true
  · exact Or.inl ⟨if_pos empty, sound.alfQueueEmpty_iff.mp empty⟩
  · rw [if_neg empty]
    cases got : s.reclaimList.alfMcDequeue with
    | none => exact absurd (sound.alfQueueEmpty_iff.mpr (sound.dequeue_none.mp got)) empty
    | some result =>
        obtain ⟨ptr, queue⟩ := result
        obtain ⟨soundNext, mask, size, index, rfl, contents⟩ := sound.dequeue got
        exact Or.inr ⟨index, queue, rfl, soundNext, mask, size, contents⟩

theorem reclaims_of_ok {s next : PageStore Data} {element : Option Nat}
    (sound : s.reclaimList.Sound) (ran : s.valetMempoolReclaim = .ok (element, next)) :
    Reclaims s element next := by
  unfold valetMempoolReclaim at ran
  rcases getReclaimableIndex_cases sound with ⟨got, empty⟩ | ⟨index, queue, got, popped⟩
  · rw [got] at ran
    cases ran
    exact .nothing empty
  · rw [got] at ran
    dsimp only at ran
    cases found : s.gptPages index with
    | none =>
        rw [found] at ran
        cases ran
    | some entry =>
        rw [found] at ran
        dsimp only at ran
        cases busy : entry.testFlag .updating with
        | true =>
            rw [busy] at ran
            cases ran
            exact .skipped popped found busy
        | false =>
            rw [busy] at ran
            have change := Reclaims.taken popped found busy
            cases page : entry.page with
            | none =>
                rw [page] at ran change
                cases ran
                have cleared : entry.emptied = entry.clearFlag .reclaimable := by
                  rw [TreeEntry.emptied, ← page]
                  rfl
                rw [cleared] at change
                have same := modifyEntry_some (s := { s with reclaimList := queue }) found
                rw [same]
                exact change
            | some element =>
                rw [page] at ran change
                cases ran
                have same := modifyEntry_some (s := { s with reclaimList := queue }) found
                rw [same, modifyEntry_some (Function.update_self ..), Function.update_idem]
                exact change

/-- The attempts before the one that yields a page preserve what a vain attempt preserves. -/
theorem reclaimRepeat_spec {Inv : PageStore Data → Prop}
    (keep : ∀ {s next : PageStore Data}, Inv s → s.valetMempoolReclaim = .ok (none, next) →
      Inv next)
    {attempts element : Nat} {s next : PageStore Data} (holds : Inv s)
    (ran : reclaimRepeat attempts s = .ok (element, next)) :
    ∃ last, Inv last ∧ last.valetMempoolReclaim = .ok (some element, next) := by
  induction attempts generalizing s with
  | zero => cases ran
  | succ attempts ih =>
      obtain ⟨⟨result, middle⟩, attempt, rest⟩ := bind_eq_ok.mp ran
      cases result with
      | none => exact ih (keep holds attempt) rest
      | some found =>
          cases rest
          exact ⟨s, holds, attempt⟩

/-- What reclaiming does to an entry that may be on the reclaim list. -/
inductive EntryKept (queued : Prop) : Option TreeEntry → Option TreeEntry → Prop where
  | absent : EntryKept queued none none
  | same (entry : TreeEntry) : EntryKept queued (some entry) (some entry)
  | emptied {entry : TreeEntry} (idle : entry.testFlag .updating = false) (listed : queued) :
      EntryKept queued (some entry) (some entry.emptied)

theorem EntryKept.refl (queued : Prop) (entry : Option TreeEntry) :
    EntryKept queued entry entry := by
  cases entry with
  | none => exact .absent
  | some entry => exact .same entry

theorem EntryKept.eq_none {queued : Prop} {entry : Option TreeEntry}
    (kept : EntryKept queued none entry) : entry = none := by
  cases kept
  rfl

theorem EntryKept.eq_some {queued : Prop} {entry : TreeEntry} {later : Option TreeEntry}
    (kept : EntryKept queued (some entry) later) : ∃ still, later = some still := by
  cases kept <;> exact ⟨_, rfl⟩

theorem EntryKept.of_some {queued : Prop} {entry : Option TreeEntry} {still : TreeEntry}
    (kept : EntryKept queued entry (some still)) : ∃ before, entry = some before := by
  cases kept <;> exact ⟨_, rfl⟩

theorem EntryKept.refCount {queued : Prop} {entry later : TreeEntry}
    (kept : EntryKept queued (some entry) (some later)) : later.refCount = entry.refCount := by
  cases kept <;> rfl

theorem EntryKept.trans {queued later : Prop} {first second third : Option TreeEntry}
    (start : EntryKept queued first second) (finish : EntryKept later second third)
    (sooner : later → queued) : EntryKept queued first third := by
  cases start with
  | absent =>
      cases finish
      exact .absent
  | same entry =>
      cases finish with
      | same => exact .same entry
      | emptied idle listed => exact .emptied idle (sooner listed)
  | @emptied entry idle listed =>
      cases finish with
      | same => exact .emptied idle listed
      | emptied again =>
          have twice : entry.emptied.emptied = entry.emptied := by
            simp [TreeEntry.emptied, TreeEntry.clearFlag]
          rw [twice]
          exact .emptied idle listed

/-- What any number of reclaim attempts do. -/
structure Drains (s next : PageStore Data) : Prop where
  memory : next.memory = s.memory
  sound : s.reclaimList.Sound → next.reclaimList.Sound
  mask : next.reclaimList.mask = s.reclaimList.mask
  size : next.reclaimList.size = s.reclaimList.size
  contents : ∃ gone, s.reclaimList.contents = gone ++ next.reclaimList.contents
  entries : ∀ index,
    EntryKept (index ∈ s.reclaimList.contents) (s.gptPages index) (next.gptPages index)

namespace Drains

variable {s middle next : PageStore Data}

theorem refl (s : PageStore Data) : Drains s s :=
  ⟨rfl, id, rfl, rfl, ⟨[], (List.nil_append _).symm⟩, fun _ => .refl _ _⟩

theorem mem (drains : Drains s next) {index : Nat}
    (member : index ∈ next.reclaimList.contents) : index ∈ s.reclaimList.contents := by
  obtain ⟨gone, contents⟩ := drains.contents
  rw [contents]
  exact List.mem_append_right _ member

theorem trans (start : Drains s middle) (finish : Drains middle next) : Drains s next where
  memory := finish.memory.trans start.memory
  sound := fun sound => finish.sound (start.sound sound)
  mask := finish.mask.trans start.mask
  size := finish.size.trans start.size
  contents := by
    obtain ⟨gone, first⟩ := start.contents
    obtain ⟨more, second⟩ := finish.contents
    exact ⟨gone ++ more, by rw [first, second, List.append_assoc]⟩
  entries := fun index => (start.entries index).trans (finish.entries index) start.mem

theorem of_pool (s : PageStore Data) (pool : Mempool) : Drains s { s with pool := pool } :=
  ⟨rfl, id, rfl, rfl, ⟨[], (List.nil_append _).symm⟩, fun _ => .refl _ _⟩

variable {index : Nat} {entry still : TreeEntry}

/-- An entry is still there. -/
theorem later (drains : Drains s next) (found : s.gptPages index = some entry) :
    ∃ still, next.gptPages index = some still ∧
      EntryKept (index ∈ s.reclaimList.contents) (some entry) (some still) := by
  have kept := drains.entries index
  rw [found] at kept
  obtain ⟨still, there⟩ := kept.eq_some
  rw [there] at kept
  exact ⟨still, there, kept⟩

/-- An entry was there before. -/
theorem before (drains : Drains s next) (there : next.gptPages index = some still) :
    ∃ entry, s.gptPages index = some entry ∧
      EntryKept (index ∈ s.reclaimList.contents) (some entry) (some still) := by
  have kept := drains.entries index
  rw [there] at kept
  obtain ⟨entry, found⟩ := kept.of_some
  rw [found] at kept
  exact ⟨entry, found, kept⟩

theorem absent (drains : Drains s next) : next.gptPages index = none ↔
    s.gptPages index = none := by
  constructor
  · intro gone
    by_contra there
    obtain ⟨entry, found⟩ := Option.ne_none_iff_exists'.mp there
    obtain ⟨still, later, -⟩ := drains.later found
    rw [gone] at later
    cases later
  · intro gone
    have kept := drains.entries index
    rw [gone] at kept
    exact kept.eq_none

end Drains

theorem Reclaims.drains {s next : PageStore Data} {element : Option Nat}
    (reclaims : Reclaims s element next) : Drains s next := by
  cases reclaims with
  | nothing => exact .refl s
  | @skipped index entry queue popped found busy =>
      exact ⟨rfl, fun _ => popped.sound, popped.mask, popped.size, ⟨[index], popped.contents⟩,
        fun _ => .refl _ _⟩
  | @taken index entry queue popped found idle =>
      refine ⟨rfl, fun _ => popped.sound, popped.mask, popped.size, ⟨[index], popped.contents⟩, ?_⟩
      intro other
      by_cases same : other = index
      · subst same
        dsimp only
        rw [Function.update_self, found]
        apply EntryKept.emptied idle
        rw [popped.contents]
        exact List.mem_cons_self
      · dsimp only
        rw [Function.update_of_ne same]
        exact .refl _ _

theorem Reclaims.pool_eq {s next : PageStore Data} {element : Option Nat}
    (reclaims : Reclaims s element next) : next.pool = s.pool := by
  cases reclaims <;> rfl

/-- The outcomes of an allocation that ends. -/
inductive Allocates (s : PageStore Data) (page : Nat) : PageStore Data → Prop where
  | pooled {pool : Mempool} (top : s.pool.elements = page :: pool.elements)
      (cap : pool.capNr = s.pool.capNr) : Allocates s page { s with pool := pool }
  | reclaimed {last next : PageStore Data} (exhausted : s.pool.elements = [])
      (drains : Drains s last) (pool : last.pool = s.pool)
      (reclaims : Reclaims last (some page) next) : Allocates s page next

theorem allocates_of_ok {s next : PageStore Data} {page : Nat} (sound : s.reclaimList.Sound)
    (ran : s.valetMempoolAlloc = .ok (page, next)) : Allocates s page next := by
  unfold valetMempoolAlloc Mempool.valetRemoveElement at ran
  cases elements : s.pool.elements with
  | cons element rest =>
      rw [elements] at ran
      cases ran
      exact .pooled elements rfl
  | nil =>
      rw [elements] at ran
      have keep {mid later : PageStore Data}
          (holds : mid.reclaimList.Sound ∧ Drains s mid ∧ mid.pool = s.pool)
          (attempt : mid.valetMempoolReclaim = .ok (none, later)) :
          later.reclaimList.Sound ∧ Drains s later ∧ later.pool = s.pool := by
        have reclaims := reclaims_of_ok holds.1 attempt
        exact ⟨reclaims.drains.sound holds.1, holds.2.1.trans reclaims.drains,
          reclaims.pool_eq.trans holds.2.2⟩
      obtain ⟨last, holds, attempt⟩ := reclaimRepeat_spec keep ⟨sound, .refl s, rfl⟩ ran
      exact .reclaimed elements holds.2.1 holds.2.2 (reclaims_of_ok holds.1 attempt)

theorem Allocates.drains {s next : PageStore Data} {page : Nat}
    (allocates : Allocates s page next) : Drains s next := by
  cases allocates with
  | pooled => exact .of_pool s _
  | reclaimed _ drains _ reclaims => exact drains.trans reclaims.drains

theorem Allocates.cap {s next : PageStore Data} {page : Nat}
    (allocates : Allocates s page next) : next.pool.capNr = s.pool.capNr := by
  cases allocates with
  | pooled top cap => exact cap
  | reclaimed exhausted drains pool reclaims => rw [reclaims.pool_eq, pool]

/-- The outcomes of `gpt_insert_page` when it returns an entry. -/
inductive Inserts (s : PageStore Data) (index : Nat) : PageStore Data → Prop where
  | fresh {page : Nat} {middle : PageStore Data} (absent : s.gptPages index = none)
      (alloc : s.valetMempoolAlloc = .ok (page, middle)) :
      Inserts s index { middle with
        gptPages := Function.update middle.gptPages index (some ⟨some page, fun _ => false, 0⟩) }
  | held {entry : TreeEntry} {page : Nat} (found : s.gptPages index = some entry)
      (here : entry.page = some page) :
      Inserts s index { s with
        gptPages := Function.update s.gptPages index
          (some entry.beginWrite) }
  | refilled {entry later : TreeEntry} {page : Nat} {middle : PageStore Data}
      (found : s.gptPages index = some entry) (gone : entry.page = none)
      (alloc : s.valetMempoolAlloc = .ok (page, middle))
      (still : middle.gptPages index = some later) :
      Inserts s index { middle with
        gptPages := Function.update middle.gptPages index
          (some (TreeEntry.beginWrite { later with page := some page })) }

theorem inserts_of_ok [Inhabited Data] {env : AllocEnv} {s next : PageStore Data} {index ptr : Nat}
    (sound : s.reclaimList.Sound) (ran : gptInsertPage env s index = .ok (some ptr, next)) :
    ptr = index ∧ Inserts s index next := by
  unfold gptInsertPage at ran
  cases found : s.gptPages index with
  | none =>
      rw [found] at ran
      obtain ⟨⟨allocated, middle⟩, alloc, rest⟩ := bind_eq_ok.mp ran
      unfold gptAllocEntry at alloc
      cases kmalloc : env.kmallocOk with
      | false =>
          rw [kmalloc] at alloc
          cases alloc
          cases rest
      | true =>
          rw [kmalloc] at alloc
          obtain ⟨⟨page, middle⟩, took, pair⟩ := bind_eq_ok.mp alloc
          cases pair
          have allocates := allocates_of_ok sound took
          have still : middle.gptPages index = none := allocates.drains.absent.mpr found
          cases preload : env.preloadOk with
          | false =>
              rw [preload] at rest
              cases rest
          | true =>
              simp only [preload, still, Bool.not_true, Bool.false_eq_true, if_false,
                Option.isSome_none] at rest
              cases rest
              exact ⟨rfl, .fresh found took⟩
  | some entry =>
      rw [found] at ran
      cases here : entry.page with
      | some page =>
          simp only [here] at ran
          cases ran
          rw [modifyEntry_some found]
          exact ⟨rfl, .held found here⟩
      | none =>
          simp only [here] at ran
          obtain ⟨⟨page, taken⟩, alloc, rest⟩ := bind_eq_ok.mp ran
          cases rest
          have allocates := allocates_of_ok sound alloc
          obtain ⟨later, still, -⟩ := allocates.drains.later found
          rw [modifyEntry_some still, modifyEntry_some (Function.update_self ..)]
          dsimp only
          rw [Function.update_idem]
          exact ⟨rfl, .refilled found here alloc still⟩

theorem Inserts.sound {s next : PageStore Data} {index : Nat} (sound : s.reclaimList.Sound)
    (inserts : Inserts s index next) : next.reclaimList.Sound := by
  cases inserts with
  | fresh absent alloc => exact (allocates_of_ok sound alloc).drains.sound sound
  | held found here => exact sound
  | refilled found gone alloc still => exact (allocates_of_ok sound alloc).drains.sound sound

/-- Inserting an entry does to the others what an allocation does. -/
theorem Inserts.others {s next : PageStore Data} {index other : Nat}
    (sound : s.reclaimList.Sound) (inserts : Inserts s index next) (different : other ≠ index) :
    EntryKept (other ∈ s.reclaimList.contents) (s.gptPages other) (next.gptPages other) := by
  cases inserts with
  | fresh absent alloc =>
      simp only [Function.update_of_ne different]
      exact (allocates_of_ok sound alloc).drains.entries other
  | held found here =>
      simp only [Function.update_of_ne different]
      exact .refl _ _
  | refilled found gone alloc still =>
      simp only [Function.update_of_ne different]
      exact (allocates_of_ok sound alloc).drains.entries other

/-- A loop of `gpt_insert_page` calls that all return an entry. -/
inductive InsertsAll : PageStore Data → List Nat → PageStore Data → Prop where
  | nil (s : PageStore Data) : InsertsAll s [] s
  | cons {s middle next : PageStore Data} {index : Nat} {rest : List Nat}
      (inserts : Inserts s index middle) (tail : InsertsAll middle rest next) :
      InsertsAll s (index :: rest) next

theorem insertsAll_of_ok [Inhabited Data] {env : Nat → AllocEnv} {s next : PageStore Data}
    {indices : List Nat} {entries : List (Option Nat)} (sound : s.reclaimList.Sound)
    (ran : insertPages env s indices = .ok (entries, next)) (entered : none ∉ entries) :
    entries = indices.map some ∧ InsertsAll s indices next := by
  induction indices generalizing s entries with
  | nil =>
      cases ran
      exact ⟨rfl, .nil _⟩
  | cons index rest ih =>
      obtain ⟨⟨entry, middle⟩, first, more⟩ := bind_eq_ok.mp ran
      obtain ⟨⟨others, last⟩, tail, pair⟩ := bind_eq_ok.mp more
      cases pair
      cases entry with
      | none => exact absurd List.mem_cons_self entered
      | some ptr =>
          obtain ⟨rfl, inserts⟩ := inserts_of_ok sound first
          obtain ⟨rfl, all⟩ := ih (inserts.sound sound) tail
            fun member => entered (List.mem_cons_of_mem _ member)
          exact ⟨rfl, .cons inserts all⟩

theorem insertsAll_of_some [Inhabited Data] {env : Nat → AllocEnv} {s next : PageStore Data}
    {indices : List Nat} (sound : s.reclaimList.Sound)
    (ran : insertPages env s indices = .ok (indices.map some, next)) : InsertsAll s indices next :=
  (insertsAll_of_ok sound ran (by simp)).2

/-- The copy loop stores the buffers in the pages that the entries lead to. -/
theorem copyPages_ok {s next : PageStore Data} {entries : List (Option Nat)}
    {buffers : List Data} (lengths : entries.length = buffers.length)
    (ran : copyPages s entries buffers = .ok next) :
    ∃ pages : List Nat, entries.map s.pageOf = pages.map some ∧
      next = { s with memory := store s.memory (pages.zip buffers) } := by
  induction entries generalizing s buffers with
  | nil =>
      cases buffers with
      | nil =>
          cases ran
          exact ⟨[], rfl, rfl⟩
      | cons buffer buffers => cases lengths
  | cons entry entries ih =>
      cases buffers with
      | nil => cases lengths
      | cons buffer buffers =>
          unfold copyPages at ran
          cases page : s.pageOf entry with
          | none => simp only [page] at ran; cases ran
          | some first =>
              simp only [page] at ran
              obtain ⟨pages, located, rfl⟩ := ih (Nat.succ.inj lengths) ran
              refine ⟨first :: pages, ?_, rfl⟩
              rw [List.map_cons, List.map_cons, page, ← located]
              rfl

/-- The outcomes of a completion for one entry. -/
inductive FinishesEntry (s : PageStore Data) (index : Nat) : PageStore Data → Prop where
  | listed {entry : TreeEntry} (found : s.gptPages index = some entry)
      (flagged : entry.testFlag .reclaimable = true) :
      FinishesEntry s index { s with
        gptPages := Function.update s.gptPages index (some entry.finishWrite) }
  | queued {entry : TreeEntry} {queue : AlfQueue Nat} (found : s.gptPages index = some entry)
      (fresh : entry.testFlag .reclaimable = false)
      (put : s.reclaimList.alfMpEnqueue index = some queue) :
      FinishesEntry s index { s with
        reclaimList := queue
        gptPages := Function.update s.gptPages index
          (some (entry.finishWrite.setFlag .reclaimable)) }
  | full {entry : TreeEntry} (found : s.gptPages index = some entry)
      (fresh : entry.testFlag .reclaimable = false)
      (put : s.reclaimList.alfMpEnqueue index = none) :
      FinishesEntry s index { s with
        gptPages := Function.update s.gptPages index
          (some (entry.finishWrite.setFlag .reclaimable)) }

theorem putReclaimableIndex_eq {s : PageStore Data} {index : Nat} {queue : AlfQueue Nat}
    {answer : Option (AlfQueue Nat)} (list : s.reclaimList = queue)
    (put : queue.alfMpEnqueue index = answer) :
    s.putReclaimableIndex index = answer.map fun queue => { s with reclaimList := queue } := by
  rw [putReclaimableIndex, list, put]

theorem finishesEntry_of_ok {s next : PageStore Data} {index : Nat}
    (ran : s.writeDoneEntry index = .ok next) : FinishesEntry s index next := by
  unfold writeDoneEntry at ran
  cases found : s.gptPages index with
  | none =>
      rw [found] at ran
      cases ran
  | some entry =>
      have kept : entry.finishWrite.testFlag .reclaimable = entry.testFlag .reclaimable := by simp
      rw [found] at ran
      dsimp only at ran
      rw [kept] at ran
      cases flagged : entry.testFlag .reclaimable with
      | true =>
          rw [if_pos flagged, modifyEntry_some found] at ran
          cases ran
          exact .listed found flagged
      | false =>
          rw [if_neg (by simp [flagged]), modifyEntry_some found] at ran
          cases put : s.reclaimList.alfMpEnqueue index with
          | none =>
              rw [putReclaimableIndex_eq (by rfl) put] at ran
              cases ran
              exact .full found flagged put
          | some queue =>
              rw [putReclaimableIndex_eq (by rfl) put] at ran
              cases ran
              exact .queued found flagged put

theorem insertPages_length [Inhabited Data] {env : Nat → AllocEnv} {s next : PageStore Data}
    {indices : List Nat} {entries : List (Option Nat)}
    (ran : insertPages env s indices = .ok (entries, next)) : entries.length = indices.length := by
  induction indices generalizing s entries with
  | nil =>
      cases ran
      rfl
  | cons index rest ih =>
      obtain ⟨⟨entry, middle⟩, first, more⟩ := bind_eq_ok.mp ran
      obtain ⟨⟨others, last⟩, tail, pair⟩ := bind_eq_ok.mp more
      cases pair
      rw [List.length_cons, List.length_cons, ih tail]

/-- The completions of all entries of an item. -/
inductive FinishesAll : PageStore Data → List Nat → PageStore Data → Prop where
  | nil (s : PageStore Data) : FinishesAll s [] s
  | cons {s middle next : PageStore Data} {index : Nat} {rest : List Nat}
      (finishes : FinishesEntry s index middle) (tail : FinishesAll middle rest next) :
      FinishesAll s (index :: rest) next

theorem finishesAll_of_ok {s next : PageStore Data} {indices : List Nat}
    (ran : s.writeDoneEntries indices = .ok next) : FinishesAll s indices next := by
  induction indices generalizing s with
  | nil =>
      cases ran
      exact .nil _
  | cons index rest ih =>
      obtain ⟨middle, first, more⟩ := bind_eq_ok.mp ran
      exact .cons (finishesEntry_of_ok first) (ih more)

theorem FinishesEntry.present {s next : PageStore Data} {index : Nat}
    (finishes : FinishesEntry s index next) {other : Nat}
    (there : (s.gptPages other).isSome) : (next.gptPages other).isSome := by
  rcases eq_or_ne other index with rfl | different
  · cases finishes <;> simp
  · cases finishes <;> simpa [different] using there

/-- A completion of entries that are in the tree goes through. -/
theorem writeDoneEntry_ok {s : PageStore Data} {index : Nat}
    (there : (s.gptPages index).isSome) : ∃ next, s.writeDoneEntry index = .ok next := by
  obtain ⟨entry, found⟩ := Option.isSome_iff_exists.mp there
  unfold writeDoneEntry
  rw [found]
  dsimp only
  split
  · exact ⟨_, rfl⟩
  · split
    · exact ⟨_, rfl⟩
    · exact ⟨_, rfl⟩

theorem writeDoneEntries_ok {s : PageStore Data} {indices : List Nat}
    (there : ∀ index ∈ indices, (s.gptPages index).isSome) :
    ∃ next, s.writeDoneEntries indices = .ok next := by
  induction indices generalizing s with
  | nil => exact ⟨s, rfl⟩
  | cons index rest ih =>
      obtain ⟨middle, first⟩ := writeDoneEntry_ok (there index List.mem_cons_self)
      have finishes := finishesEntry_of_ok first
      obtain ⟨next, more⟩ := ih fun other member =>
        finishes.present (there other (List.mem_cons_of_mem _ member))
      exact ⟨next, bind_eq_ok.mpr ⟨middle, first, more⟩⟩

theorem FinishesAll.present {s next : PageStore Data} {indices : List Nat}
    (all : FinishesAll s indices next) {other : Nat} (there : (s.gptPages other).isSome) :
    (next.gptPages other).isSome := by
  induction all with
  | nil => exact there
  | cons finishes tail ih => exact ih (finishes.present there)

/-- Completions leave every page where it is. -/
theorem FinishesEntry.pageOf {s next : PageStore Data} {index : Nat}
    (finishes : FinishesEntry s index next) (other : Nat) :
    next.pageOf (some other) = s.pageOf (some other) := by
  by_cases same : other = index
  · subst same
    cases finishes with
    | listed found flagged => simp [PageStore.pageOf, found]
    | queued found fresh put => simp [PageStore.pageOf, found]
    | full found fresh put => simp [PageStore.pageOf, found]
  · cases finishes <;> simp [PageStore.pageOf, same]

theorem FinishesAll.pageOf {s next : PageStore Data} {indices : List Nat}
    (all : FinishesAll s indices next) (other : Nat) :
    next.pageOf (some other) = s.pageOf (some other) := by
  induction all with
  | nil => rfl
  | cons finishes tail ih => rw [ih, finishes.pageOf]

theorem FinishesAll.pool_eq {s next : PageStore Data} {indices : List Nat}
    (all : FinishesAll s indices next) : next.pool = s.pool := by
  induction all with
  | nil => rfl
  | cons finishes tail ih =>
      rw [ih]
      cases finishes <;> rfl

end PageStore

end Valet.Bd
