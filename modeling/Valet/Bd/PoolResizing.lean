import Valet.Bd.PageOwners

/-!
# Resizing the page pool

`mempool_thread_fn` shrinks the pool when little memory is free and expands it
when much is free and many pages are in use.  `valet_mempool_expand` allocates
the array for the capacity that the thread has cut down to the maximum, and
then stores up to `RESIZING_UNIT_IN_PAGES` pages, whatever that capacity is.
The array has room for them as long as the free pages and the new ones together
fit into the new capacity.
-/

namespace Valet.Bd

open Valet.Library

def defaultMempoolShrinkPerc : Nat := 15

def defaultMempoolExpandPerc : Nat := 30

/-- The answers of the kernel in a round: the free memory, and whether `vmalloc` and each
`alloc_page` of the loop succeed. -/
structure ResizeEnv where
  freeram : Nat
  vmallocOk : Bool
  allocPageOk : Nat → Bool

/-- `valet_mempool_t` with the rest of the page store.  `room` is the number of pointers that
`elements` was allocated for, and `made` counts the pages that `alloc_page` has yielded; a page
that the system hands out again counts as a new one. -/
structure ResizingPool (Data : Type) where
  pages : Pages Data
  made : Nat
  room : Nat
  threshold : Int
  maxPoolPages : Nat
  thresholdPageShrink : Nat
  thresholdPageExpand : Nat

/-- The calls, and the rounds of the thread, one at a time. -/
inductive ResizeOp where
  | call (op : PageOp)
  | expand (newCapNr : Int) (env : ResizeEnv)
  | round (env : ResizeEnv)

namespace ResizingPool

variable {Data : Type}

def pool (s : ResizingPool Data) : Mempool := s.pages.store.pool

def setPool (s : ResizingPool Data) (pool : Mempool) : ResizingPool Data :=
  { s with pages := { s.pages with store := { s.pages.store with pool := pool } } }

/-- The turn of the loop of `valet_mempool_expand` in which `alloc_page` succeeds. -/
def storePage (s : ResizingPool Data) : ResizingPool Data :=
  { s.setPool { s.pool with elements := s.made :: s.pool.elements } with made := s.made + 1 }

/-- The loop of `valet_mempool_expand`. -/
def grow (allocPageOk : Nat → Bool) : Nat → ResizingPool Data → ResizingPool Data
  | 0, s => s
  | turns + 1, s =>
      let s := grow allocPageOk turns s
      if allocPageOk turns then s.storePage else s

/-- The pool with a new array. -/
def newElements (s : ResizingPool Data) (newCapNr : Nat) : ResizingPool Data :=
  { s.setPool { s.pool with capNr := newCapNr } with
    room := newCapNr
    threshold := (newCapNr : Int) - ((newCapNr >>> 2 : Nat) : Int) }

/-- `valet_mempool_expand`; the thread does not go on what it returns. -/
def valetMempoolExpand (s : ResizingPool Data) (newCapNr : Int) (env : ResizeEnv) :
    Except Halt (ResizingPool Data) :=
  if newCapNr ≤ 0 then
    .error .panic
  else if !env.vmallocOk then
    .ok s
  else
    .ok ((s.newElements newCapNr.toNat).grow env.allocPageOk resizingUnitInPages)

/-- `new_cap_nr` of a round that shrinks. -/
def shrunkCapNr (s : ResizingPool Data) : Nat :=
  let newCapNr :=
    if s.pool.capNr ≤ resizingUnitInPages then
      s.pages.minPoolPages
    else
      s.pool.capNr - resizingUnitInPages
  if newCapNr < s.pages.minPoolPages then s.pages.minPoolPages else newCapNr

/-- `new_cap_nr` of a round that expands. -/
def expandedCapNr (s : ResizingPool Data) : Nat :=
  let newCapNr := s.pool.capNr + resizingUnitInPages
  if newCapNr > s.maxPoolPages then s.maxPoolPages else newCapNr

variable [Inhabited Data]

/-- `valet_mempool_shrink`, with the threshold that it sets. -/
def valetMempoolShrink (s : ResizingPool Data) (newCapNr : Int) :
    Except Halt (ResizingPool Data) := do
  let pages ← s.pages.valetMempoolShrink newCapNr
  return { s with
    pages := pages
    threshold := if newCapNr < s.pool.capNr then newCapNr else s.threshold }

/-- One iteration of `mempool_thread_fn`. -/
def mempoolThreadFn (s : ResizingPool Data) (env : ResizeEnv) :
    Except Halt (ResizingPool Data) :=
  if env.freeram < s.thresholdPageShrink then
    { s with threshold := s.shrunkCapNr }.valetMempoolShrink s.shrunkCapNr
  else if env.freeram > s.thresholdPageExpand then
    if s.pool.usedNr ≥ s.threshold then
      if s.maxPoolPages = s.pool.capNr then
        .ok s
      else
        s.valetMempoolExpand s.expandedCapNr env
    else
      .ok s
  else
    .ok s

def call (s : ResizingPool Data) : PageOp → Option (ResizingPool Data)
  | .shrink newCapNr => (s.valetMempoolShrink newCapNr).toOption
  | .insertPage env index => (s.pages.step (.insertPage env index)).map ({ s with pages := · })
  | .alloc => (s.pages.step .alloc).map ({ s with pages := · })
  | .free element => (s.pages.step (.free element)).map ({ s with pages := · })
  | .writeDone indices => (s.pages.step (.writeDone indices)).map ({ s with pages := · })

def step (s : ResizingPool Data) : ResizeOp → Option (ResizingPool Data)
  | .call op => s.call op
  | .expand newCapNr env => (s.valetMempoolExpand newCapNr env).toOption
  | .round env => (s.mempoolThreadFn env).toOption

/-- `valet_mempool_create` with as many pages as the pool has at least. -/
def init (minPoolPages maxPoolPages freeram : Nat) : ResizingPool Data where
  pages := .init minPoolPages minPoolPages maxPoolPages
  made := minPoolPages
  room := minPoolPages
  threshold := (minPoolPages : Int) - ((minPoolPages >>> 2 : Nat) : Int)
  maxPoolPages := maxPoolPages
  thresholdPageShrink := freeram * defaultMempoolShrinkPerc / 100
  thresholdPageExpand := freeram * defaultMempoolExpandPerc / 100

/-- The bounds of the pool. -/
structure InRoom (s : ResizingPool Data) : Prop where
  lower : s.pages.minPoolPages ≤ s.pool.capNr
  upper : s.pool.capNr ≤ s.maxPoolPages
  array : s.pool.capNr ≤ s.room
  stored : s.pool.currNr ≤ s.pool.capNr

/-- The round comes to the loop of `valet_mempool_expand`. -/
structure Expands (s : ResizingPool Data) (env : ResizeEnv) : Prop where
  plenty : ¬ env.freeram < s.thresholdPageShrink
  spare : env.freeram > s.thresholdPageExpand
  triggered : s.pool.usedNr ≥ s.threshold
  below : s.maxPoolPages ≠ s.pool.capNr
  positive : 0 < s.expandedCapNr
  array : env.vmallocOk = true

/-- The states that a call or a round goes through. -/
inductive Passes (s : ResizingPool Data) : ResizeOp → ResizingPool Data → Prop where
  | before (op : ResizeOp) : Passes s op s
  | after {op : ResizeOp} {next : ResizingPool Data} (edge : s.step op = some next) :
      Passes s op next
  | givingUp {env : ResizeEnv} (turns : Nat) (short : env.freeram < s.thresholdPageShrink)
      (fewer : s.shrunkCapNr < s.pool.capNr) :
      Passes s (.round env) { s with
        threshold := s.shrunkCapNr
        pages := s.pages.giveUp s.shrunkCapNr turns }
  | reclaiming {env : ResizeEnv} {turns : Nat} {pages : Pages Data}
      (short : env.freeram < s.thresholdPageShrink)
      (least : s.pages.minPoolPages = s.pool.capNr) (few : turns ≤ resizingUnitInPages)
      (ran : s.pages.reclaimUnit turns = .ok pages) :
      Passes s (.round env) { s with threshold := s.shrunkCapNr, pages := pages }
  | growing {env : ResizeEnv} {turns : Nat} (expands : s.Expands env)
      (few : turns ≤ resizingUnitInPages) :
      Passes s (.round env) ((s.newElements s.expandedCapNr).grow env.allocPageOk turns)

/-- Calls other than the two that resize, and rounds. -/
def Decided (_ : ResizingPool Data) : ResizeOp → Prop
  | .call (.shrink _) => False
  | .call _ => True
  | .expand _ _ => False
  | .round _ => True

/-- The pages that the first turns of the loop get. -/
def granted (allocPageOk : Nat → Bool) (turns : Nat) : Nat := (List.range turns).countP allocPageOk

/-- A round that expands has room for the free pages and the new ones. -/
def RoundFits (s : ResizingPool Data) : ResizeOp → Prop
  | .round env => s.Expands env →
      s.pool.currNr + granted env.allocPageOk resizingUnitInPages ≤ s.expandedCapNr
  | .call _ | .expand _ _ => True

end ResizingPool

namespace PageStore

variable {Data : Type} {s middle next : PageStore Data} {page index : Nat}

/-- The capacity stays, and the free pages stay within it. -/
structure Steady (s next : PageStore Data) : Prop where
  cap : next.pool.capNr = s.pool.capNr
  stored : s.pool.currNr ≤ s.pool.capNr → next.pool.currNr ≤ s.pool.capNr
  sound : s.reclaimList.Sound → next.reclaimList.Sound

theorem Steady.of_pool (pool : next.pool = s.pool)
    (sound : s.reclaimList.Sound → next.reclaimList.Sound) : Steady s next :=
  ⟨by rw [pool], fun stored => by rw [pool]; exact stored, sound⟩

theorem Steady.refl (s : PageStore Data) : Steady s s := .of_pool rfl id

theorem Steady.trans (start : Steady s middle) (finish : Steady middle next) : Steady s next where
  cap := finish.cap.trans start.cap
  stored := by
    intro stored
    rw [← start.cap]
    exact finish.stored (by rw [start.cap]; exact start.stored stored)
  sound := fun sound => finish.sound (start.sound sound)

theorem Reclaims.steady {element : Option Nat} (reclaims : Reclaims s element next) :
    Steady s next := .of_pool reclaims.pool_eq reclaims.drains.sound

theorem Allocates.steady (allocates : Allocates s page next) : Steady s next := by
  refine ⟨allocates.cap, fun stored => ?_, allocates.drains.sound⟩
  cases allocates with
  | @pooled pool top cap =>
      rw [Mempool.currNr, top, List.length_cons] at stored
      exact (Nat.le_succ _).trans stored
  | reclaimed exhausted drains pool reclaims =>
      rw [reclaims.pool_eq, pool]
      exact stored

theorem steady_free [Inhabited Data] (s : PageStore Data) (element : Nat) :
    Steady s (s.valetMempoolFree element) := by
  refine ⟨?_, fun stored => ?_, id⟩
  · show (s.pool.valetAddElement element).capNr = s.pool.capNr
    unfold Mempool.valetAddElement
    split <;> rfl
  · show (s.pool.valetAddElement element).currNr ≤ s.pool.capNr
    unfold Mempool.valetAddElement
    split
    · exact stored
    · rename_i roomy
      exact Nat.lt_of_not_ge roomy

theorem Inserts.steady (sound : s.reclaimList.Sound) (inserts : Inserts s index next) :
    Steady s next := by
  cases inserts with
  | fresh absent alloc =>
      have steady := (allocates_of_ok sound alloc).steady
      exact ⟨steady.cap, steady.stored, steady.sound⟩
  | held found here => exact .of_pool rfl id
  | refilled found gone alloc still =>
      have steady := (allocates_of_ok sound alloc).steady
      exact ⟨steady.cap, steady.stored, steady.sound⟩

theorem FinishesAll.steady {indices : List Nat} (all : FinishesAll s indices next) :
    Steady s next := .of_pool all.pool_eq fun sound => all.sound sound

end PageStore

namespace Pages

variable {Data : Type} {s next : Pages Data}

/-- The pool after some turns of the loop that gives up pages. -/
structure GivesUp (s : Pages Data) (newCapNr turns : Nat) (next : Pages Data) : Prop where
  minPoolPages : next.minPoolPages = s.minPoolPages
  reclaimList : next.store.reclaimList = s.store.reclaimList
  cap : next.store.pool.capNr = s.store.pool.capNr
  fewer : next.store.pool.currNr ≤ s.store.pool.currNr
  down : next.store.pool.currNr ≤ max newCapNr (s.store.pool.currNr - turns)
  least : min newCapNr s.store.pool.currNr ≤ next.store.pool.currNr
  given : next.system.length + next.store.pool.currNr = s.system.length + s.store.pool.currNr

theorem givesUp (s : Pages Data) (newCapNr turns : Nat) :
    GivesUp s newCapNr turns (giveUp newCapNr turns s) := by
  induction turns generalizing s with
  | zero => exact ⟨rfl, rfl, rfl, le_refl _, le_max_right _ _, min_le_right _ _, rfl⟩
  | succ turns ih =>
      unfold giveUp
      split
      · rename_i more
        unfold Mempool.valetRemoveElement
        cases elements : s.store.pool.elements with
        | nil =>
            rw [Mempool.currNr, elements] at more
            exact absurd more (Nat.not_lt_zero _)
        | cons element rest =>
            have after := ih (freePages { s with store := { s.store with pool :=
              { s.store.pool with
                elements := rest
                usedNr := s.store.pool.usedNr + 1 } } } element)
            have less : s.store.pool.currNr = rest.length + 1 := by
              rw [Mempool.currNr, elements, List.length_cons]
            have fewer := after.fewer
            have down := after.down
            have least : min newCapNr rest.length ≤ _ := after.least
            have given : _ = s.system.length + 1 + rest.length := after.given
            refine ⟨after.minPoolPages, after.reclaimList, after.cap, ?_, ?_, ?_, ?_⟩
            · rw [less]
              exact fewer.trans (Nat.le_succ _)
            · rw [less, Nat.add_sub_add_right]
              exact down
            · exact le_trans (by omega) least
            · rw [less]
              exact given.trans (by omega)
      · rename_i enough
        exact ⟨rfl, rfl, rfl, le_refl _, le_max_of_le_left (Nat.le_of_not_lt enough),
          min_le_right _ _, rfl⟩

variable [Inhabited Data]

theorem valetMempoolFree_store (s : Pages Data) (element : Nat) :
    (s.valetMempoolFree element).store = s.store.valetMempoolFree element := by
  unfold valetMempoolFree
  dsimp only
  split <;> rfl

theorem valetMempoolFree_held (s : Pages Data) (element : Nat) :
    (s.valetMempoolFree element).held = s.held := by
  unfold valetMempoolFree
  dsimp only
  split <;> rfl

theorem valetMempoolFree_minPoolPages (s : Pages Data) (element : Nat) :
    (s.valetMempoolFree element).minPoolPages = s.minPoolPages := by
  unfold valetMempoolFree
  dsimp only
  split <;> rfl

/-- Attempts to reclaim at the minimum keep to the capacity. -/
theorem steady_reclaimUnit {turns : Nat} (sound : s.store.reclaimList.Sound)
    (ran : reclaimUnit turns s = .ok next) :
    s.store.Steady next.store ∧ next.minPoolPages = s.minPoolPages := by
  induction turns generalizing s with
  | zero =>
      cases ran
      exact ⟨.refl _, rfl⟩
  | succ turns ih =>
      obtain ⟨⟨element, store⟩, reclaimed, rest⟩ := bind_eq_ok.mp ran
      have reclaims := PageStore.reclaims_of_ok sound reclaimed
      have soundNext := reclaims.drains.sound sound
      cases element with
      | none =>
          obtain ⟨steady, least⟩ := ih soundNext rest
          exact ⟨reclaims.steady.trans steady, least⟩
      | some page =>
          obtain ⟨steady, least⟩ := ih (by rw [valetMempoolFree_store]; exact soundNext) rest
          rw [valetMempoolFree_store] at steady
          rw [valetMempoolFree_minPoolPages] at least
          exact ⟨reclaims.steady.trans ((PageStore.steady_free store page).trans steady), least⟩

theorem steady_insertPage {env : AllocEnv} {index : Nat} (sound : s.store.reclaimList.Sound)
    (inserts : InsertsPage s env index next) :
    s.store.Steady next.store ∧ next.minPoolPages = s.minPoolPages := by
  cases inserts with
  | entered inserts => exact ⟨inserts.steady sound, rfl⟩
  | refused => exact ⟨.refl _, rfl⟩
  | @undone page store alloc =>
      rw [valetMempoolFree_store, valetMempoolFree_minPoolPages]
      exact ⟨(PageStore.allocates_of_ok sound alloc).steady.trans (store.steady_free page), rfl⟩

theorem steady_step {op : PageOp} (sound : s.store.reclaimList.Sound)
    (resizes : ∀ newCapNr, op ≠ .shrink newCapNr) (edge : s.step op = some next) :
    s.store.Steady next.store ∧ next.minPoolPages = s.minPoolPages := by
  cases calls_of_step sound edge with
  | inserted inserts => exact steady_insertPage sound inserts
  | taken alloc => exact ⟨(PageStore.allocates_of_ok sound alloc).steady, rfl⟩
  | @freed element holds =>
      rw [valetMempoolFree_store, valetMempoolFree_minPoolPages]
      exact ⟨s.store.steady_free element, rfl⟩
  | written all => exact ⟨all.steady, rfl⟩
  | @shrunk newCapNr _ ran => exact absurd rfl (resizes newCapNr)

end Pages

namespace ResizingPool

variable {Data : Type}

/-- The pool after some turns of the loop that stores new pages. -/
structure Grown (s : ResizingPool Data) (allocPageOk : Nat → Bool) (turns : Nat)
    (next : ResizingPool Data) : Prop where
  minPoolPages : next.pages.minPoolPages = s.pages.minPoolPages
  maxPoolPages : next.maxPoolPages = s.maxPoolPages
  reclaimList : next.pages.store.reclaimList = s.pages.store.reclaimList
  room : next.room = s.room
  cap : next.pool.capNr = s.pool.capNr
  stored : next.pool.currNr = s.pool.currNr + granted allocPageOk turns

theorem grown (s : ResizingPool Data) (allocPageOk : Nat → Bool) (turns : Nat) :
    Grown s allocPageOk turns (s.grow allocPageOk turns) := by
  induction turns with
  | zero => exact ⟨rfl, rfl, rfl, rfl, rfl, rfl⟩
  | succ turns ih =>
      have more : granted allocPageOk (turns + 1) =
          granted allocPageOk turns + (if allocPageOk turns then 1 else 0) := by
        rw [granted, List.range_succ, List.countP_append, List.countP_singleton]
        rfl
      rw [grow]
      split
      · rename_i ok
        refine ⟨ih.minPoolPages, ih.maxPoolPages, ih.reclaimList, ih.room, ih.cap, ?_⟩
        rw [more, if_pos ok, ← Nat.add_assoc, ← ih.stored]
        rfl
      · rename_i failed
        refine ⟨ih.minPoolPages, ih.maxPoolPages, ih.reclaimList, ih.room, ih.cap, ?_⟩
        rw [more, if_neg failed, Nat.add_zero, ih.stored]

variable {s next : ResizingPool Data}

/-- Turns in which `alloc_page` fails store nothing. -/
theorem grow_stops {allocPageOk : Nat → Bool} {first turns : Nat}
    (quiet : ∀ turn, first ≤ turn → allocPageOk turn = false) (few : first ≤ turns) :
    s.grow allocPageOk turns = s.grow allocPageOk first := by
  induction turns, few using Nat.le_induction with
  | base => rfl
  | succ turns few ih =>
      rw [grow, ih]
      exact if_neg (by simp [quiet turns few])

theorem granted_stops {allocPageOk : Nat → Bool} {first turns : Nat}
    (quiet : ∀ turn, first ≤ turn → allocPageOk turn = false) (few : first ≤ turns) :
    granted allocPageOk turns = granted allocPageOk first := by
  induction turns, few using Nat.le_induction with
  | base => rfl
  | succ turns few ih =>
      rw [granted, List.range_succ, List.countP_append, List.countP_singleton, quiet turns few]
      exact ih

theorem shrunkCapNr_spec (lower : s.pages.minPoolPages ≤ s.pool.capNr) :
    s.pages.minPoolPages ≤ s.shrunkCapNr ∧ s.shrunkCapNr ≤ s.pool.capNr := by
  unfold shrunkCapNr
  dsimp only
  split_ifs <;> omega

theorem expandedCapNr_spec (upper : s.pool.capNr ≤ s.maxPoolPages) :
    s.pool.capNr ≤ s.expandedCapNr ∧ s.expandedCapNr ≤ s.maxPoolPages := by
  unfold expandedCapNr
  dsimp only
  split_ifs <;> omega

/-- With a new array and every turn of the loop so far had room for its page. -/
theorem Grown.inRoom {newCapNr turns : Nat} {allocPageOk : Nat → Bool}
    (grown : Grown (s.newElements newCapNr) allocPageOk turns next)
    (lower : s.pages.minPoolPages ≤ newCapNr) (upper : newCapNr ≤ s.maxPoolPages)
    (fits : s.pool.currNr + granted allocPageOk turns ≤ newCapNr) : next.InRoom := by
  have cap : next.pool.capNr = newCapNr := grown.cap
  refine ⟨?_, ?_, ?_, ?_⟩
  · rw [cap, grown.minPoolPages]
    exact lower
  · rw [cap, grown.maxPoolPages]
    exact upper
  · rw [cap, grown.room]
    exact le_refl _
  · rw [cap, grown.stored]
    exact fits

/-- What has been stored fits into the new array if the pool is within its bounds. -/
theorem Grown.fits {newCapNr turns : Nat} {allocPageOk : Nat → Bool}
    (grown : Grown (s.newElements newCapNr) allocPageOk turns next) (within : next.InRoom) :
    s.pool.currNr + granted allocPageOk turns ≤ newCapNr := by
  have stored := within.stored
  rw [grown.stored, grown.cap] at stored
  exact stored

theorem Grown.sound {newCapNr turns : Nat} {allocPageOk : Nat → Bool}
    (grown : Grown (s.newElements newCapNr) allocPageOk turns next)
    (sound : s.pages.store.reclaimList.Sound) : next.pages.store.reclaimList.Sound := by
  rw [grown.reclaimList]
  exact sound

/-- Every turn of the loop of `valet_mempool_expand` so far had room for its page. -/
theorem InRoom.grow {allocPageOk : Nat → Bool} {turns : Nat} (holds : s.InRoom)
    (fits : s.pool.currNr + granted allocPageOk turns ≤ s.expandedCapNr) :
    ((s.newElements s.expandedCapNr).grow allocPageOk turns).InRoom := by
  obtain ⟨larger, smaller⟩ := expandedCapNr_spec holds.upper
  exact (grown _ allocPageOk turns).inRoom (holds.lower.trans larger) smaller fits

theorem granted_mono {allocPageOk : Nat → Bool} {turns more : Nat} (few : turns ≤ more) :
    granted allocPageOk turns ≤ granted allocPageOk more :=
  List.Sublist.countP_le (List.range_sublist.mpr few)

theorem InRoom.goOn {pages : Pages Data} {threshold : Int} (holds : s.InRoom)
    (steady : s.pages.store.Steady pages.store)
    (least : pages.minPoolPages = s.pages.minPoolPages) :
    InRoom { s with pages := pages, threshold := threshold } := by
  have cap : pages.store.pool.capNr = s.pool.capNr := steady.cap
  refine ⟨?_, ?_, ?_, ?_⟩
  · show pages.minPoolPages ≤ pages.store.pool.capNr
    rw [cap, least]
    exact holds.lower
  · show pages.store.pool.capNr ≤ s.maxPoolPages
    rw [cap]
    exact holds.upper
  · show pages.store.pool.capNr ≤ s.room
    rw [cap]
    exact holds.array
  · show pages.store.pool.currNr ≤ pages.store.pool.capNr
    rw [cap]
    exact steady.stored holds.stored

/-- The bounds, and a reclaim list in order. -/
structure Bounded (s : ResizingPool Data) : Prop where
  inRoom : s.InRoom
  sound : s.pages.store.reclaimList.Sound

variable [Inhabited Data] {op : ResizeOp}

/-- A call changes the pages, and a shrink the threshold as well. -/
theorem call_cases {op : PageOp} (edge : s.call op = some next) :
    ∃ pages threshold, s.pages.step op = some pages ∧
      next = { s with pages := pages, threshold := threshold } := by
  cases op with
  | shrink newCapNr =>
      have ran := toOption_eq_some edge
      obtain ⟨pages, shrunk, made⟩ := bind_eq_ok.mp ran
      cases made
      exact ⟨pages, _, by rw [Pages.step, shrunk]; rfl, rfl⟩
  | insertPage env index =>
      obtain ⟨pages, ran, rfl⟩ := Option.map_eq_some_iff.mp edge
      exact ⟨pages, s.threshold, ran, rfl⟩
  | alloc =>
      obtain ⟨pages, ran, rfl⟩ := Option.map_eq_some_iff.mp edge
      exact ⟨pages, s.threshold, ran, rfl⟩
  | free element =>
      obtain ⟨pages, ran, rfl⟩ := Option.map_eq_some_iff.mp edge
      exact ⟨pages, s.threshold, ran, rfl⟩
  | writeDone indices =>
      obtain ⟨pages, ran, rfl⟩ := Option.map_eq_some_iff.mp edge
      exact ⟨pages, s.threshold, ran, rfl⟩

theorem Bounded.call {op : PageOp} (bounded : s.Bounded)
    (resizes : ∀ newCapNr, op ≠ .shrink newCapNr) (edge : s.call op = some next) :
    next.Bounded := by
  obtain ⟨pages, threshold, ran, rfl⟩ := call_cases edge
  obtain ⟨steady, least⟩ := Pages.steady_step bounded.sound resizes ran
  exact ⟨bounded.inRoom.goOn steady least, steady.sound bounded.sound⟩

omit [Inhabited Data] in
/-- A shrink to a smaller capacity, after any number of turns of its loop. -/
theorem InRoom.givingUp {newCapNr turns : Nat} {threshold : Int} (holds : s.InRoom) :
    InRoom { s with threshold := threshold, pages := s.pages.giveUp newCapNr turns } := by
  have gives := s.pages.givesUp newCapNr turns
  refine holds.goOn ⟨gives.cap, fun stored => gives.fewer.trans stored, fun sound => ?_⟩
    gives.minPoolPages
  rw [gives.reclaimList]
  exact sound

/-- The shrink of a round. -/
theorem Bounded.shrink (bounded : s.Bounded)
    (ran : { s with threshold := s.shrunkCapNr }.valetMempoolShrink s.shrunkCapNr = .ok next) :
    next.Bounded := by
  obtain ⟨lower, upper⟩ := shrunkCapNr_spec bounded.inRoom.lower
  generalize s.shrunkCapNr = newCapNr at ran lower upper
  obtain ⟨pages, shrunk, made⟩ := bind_eq_ok.mp ran
  cases made
  cases Pages.shrinkOutcome_of_ok shrunk with
  | gaveUp _ smaller =>
      rw [Int.toNat_natCast]
      have gives := s.pages.givesUp newCapNr s.pages.store.pool.currNr
      refine ⟨⟨?_, ?_, ?_, ?_⟩, ?_⟩
      · show (s.pages.giveUp newCapNr s.pages.store.pool.currNr).minPoolPages ≤ newCapNr
        rw [gives.minPoolPages]
        exact lower
      · exact upper.trans bounded.inRoom.upper
      · exact upper.trans bounded.inRoom.array
      · show (s.pages.giveUp newCapNr s.pages.store.pool.currNr).store.pool.currNr ≤ newCapNr
        have down := gives.down
        rw [Nat.sub_self, Nat.max_zero] at down
        exact down
      · show (s.pages.giveUp newCapNr s.pages.store.pool.currNr).store.reclaimList.Sound
        rw [gives.reclaimList]
        exact bounded.sound
  | reclaimed _ _ ran =>
      obtain ⟨steady, least⟩ := Pages.steady_reclaimUnit bounded.sound ran
      exact ⟨bounded.inRoom.goOn steady least, steady.sound bounded.sound⟩
  | kept => exact ⟨bounded.inRoom.goOn (.refl _) rfl, bounded.sound⟩

/-- The outcomes of a round. -/
inductive RoundOutcome (s : ResizingPool Data) (env : ResizeEnv) : ResizingPool Data → Prop where
  | shrunk {next : ResizingPool Data} (short : env.freeram < s.thresholdPageShrink)
      (ran : { s with threshold := s.shrunkCapNr }.valetMempoolShrink s.shrunkCapNr = .ok next) :
      RoundOutcome s env next
  | grown (expands : s.Expands env) :
      RoundOutcome s env
        ((s.newElements s.expandedCapNr).grow env.allocPageOk resizingUnitInPages)
  | idle (plenty : ¬ env.freeram < s.thresholdPageShrink) (calm : ¬ s.Expands env) :
      RoundOutcome s env s

theorem roundOutcome_of_step {env : ResizeEnv} (edge : s.step (.round env) = some next) :
    RoundOutcome s env next := by
  have ran : s.mempoolThreadFn env = .ok next := toOption_eq_some edge
  unfold mempoolThreadFn at ran
  split at ran
  · rename_i short
    exact .shrunk short ran
  · rename_i plenty
    split at ran
    · rename_i spare
      split at ran
      · rename_i triggered
        split at ran
        · rename_i full
          cases ran
          exact .idle plenty fun expands => expands.below full
        · rename_i below
          unfold valetMempoolExpand at ran
          split at ran
          · cases ran
          · rename_i positive
            split at ran
            · rename_i failed
              cases ran
              refine .idle plenty fun expands => ?_
              rw [expands.array] at failed
              cases failed
            · rename_i array
              cases ran
              rw [Int.toNat_natCast]
              refine .grown ⟨plenty, spare, triggered, below, by omega, ?_⟩
              simpa using array
      · rename_i calm
        cases ran
        exact .idle plenty fun expands => calm expands.triggered
    · rename_i scarce
      cases ran
      exact .idle plenty fun expands => scarce expands.spare

/-- What a step that fits preserves. -/
theorem Bounded.step (bounded : s.Bounded) (decided : s.Decided op) (fits : s.RoundFits op)
    (edge : s.step op = some next) : next.Bounded := by
  cases op with
  | call op =>
      refine bounded.call (fun newCapNr same => ?_) edge
      subst same
      exact decided
  | expand newCapNr env => exact decided.elim
  | round env =>
      cases roundOutcome_of_step edge with
      | shrunk short ran => exact bounded.shrink ran
      | grown expands =>
          have grown := grown (s.newElements s.expandedCapNr) env.allocPageOk resizingUnitInPages
          exact ⟨bounded.inRoom.grow (fits expands), grown.sound bounded.sound⟩
      | idle => exact bounded

/-- The states that a step that fits goes through are within the bounds. -/
theorem Bounded.passes {moment : ResizingPool Data} (bounded : s.Bounded)
    (decided : s.Decided op) (fits : s.RoundFits op) (passes : s.Passes op moment) :
    moment.InRoom := by
  cases passes with
  | before => exact bounded.inRoom
  | after edge => exact (bounded.step decided fits edge).inRoom
  | givingUp turns short fewer => exact bounded.inRoom.givingUp
  | reclaiming short least few ran =>
      obtain ⟨steady, same⟩ := Pages.steady_reclaimUnit bounded.sound ran
      exact bounded.inRoom.goOn steady same
  | growing expands few =>
      refine bounded.inRoom.grow (le_trans ?_ (fits expands))
      exact Nat.add_le_add_left (granted_mono few) _

/-- The last page that an expansion stores has a place only if the expansion fits. -/
theorem roundFits_of_passes (within : ∀ moment, s.Passes op moment → moment.InRoom) :
    s.RoundFits op := by
  cases op with
  | call op => exact trivial
  | expand newCapNr env => exact trivial
  | round env =>
      intro expands
      have grown := grown (s.newElements s.expandedCapNr) env.allocPageOk resizingUnitInPages
      exact grown.fits (within _ (.growing expands (le_refl _)))

theorem bounded_init {minPoolPages maxPoolPages : Nat} (ordered : minPoolPages ≤ maxPoolPages)
    (freeram : Nat) : (init minPoolPages maxPoolPages freeram : ResizingPool Data).Bounded where
  inRoom := by
    refine ⟨le_refl _, ordered, le_refl _, ?_⟩
    show (Mempool.allocatedPages minPoolPages).length ≤ minPoolPages
    rw [Mempool.length_allocatedPages]
  sound := AlfQueue.sound_alloc (Nat.mod_lt _ (by decide))

/-- In a run of calls and rounds, the capacity, the array and the free pages keep to their bounds
at every moment of every step, exactly as long as every expansion has room in its new capacity for
the free pages and the new ones. -/
theorem resizing_in_room_iff {minPoolPages maxPoolPages freeram : Nat} {ops : List ResizeOp}
    {last : ResizingPool Data} (ordered : minPoolPages ≤ maxPoolPages)
    (run : Run step Decided (init minPoolPages maxPoolPages freeram) ops last) :
    (∀ before op after (middle : ResizingPool Data), ops = before ++ op :: after →
      exec step (init minPoolPages maxPoolPages freeram) before = some middle →
        ∀ moment, middle.Passes op moment → moment.InRoom) ↔
      Run step (fun s op => s.Decided op ∧ s.RoundFits op)
        (init minPoolPages maxPoolPages freeram) ops last :=
  guarded_iff_during
    (fun bounded decided fits edge => Bounded.step bounded decided fits edge)
    (fun bounded decided _ => ⟨fun within => roundFits_of_passes within,
      fun fits _ passes => Bounded.passes bounded decided fits passes⟩)
    (bounded_init ordered freeram) run

theorem step_of_expands {env : ResizeEnv} (expands : s.Expands env) :
    s.step (.round env) =
      some ((s.newElements s.expandedCapNr).grow env.allocPageOk resizingUnitInPages) := by
  have positive : ¬ (s.expandedCapNr : Int) ≤ 0 := by
    have := expands.positive
    omega
  have array : ¬ (!env.vmallocOk) = true := by simp [expands.array]
  have ran : s.mempoolThreadFn env =
      .ok ((s.newElements s.expandedCapNr).grow env.allocPageOk resizingUnitInPages) := by
    rw [mempoolThreadFn, if_neg expands.plenty, if_pos expands.spare, if_pos expands.triggered,
      if_neg expands.below, valetMempoolExpand, if_neg positive, if_neg array, Int.toNat_natCast]
  rw [step, ran]
  rfl

/-- Much memory is free, and `alloc_page` succeeds in the given turns. -/
def muchFree (allocPageOk : Nat → Bool) : ResizeEnv := ⟨100, true, allocPageOk⟩

/-- A pool of one page and at most two, whose page is handed out. -/
def handedOut : ResizingPool Nat where
  pages :=
    { store :=
        { pool := ⟨1, 1, []⟩
          gptPages := fun _ => none
          reclaimList := alfQueueAlloc 2
          memory := fun _ => default }
      minPoolPages := 1
      held := [0]
      system := [] }
  made := 1
  room := 1
  threshold := 1
  maxPoolPages := 2
  thresholdPageShrink := 15
  thresholdPageExpand := 30

theorem step_handedOut : (init 1 2 100 : ResizingPool Nat).step (.call .alloc) = some handedOut :=
  rfl

theorem handedOut_expands (allocPageOk : Nat → Bool) : handedOut.Expands (muchFree allocPageOk) :=
  ⟨by show ¬ 100 < 15; decide, by show 100 > 30; decide, by decide, by decide, by decide, rfl⟩

theorem quiet_after (count turn : Nat) (late : count ≤ turn) : decide (turn < count) = false :=
  decide_eq_false (Nat.not_lt_of_le late)

/-- An expansion in which only the first two `alloc_page` succeed fits. -/
theorem handedOut_fits : handedOut.RoundFits (.round (muchFree fun turn => decide (turn < 2))) := by
  intro _
  have few : 2 ≤ resizingUnitInPages := by decide
  have answers : (muchFree fun turn => decide (turn < 2)).allocPageOk =
      fun turn => decide (turn < 2) := rfl
  have cap : handedOut.expandedCapNr = 2 := by decide
  rw [answers, granted_stops (quiet_after 2) few, cap]
  decide

/-- Only the first two `alloc_page` of the round succeed. -/
theorem resizing_in_room_iff_two :
    (∃ last, Run step Decided (init 1 2 100 : ResizingPool Nat)
      [.call .alloc, .round (muchFree fun turn => decide (turn < 2))] last) ∧
    ∀ before op after (middle : ResizingPool Nat),
      [.call .alloc, .round (muchFree fun turn => decide (turn < 2))] = before ++ op :: after →
      exec step (init 1 2 100) before = some middle →
        ∀ moment, middle.Passes op moment → moment.InRoom := by
  have second := step_of_expands (handedOut_expands fun turn => decide (turn < 2))
  have run : Run step Decided (init 1 2 100)
      [.call .alloc, .round (muchFree fun turn => decide (turn < 2))] _ :=
    .head trivial step_handedOut (.head trivial second (.refl _))
  refine ⟨⟨_, run⟩, (resizing_in_room_iff (Nat.le_succ 1) run).mpr ?_⟩
  exact .head ⟨trivial, trivial⟩ step_handedOut
    (.head ⟨trivial, handedOut_fits⟩ second (.refl _))

/-- Every `alloc_page` succeeds: the third page is stored beyond the array of two. -/
theorem expansion_overruns : ¬ ∀ (minPoolPages maxPoolPages freeram : Nat) (ops : List ResizeOp)
    (last : ResizingPool Nat), 0 < minPoolPages → minPoolPages ≤ maxPoolPages →
      Run step Decided (init minPoolPages maxPoolPages freeram) ops last →
      ∀ before op after (middle : ResizingPool Nat), ops = before ++ op :: after →
        exec step (init minPoolPages maxPoolPages freeram) before = some middle →
          ∀ moment, middle.Passes op moment → moment.InRoom := by
  intro claim
  have expands := handedOut_expands fun _ => true
  have run : Run step Decided (init 1 2 100) [.call .alloc, .round (muchFree fun _ => true)] _ :=
    .head trivial step_handedOut (.head trivial (step_of_expands expands) (.refl _))
  have few : 3 ≤ resizingUnitInPages := by decide
  have within := claim 1 2 100 _ _ Nat.one_pos (Nat.le_succ 1) run [.call .alloc] _ [] handedOut rfl
    rfl _ (.growing expands few)
  have stored := (grown (handedOut.newElements handedOut.expandedCapNr) (fun _ => true) 3).fits within
  exact absurd stored (by decide)

end ResizingPool

end Valet.Bd
