import Valet.Bd.PageStore

/-!
# Who owns a page and what is stored in it

Every page is in the pool or with one entry.  Reclaim only takes pages away
from entries that are on the reclaim list, and a write fills the pages of its
own entries, so the pages of all other entries keep their contents.
-/

namespace Valet.Bd

open Valet.Library

namespace PageStore

variable {Data : Type}

theorem pageOf_eq {s : PageStore Data} {index : Nat} {entry : TreeEntry}
    (found : s.gptPages index = some entry) : s.pageOf (some index) = entry.page := by
  simp [pageOf, found]

theorem exists_of_pageOf {s : PageStore Data} {index page : Nat}
    (here : s.pageOf (some index) = some page) :
    ∃ entry, s.gptPages index = some entry ∧ entry.page = some page := by
  simpa [pageOf, Option.bind_eq_some_iff] using here

/-- Pages have one owner. -/
structure Owned (s : PageStore Data) : Prop where
  distinct : s.pool.elements.Nodup
  apart : ∀ index page, s.pageOf (some index) = some page → page ∉ s.pool.elements
  single : ∀ first second page, s.pageOf (some first) = some page →
    s.pageOf (some second) = some page → first = second

/-- No entry gains a page or changes it. -/
def Shrinks (s next : PageStore Data) : Prop :=
  ∀ index page, next.pageOf (some index) = some page → s.pageOf (some index) = some page

/-- A page that is neither in the pool nor with an entry. -/
structure Loose (s : PageStore Data) (page : Nat) : Prop where
  unpooled : page ∉ s.pool.elements
  unheld : ∀ index, s.pageOf (some index) ≠ some page

theorem Drains.shrinks {s next : PageStore Data} (drains : Drains s next) : Shrinks s next := by
  intro index page here
  obtain ⟨later, isLater, hasPage⟩ := exists_of_pageOf here
  obtain ⟨entry, found, kept⟩ := drains.before isLater
  cases kept with
  | same => rw [pageOf_eq found, hasPage]
  | emptied idle listed => cases hasPage

theorem Owned.shrinks {s next : PageStore Data} (owned : Owned s) (shrinks : Shrinks s next)
    (pool : next.pool = s.pool) : Owned next where
  distinct := by
    rw [pool]
    exact owned.distinct
  apart := by
    intro index page here
    rw [pool]
    exact owned.apart index page (shrinks index page here)
  single := fun first second page here there =>
    owned.single first second page (shrinks first page here) (shrinks second page there)

/-- A reclaimed page belongs to nobody. -/
theorem Owned.loose {s next : PageStore Data} {page : Nat} (owned : Owned s)
    (reclaims : Reclaims s (some page) next) : Loose next page := by
  generalize taken : some page = element at reclaims
  cases reclaims with
  | nothing => cases taken
  | skipped => cases taken
  | @taken index entry queue popped found idle =>
      have here : s.pageOf (some index) = some page := by rw [pageOf_eq found, taken]
      refine ⟨owned.apart index page here, fun other there => ?_⟩
      by_cases same : other = index
      · subst same
        simp [pageOf] at there
      · have before : s.pageOf (some other) = some page := by
          simpa [pageOf, same] using there
        exact same (owned.single other index page before here)

theorem Allocates.owned {s next : PageStore Data} {page : Nat} (owned : Owned s)
    (allocates : Allocates s page next) : Owned next ∧ Loose next page := by
  cases allocates with
  | @pooled pool top cap =>
      have distinct := owned.distinct
      rw [top, List.nodup_cons] at distinct
      refine ⟨⟨distinct.2, ?_, owned.single⟩, distinct.1, ?_⟩
      · intro index other here member
        exact owned.apart index other here (by rw [top]; exact List.mem_cons_of_mem _ member)
      · intro index here
        exact owned.apart index page here (by rw [top]; exact List.mem_cons_self)
  | reclaimed exhausted drains pool reclaims =>
      have before := owned.shrinks drains.shrinks pool
      exact ⟨before.shrinks reclaims.drains.shrinks reclaims.pool_eq, before.loose reclaims⟩

/-- Handing a loose page to an entry. -/
theorem Owned.give {s : PageStore Data} {index page : Nat} {entry : TreeEntry} (owned : Owned s)
    (loose : Loose s page) (has : entry.page = some page) :
    Owned { s with gptPages := Function.update s.gptPages index (some entry) } := by
  have at_ (other found : Nat)
      (here : pageOf { s with gptPages := Function.update s.gptPages index (some entry) }
        (some other) = some found) :
      (other = index ∧ found = page) ∨ s.pageOf (some other) = some found := by
    by_cases same : other = index
    · subst same
      simp only [pageOf, Option.bind_some, Function.update_self, has, Option.some.injEq] at here
      exact Or.inl ⟨rfl, here.symm⟩
    · exact Or.inr (by simpa [pageOf, same] using here)
  refine ⟨owned.distinct, ?_, ?_⟩
  · intro other found here
    rcases at_ other found here with ⟨_, rfl⟩ | before
    · exact loose.unpooled
    · exact owned.apart other found before
  · intro first second found here there
    rcases at_ first found here with ⟨rfl, rfl⟩ | before
    · rcases at_ second found there with ⟨rfl, _⟩ | other
      · rfl
      · exact absurd other (loose.unheld second)
    · rcases at_ second found there with ⟨rfl, rfl⟩ | other
      · exact absurd before (loose.unheld first)
      · exact owned.single first second found before other

/-- What an insertion does to the owners, to the memory and to the other entries. -/
structure InsertFrame (s : PageStore Data) (index : Nat) (next : PageStore Data) : Prop where
  owned : Owned next
  memory : next.memory = s.memory
  others : ∀ other page, other ≠ index → next.pageOf (some other) = some page →
    s.pageOf (some other) = some page
  here : (next.pageOf (some index)).isSome
  listed : ∀ other, other ∈ next.reclaimList.contents → other ∈ s.reclaimList.contents

theorem Inserts.frame {s next : PageStore Data} {index : Nat} (owned : Owned s)
    (sound : s.reclaimList.Sound) (inserts : Inserts s index next) : InsertFrame s index next := by
  cases inserts with
  | @fresh page middle absent alloc =>
      have allocates := allocates_of_ok sound alloc
      obtain ⟨after, loose⟩ := allocates.owned owned
      refine ⟨after.give loose rfl, allocates.drains.memory, ?_, by simp [pageOf],
        fun other => allocates.drains.mem⟩
      intro other found different there
      apply allocates.drains.shrinks
      simpa [pageOf, different] using there
  | @held entry page found here =>
      have same (other : Nat) : pageOf { s with
          gptPages := Function.update s.gptPages index (some entry.beginWrite) } (some other) =
          s.pageOf (some other) := by
        by_cases equal : other = index
        · subst equal
          simp [pageOf, found]
        · simp [pageOf, equal]
      refine ⟨owned.shrinks (fun other page there => (same other).symm.trans there) rfl, rfl,
        fun other page _ there => (same other).symm.trans there, ?_, fun _ => id⟩
      rw [same, pageOf_eq found, here]
      rfl
  | @refilled entry later page middle found gone alloc still =>
      have allocates := allocates_of_ok sound alloc
      obtain ⟨after, loose⟩ := allocates.owned owned
      refine ⟨after.give loose rfl, allocates.drains.memory, ?_, by simp [pageOf],
        fun other => allocates.drains.mem⟩
      intro other found different there
      apply allocates.drains.shrinks
      simpa [pageOf, different] using there

/-- What the loop of `write_to_brd` does: outside `indices` no entry gains or changes a page. -/
structure InsertsFrame (s : PageStore Data) (indices : List Nat) (next : PageStore Data) :
    Prop where
  owned : Owned next
  memory : next.memory = s.memory
  others : ∀ other page, other ∉ indices → next.pageOf (some other) = some page →
    s.pageOf (some other) = some page
  listed : ∀ other, other ∈ next.reclaimList.contents → other ∈ s.reclaimList.contents

theorem InsertsAll.frame {s next : PageStore Data} {indices : List Nat} (owned : Owned s)
    (sound : s.reclaimList.Sound) (all : InsertsAll s indices next) :
    InsertsFrame s indices next := by
  induction all with
  | nil => exact ⟨owned, rfl, fun _ _ _ here => here, fun _ => id⟩
  | @cons s middle next index rest inserts tail ih =>
      have first := inserts.frame owned sound
      have later := ih first.owned (inserts.sound sound)
      refine ⟨later.owned, later.memory.trans first.memory, ?_,
        fun other member => first.listed other (later.listed other member)⟩
      intro other page unlisted here
      rw [List.mem_cons, not_or] at unlisted
      exact first.others other page unlisted.1 (later.others other page unlisted.2 here)

/-- Entries that lost their page, and those that may, satisfy `Bit`. -/
structure Recorded (s : PageStore Data) (Bit : Nat → Prop) : Prop where
  listed : ∀ index ∈ s.reclaimList.contents, Bit index
  gone : ∀ index entry, s.gptPages index = some entry → entry.page = none → Bit index

theorem Recorded.mono {s : PageStore Data} {Bit More : Nat → Prop}
    (more : ∀ index, Bit index → More index) (recorded : Recorded s Bit) : Recorded s More :=
  ⟨fun index member => more index (recorded.listed index member),
    fun index entry found none => more index (recorded.gone index entry found none)⟩

theorem Recorded.drains {s next : PageStore Data} {Bit : Nat → Prop} (recorded : Recorded s Bit)
    (drains : Drains s next) : Recorded next Bit := by
  refine ⟨fun index member => recorded.listed index (drains.mem member), ?_⟩
  intro index later isLater none
  obtain ⟨entry, found, kept⟩ := drains.before isLater
  cases kept with
  | same => exact recorded.gone index _ found none
  | emptied idle member => exact recorded.listed index member

/-- Writing an entry that has a page. -/
theorem Recorded.update {s : PageStore Data} {Bit : Nat → Prop} {index : Nat}
    {entry : TreeEntry} (recorded : Recorded s Bit) (here : entry.page.isSome) :
    Recorded { s with gptPages := Function.update s.gptPages index (some entry) } Bit := by
  refine ⟨recorded.listed, ?_⟩
  intro other later isLater none
  by_cases same : other = index
  · subst same
    simp only [Function.update_self, Option.some.injEq] at isLater
    subst isLater
    rw [none] at here
    cases here
  · simp only [Function.update_of_ne same] at isLater
    exact recorded.gone other later isLater none

theorem Recorded.inserts {s next : PageStore Data} {Bit : Nat → Prop} {index : Nat}
    (recorded : Recorded s Bit) (sound : s.reclaimList.Sound) (inserts : Inserts s index next) :
    Recorded next Bit := by
  cases inserts with
  | fresh absent alloc =>
      exact (recorded.drains (allocates_of_ok sound alloc).drains).update rfl
  | held found filled => exact recorded.update (by simp [filled])
  | refilled found gone alloc still =>
      exact (recorded.drains (allocates_of_ok sound alloc).drains).update (by simp)

theorem Recorded.insertsAll {s next : PageStore Data} {Bit : Nat → Prop} {indices : List Nat}
    (recorded : Recorded s Bit) (sound : s.reclaimList.Sound)
    (all : InsertsAll s indices next) : Recorded next Bit := by
  induction all with
  | nil => exact recorded
  | cons inserts tail ih => exact ih (recorded.inserts sound inserts) (inserts.sound sound)

theorem FinishesEntry.sound {s next : PageStore Data} {index : Nat}
    (sound : s.reclaimList.Sound) (finishes : FinishesEntry s index next) :
    next.reclaimList.Sound := by
  cases finishes with
  | listed => exact sound
  | queued found fresh put => exact sound.enqueue put
  | full => exact sound

theorem Recorded.finishes {s next : PageStore Data} {Bit : Nat → Prop} {index : Nat}
    (recorded : Recorded s Bit) (sound : s.reclaimList.Sound) (bit : Bit index)
    (finishes : FinishesEntry s index next) : Recorded next Bit := by
  refine ⟨?_, ?_⟩
  · cases finishes with
    | listed => exact recorded.listed
    | queued found fresh put =>
        intro other member
        rcases sound.mem_enqueue put member with old | rfl
        · exact recorded.listed other old
        · exact bit
    | full => exact recorded.listed
  · intro other later isLater none
    have same := finishes.pageOf other
    rw [pageOf_eq isLater, none] at same
    by_cases equal : other = index
    · rw [equal]
      exact bit
    · have isEntry : s.gptPages other = some later := by
        cases finishes <;> simpa [equal] using isLater
      exact recorded.gone other later isEntry none

theorem Recorded.finishesAll {s next : PageStore Data} {Bit : Nat → Prop} {indices : List Nat}
    (recorded : Recorded s Bit) (sound : s.reclaimList.Sound)
    (bits : ∀ index ∈ indices, Bit index) (all : FinishesAll s indices next) :
    Recorded next Bit := by
  induction all with
  | nil => exact recorded
  | cons finishes tail ih =>
      exact ih (recorded.finishes sound (bits _ List.mem_cons_self) finishes)
        (finishes.sound sound) fun other member => bits other (List.mem_cons_of_mem _ member)

theorem FinishesAll.memory_eq {s next : PageStore Data} {indices : List Nat}
    (all : FinishesAll s indices next) : next.memory = s.memory := by
  induction all with
  | nil => rfl
  | cons finishes tail ih =>
      rw [ih]
      cases finishes <;> rfl

theorem FinishesAll.sound {s next : PageStore Data} {indices : List Nat}
    (sound : s.reclaimList.Sound) (all : FinishesAll s indices next) :
    next.reclaimList.Sound := by
  induction all with
  | nil => exact sound
  | cons finishes tail ih => exact ih (finishes.sound sound)

theorem FinishesAll.owned {s next : PageStore Data} {indices : List Nat} (owned : Owned s)
    (all : FinishesAll s indices next) : Owned next :=
  owned.shrinks (fun index _ here => (all.pageOf index).symm.trans here) all.pool_eq

/-- The store after one turn of the reclaim loop; a page that was taken is cleared and freed. -/
structure ShrinkFrame (s next : PageStore Data) : Prop where
  owned : Owned next
  shrinks : Shrinks s next
  memory : ∀ index page, next.pageOf (some index) = some page → next.memory page = s.memory page

/-- The pool takes a loose page back, or gives it up. -/
theorem Owned.free [Inhabited Data] {s : PageStore Data} {page : Nat} (owned : Owned s)
    (loose : Loose s page) : Owned (s.valetMempoolFree page) := by
  refine ⟨?_, ?_, owned.single⟩
  · show (s.pool.valetAddElement page).elements.Nodup
    unfold Mempool.valetAddElement
    split
    · exact owned.distinct
    · exact List.nodup_cons.mpr ⟨loose.unpooled, owned.distinct⟩
  · intro index other here member
    have there : s.pageOf (some index) = some other := here
    have pooled : other ∈ (s.pool.valetAddElement page).elements := member
    unfold Mempool.valetAddElement at pooled
    split at pooled
    · exact owned.apart index other there pooled
    · rcases List.mem_cons.mp pooled with rfl | before
      · exact loose.unheld index there
      · exact owned.apart index other there before

theorem Reclaims.freed [Inhabited Data] {s middle : PageStore Data} {element : Option Nat}
    (owned : Owned s) (reclaims : Reclaims s element middle) :
    ShrinkFrame s (element.elim middle middle.valetMempoolFree) := by
  have drains := reclaims.drains
  have after := owned.shrinks drains.shrinks reclaims.pool_eq
  cases element with
  | none => exact ⟨after, drains.shrinks, fun _ _ _ => congrFun drains.memory _⟩
  | some freed =>
      have loose := owned.loose reclaims
      refine ⟨after.free loose, drains.shrinks, ?_⟩
      intro index page here
      have there : middle.pageOf (some index) = some page := here
      have other : page ≠ freed := by
        rintro rfl
        exact loose.unheld index there
      show Function.update middle.memory freed default page = s.memory page
      rw [Function.update_of_ne other, drains.memory]

/-- No entry leaves the tree. -/
def Keeps (s next : PageStore Data) : Prop :=
  ∀ index, (s.gptPages index).isSome → (next.gptPages index).isSome

theorem Drains.keeps {s next : PageStore Data} (drains : Drains s next) : Keeps s next := by
  intro index present
  obtain ⟨entry, found⟩ := Option.isSome_iff_exists.mp present
  obtain ⟨still, later, -⟩ := drains.later found
  rw [later]
  rfl

theorem Keeps.update {s next : PageStore Data} (keeps : Keeps s next) (index : Nat)
    (entry : TreeEntry) :
    Keeps s { next with gptPages := Function.update next.gptPages index (some entry) } := by
  intro other present
  by_cases same : other = index
  · subst same
    simp
  · simpa [same] using keeps other present

theorem Inserts.keeps {s next : PageStore Data} {index : Nat} (sound : s.reclaimList.Sound)
    (inserts : Inserts s index next) : Keeps s next := by
  cases inserts with
  | fresh absent alloc => exact (allocates_of_ok sound alloc).drains.keeps.update index _
  | held found filled => exact Keeps.update (fun _ => id) index _
  | refilled found gone alloc still =>
      exact (allocates_of_ok sound alloc).drains.keeps.update index _

theorem InsertsAll.keeps {s next : PageStore Data} {indices : List Nat}
    (sound : s.reclaimList.Sound) (all : InsertsAll s indices next) : Keeps s next := by
  induction all with
  | nil => exact fun _ => id
  | cons inserts tail ih =>
      exact fun index present =>
        ih (inserts.sound sound) index (inserts.keeps sound index present)

theorem FinishesAll.keeps {s next : PageStore Data} {indices : List Nat}
    (all : FinishesAll s indices next) : Keeps s next := by
  induction all with
  | nil => exact fun _ => id
  | @cons s middle next index rest finishes tail ih =>
      have first : Keeps s middle := by
        cases finishes with
        | listed => exact Keeps.update (fun _ => id) index _
        | @queued entry queue found fresh put =>
            have kept : Keeps s { s with reclaimList := queue } := fun _ => id
            exact kept.update index _
        | full => exact Keeps.update (fun _ => id) index _
      exact fun other present => ih other (first other present)

end PageStore

end Valet.Bd
