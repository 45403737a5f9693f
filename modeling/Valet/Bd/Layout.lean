import Valet.Bd.DataPath
import Mathlib.Data.Nat.Bitwise
import Mathlib.Data.List.Nodup

/-!
# Where pages live in the remote blocks

A swapspace is a gigabyte of consecutive pages and lives in one remote block.
The client computes block and offset of an item from its first page, so an item
must lie in one swapspace before it is posted; `request_write` splits the items
that do not.
-/

namespace Valet.Bd

open Valet.Library

/-- The pages of one swapspace. -/
def swapspacePages : Nat := 262144

theorem startOf_eq (index : Nat) : startOf index = index * valetPageSize := by
  unfold startOf sectorsPerPageShift sectorShift valetPageSize
  rw [Nat.shiftLeft_eq]

theorem startOf_swapspace (index : Nat) : startOf index >>> oneGbShift = index / swapspacePages := by
  rw [startOf_eq, Nat.shiftRight_eq_div_pow]
  unfold valetPageSize oneGbShift swapspacePages
  omega

theorem startOf_offset (index : Nat) :
    (startOf index &&& oneGbMask) / valetPageSize = index % swapspacePages := by
  have mask : oneGbMask = 2 ^ 30 - 1 := by decide
  rw [mask, Nat.and_two_pow_sub_one_eq_mod, startOf_eq]
  unfold valetPageSize swapspacePages
  omega

/-- The search stops at the first page beyond the swapspace, or at the end. -/
theorem borderIndex_spec (swapspaceIndex start left border : Nat) :
    border ≤ borderIndex swapspaceIndex start left border ∧
      borderIndex swapspaceIndex start left border ≤ border + left ∧
      (∀ k, border ≤ k → k < borderIndex swapspaceIndex start left border →
        (start + k * valetPageSize) >>> oneGbShift = swapspaceIndex) ∧
      (borderIndex swapspaceIndex start left border < border + left →
        (start + borderIndex swapspaceIndex start left border * valetPageSize) >>> oneGbShift ≠
          swapspaceIndex) := by
  induction left generalizing border with
  | zero =>
      refine ⟨le_refl _, le_refl _, ?_, fun less => absurd less (lt_irrefl _)⟩
      intro k low high
      unfold borderIndex at high
      omega
  | succ left ih =>
      unfold borderIndex
      split
      · rename_i beyond
        exact ⟨le_refl _, by omega, fun k low high => by omega, fun _ same => beyond same.symm⟩
      · rename_i inside
        obtain ⟨low, high, before, after⟩ := ih (border + 1)
        refine ⟨by omega, by omega, ?_, ?_⟩
        · intro k from_ below
          rcases Nat.eq_or_lt_of_le from_ with rfl | later
          · exact (not_not.mp inside).symm
          · exact before k later below
        · intro less
          exact after (by omega)

namespace LocalPageList

/-- An item as `write_to_brd` builds it, and as merging and splitting keep it. -/
structure WellFormed (item : LocalPageList) : Prop where
  batch : item.batchList = List.range' item.startIndex item.len
  nonempty : 0 < item.len
  fits : item.len ≤ rdmaWrBufLen
  inDevice : item.startIndex + item.len ≤ devicePages

/-- All pages of the item are in the swapspace of the first one. -/
def Inside (item : LocalPageList) : Prop :=
  ∀ k, k < item.len → (item.startIndex + k) / swapspacePages = item.startIndex / swapspacePages

theorem swapspaceIndex_eq (item : LocalPageList) :
    item.swapspaceIndex = item.startIndex / swapspacePages := startOf_swapspace _

theorem WellFormed.mem {item : LocalPageList} (wellFormed : item.WellFormed) {index : Nat} :
    index ∈ item.batchList ↔ ∃ k, k < item.len ∧ index = item.startIndex + k := by
  rw [wellFormed.batch, List.mem_range'_1]
  constructor
  · rintro ⟨low, high⟩
    exact ⟨index - item.startIndex, by omega, by omega⟩
  · rintro ⟨k, less, rfl⟩
    omega

theorem boundaryIndex_eq {item : LocalPageList} (nonempty : 0 < item.len) :
    item.boundaryIndex = (item.startIndex + item.len - 1) / swapspacePages := by
  unfold boundaryIndex
  rw [startOf_eq, Nat.shiftRight_eq_div_pow]
  unfold valetPageSize oneGbShift swapspacePages
  omega

theorem inside_of_not_crosses {item : LocalPageList} (nonempty : 0 < item.len)
    (inside : item.crossesBorder = false) : item.Inside := by
  have same : item.swapspaceIndex = item.boundaryIndex := by
    simpa [crossesBorder] using inside
  rw [swapspaceIndex_eq, boundaryIndex_eq nonempty] at same
  intro k less
  unfold swapspacePages at *
  omega

/-- The border of an item that crosses into the next swapspace. -/
theorem border_spec {item : LocalPageList} (nonempty : 0 < item.len)
    (crosses : item.crossesBorder = true) :
    0 < item.border ∧ item.border < item.len ∧
      (∀ k, k < item.border →
        (item.startIndex + k) / swapspacePages = item.startIndex / swapspacePages) ∧
      (item.startIndex + item.border) / swapspacePages ≠ item.startIndex / swapspacePages := by
  have differ : item.swapspaceIndex ≠ item.boundaryIndex := by
    simpa [crossesBorder] using crosses
  rw [swapspaceIndex_eq, boundaryIndex_eq nonempty] at differ
  have place (k : Nat) : (startOf item.startIndex + k * valetPageSize) >>> oneGbShift =
      (item.startIndex + k) / swapspacePages := by
    rw [← startOf_swapspace, startOf_eq, startOf_eq, Nat.add_mul]
  obtain ⟨_, high, before, after⟩ :=
    borderIndex_spec item.swapspaceIndex (startOf item.startIndex) item.len 0
  simp only [place, swapspaceIndex_eq, Nat.zero_add] at high before after
  have same : item.border = borderIndex (item.startIndex / swapspacePages)
      (startOf item.startIndex) item.len 0 := by
    rw [border, swapspaceIndex_eq]
  rw [same]
  have less : borderIndex (item.startIndex / swapspacePages)
      (startOf item.startIndex) item.len 0 < item.len := by
    by_contra all
    have last := before (item.len - 1) (Nat.zero_le _) (by omega)
    rw [← Nat.add_sub_assoc nonempty] at last
    exact differ last.symm
  refine ⟨?_, less, fun k below => before k (Nat.zero_le _) below, after less⟩
  by_contra zero
  have first := after less
  rw [Nat.eq_zero_of_not_pos zero, Nat.add_zero] at first
  exact first rfl

theorem firstHalf_len {item : LocalPageList} (bound : item.border ≤ item.len) :
    item.firstHalf.len = item.border := by
  unfold firstHalf len at *
  rw [List.length_take, Nat.min_eq_left bound]

theorem secondHalf_len (item : LocalPageList) :
    item.secondHalf.len = item.len - item.border := by
  unfold secondHalf len
  rw [List.length_drop]

/-- Each half of an item that crosses a border is in one swapspace. -/
theorem firstHalf_inside {item : LocalPageList} (nonempty : 0 < item.len)
    (crosses : item.crossesBorder = true) : item.firstHalf.Inside := by
  obtain ⟨_, less, before, _⟩ := border_spec nonempty crosses
  intro k below
  rw [firstHalf_len (le_of_lt less)] at below
  exact before k below

theorem secondHalf_inside {item : LocalPageList} (nonempty : 0 < item.len)
    (fits : item.len ≤ rdmaWrBufLen) (crosses : item.crossesBorder = true) :
    item.secondHalf.Inside := by
  obtain ⟨positive, less, before, beyond⟩ := border_spec nonempty crosses
  intro k below
  rw [secondHalf_len] at below
  show (item.startIndex + item.border + k) / swapspacePages =
    (item.startIndex + item.border) / swapspacePages
  have last := before (item.border - 1) (by omega)
  unfold swapspacePages rdmaWrBufLen at *
  omega

theorem firstHalf_wellFormed {item : LocalPageList} (wellFormed : item.WellFormed)
    (crosses : item.crossesBorder = true) :
    item.firstHalf.WellFormed ∧ item.firstHalf.Inside := by
  obtain ⟨positive, less, _, _⟩ := border_spec wellFormed.nonempty crosses
  have len := firstHalf_len (le_of_lt less)
  have fits := wellFormed.fits
  have inDevice := wellFormed.inDevice
  refine ⟨⟨?_, by omega, by omega, ?_⟩, firstHalf_inside wellFormed.nonempty crosses⟩
  · rw [len]
    show item.batchList.take item.border = List.range' item.startIndex item.border
    rw [wellFormed.batch, List.take_range'_of_length_ge (le_of_lt less)]
  · rw [len]
    show item.startIndex + item.border ≤ devicePages
    omega

theorem secondHalf_wellFormed {item : LocalPageList} (wellFormed : item.WellFormed)
    (crosses : item.crossesBorder = true) :
    item.secondHalf.WellFormed ∧ item.secondHalf.Inside := by
  obtain ⟨positive, less, _, _⟩ := border_spec wellFormed.nonempty crosses
  have len := secondHalf_len item
  have fits := wellFormed.fits
  have inDevice := wellFormed.inDevice
  refine ⟨⟨?_, by omega, by omega, ?_⟩, secondHalf_inside wellFormed.nonempty fits crosses⟩
  · rw [len]
    show item.batchList.drop item.border =
      List.range' (item.startIndex + item.border) (item.len - item.border)
    rw [wellFormed.batch, List.drop_range', Nat.mul_one]
  · rw [len]
    show item.startIndex + item.border + (item.len - item.border) ≤ devicePages
    omega

theorem merged_wellFormed {first item : LocalPageList} (wellFormed : first.WellFormed)
    (other : item.WellFormed) (contiguous : item.startIndex = first.startIndex + first.len)
    (fits : first.len + item.len ≤ rdmaWrBufLen) :
    LocalPageList.WellFormed { first with batchList := first.batchList ++ item.batchList } := by
  have len : LocalPageList.len { first with batchList := first.batchList ++ item.batchList } =
      first.len + item.len := List.length_append
  have nonempty := wellFormed.nonempty
  have inDevice := other.inDevice
  refine ⟨?_, by omega, by omega, ?_⟩
  · rw [len]
    show first.batchList ++ item.batchList =
      List.range' first.startIndex (first.len + item.len)
    rw [wellFormed.batch, other.batch, contiguous, List.range'_append_1]
  · rw [len]
    show first.startIndex + (first.len + item.len) ≤ devicePages
    omega

end LocalPageList

/-- Every swapspace is mapped to a block of its own. -/
structure Placement (servers : Nat) where
  block : Nat → Fin servers × Nat
  distinct : ∀ first second, first < swapspaceSizeG → second < swapspaceSizeG →
    block first = block second → first = second

namespace Placement

variable {servers : Nat} (placement : Placement servers)

/-- All blocks are active and all posts succeed. -/
def targets (swapspaceIndex : Nat) : Option (Target servers) :=
  some ⟨(placement.block swapspaceIndex).1, (placement.block swapspaceIndex).2, .active, true⟩

/-- The server of a page. -/
def cbOf (index : Nat) : Fin servers := (placement.block (index / swapspacePages)).1

/-- The block of a page on its server, and the place in the block. -/
def addrOf (index : Nat) : Nat × Nat :=
  ((placement.block (index / swapspacePages)).2, index % swapspacePages)

theorem addr_injective {first second : Nat} (inDevice : first < devicePages)
    (otherInDevice : second < devicePages) (sameCb : placement.cbOf first = placement.cbOf second)
    (sameAddr : placement.addrOf first = placement.addrOf second) : first = second := by
  have block : placement.block (first / swapspacePages) =
      placement.block (second / swapspacePages) :=
    Prod.ext sameCb (congrArg Prod.fst sameAddr)
  have offset : first % swapspacePages = second % swapspacePages := congrArg Prod.snd sameAddr
  have bound (index : Nat) (inDevice : index < devicePages) :
      index / swapspacePages < swapspaceSizeG := by
    unfold devicePages at inDevice
    unfold swapspacePages swapspaceSizeG
    omega
  have swapspace := placement.distinct _ _ (bound first inDevice) (bound second otherInDevice) block
  unfold swapspacePages at *
  omega

theorem targets_eq (swapspaceIndex : Nat) : placement.targets swapspaceIndex =
    some ⟨(placement.block swapspaceIndex).1, (placement.block swapspaceIndex).2,
      .active, true⟩ := rfl

end Placement

namespace Machine

variable {servers : Nat} {Data : Type}

theorem fillBuf_before (store : PageStore Data) (buf : Nat → Data) {i j : Nat}
    (batch : List Nat) (before : j < i) : fillBuf store buf i batch j = buf j := by
  induction batch generalizing buf i with
  | nil => rfl
  | cons entry rest ih =>
      unfold fillBuf
      cases store.pageOf (some entry) with
      | none => exact ih buf (Nat.lt_succ_of_lt before)
      | some page =>
          dsimp only
          rw [ih _ (Nat.lt_succ_of_lt before), Function.update_of_ne (Nat.ne_of_lt before)]

/-- The copy loop puts the pages of the batch side by side. -/
theorem fillBuf_at {store : PageStore Data} {buf : Nat → Data} {i k page entry : Nat}
    {batch : List Nat} (listed : batch[k]? = some entry)
    (here : store.pageOf (some entry) = some page) :
    fillBuf store buf i batch (i + k) = store.memory page := by
  induction batch generalizing buf i k with
  | nil => simp at listed
  | cons first rest ih =>
      unfold fillBuf
      cases k with
      | zero =>
          simp only [List.getElem?_cons_zero, Option.some.injEq] at listed
          subst listed
          rw [here]
          dsimp only
          show fillBuf store _ (i + 1) rest i = _
          rw [fillBuf_before store _ rest (Nat.lt_succ_self i), Function.update_self]
      | succ k =>
          rw [List.getElem?_cons_succ] at listed
          have shift : i + (k + 1) = i + 1 + k := by omega
          rw [shift]
          cases store.pageOf (some first) with
          | none => exact ih listed
          | some _ => exact ih listed

variable (placement : Placement servers) {item : LocalPageList}

/-- The context that `rdma_write` posts for an item. -/
def itemCtx (store : PageStore Data) (ctx : RdmaCtx servers Data) (placement : Placement servers)
    (item : LocalPageList) : RdmaCtx servers Data :=
  loadCtx store ctx
    ⟨(placement.block item.swapspaceIndex).1, (placement.block item.swapspaceIndex).2, .active, true⟩
    item.rbOffset item

theorem mem_cells {ctx : RdmaCtx servers Data} {rbIndex : Nat} {addr : Nat × Nat} {value : Data} :
    (addr, value) ∈ cells ctx rbIndex ↔ ∃ k, k < ctx.len / valetPageSize ∧
      addr = (rbIndex, ctx.offset / valetPageSize + k) ∧ value = ctx.rdmaBuf k := by
  unfold cells
  simp only [List.mem_map, List.mem_range, Prod.mk.injEq]
  constructor
  · rintro ⟨k, less, rfl, rfl⟩
    exact ⟨k, less, rfl, rfl⟩
  · rintro ⟨k, less, rfl, rfl⟩
    exact ⟨k, less, rfl, rfl⟩

theorem cells_distinct (ctx : RdmaCtx servers Data) (rbIndex : Nat) :
    ((cells ctx rbIndex).map Prod.fst).Nodup := by
  unfold cells
  rw [List.map_map]
  apply List.Nodup.map
  · intro first second same
    simp only [Function.comp_apply, Prod.mk.injEq, true_and] at same
    omega
  · exact List.nodup_range

/-- The cells of an item in one swapspace are the places of its pages. -/
theorem itemCtx_addr (inside : item.Inside) {k : Nat}
    (less : k < item.len) :
    (placement.cbOf (item.startIndex + k) = (placement.block item.swapspaceIndex).1) ∧
      placement.addrOf (item.startIndex + k) = ((placement.block item.swapspaceIndex).2,
        item.rbOffset / valetPageSize + k) := by
  have same := inside k less
  have offset : item.rbOffset / valetPageSize = item.startIndex % swapspacePages :=
    startOf_offset _
  unfold Placement.cbOf Placement.addrOf
  rw [same, LocalPageList.swapspaceIndex_eq, offset]
  refine ⟨rfl, ?_⟩
  rw [Prod.mk.injEq]
  refine ⟨rfl, ?_⟩
  unfold swapspacePages at *
  omega

theorem itemCtx_len (store : PageStore Data) (ctx : RdmaCtx servers Data) :
    (itemCtx store ctx placement item).len / valetPageSize = item.len :=
  Nat.mul_div_cancel _ (by decide)

/-- Posting an item writes its pages, as they are now, to their places. -/
theorem store_item {store : PageStore Data} {ctx : RdmaCtx servers Data}
    (wellFormed : item.WellFormed) (inside : item.Inside) {index page : Nat}
    (listed : index ∈ item.batchList) (here : store.pageOf (some index) = some page)
    (memory : Nat × Nat → Data) :
    Library.store memory (cells (itemCtx store ctx placement item)
      (placement.block item.swapspaceIndex).2) (placement.addrOf index) = store.memory page := by
  obtain ⟨k, less, rfl⟩ := wellFormed.mem.mp listed
  apply store_of_mem (cells_distinct _ _)
  refine mem_cells.mpr ⟨k, ?_, (itemCtx_addr placement inside less).2, ?_⟩
  · rw [itemCtx_len]
    exact less
  · have at_ : item.batchList[k]? = some (item.startIndex + k) := by
      rw [wellFormed.batch, List.getElem?_range' less, Nat.one_mul]
    have filled : fillBuf store ctx.rdmaBuf 0 item.batchList (0 + k) = store.memory page :=
      fillBuf_at at_ here
    rw [Nat.zero_add] at filled
    exact filled.symm

/-- Posting an item leaves the places of all other pages alone. -/
theorem store_item_other {store : PageStore Data} {ctx : RdmaCtx servers Data}
    (wellFormed : item.WellFormed) (inside : item.Inside) {index : Nat}
    (inDevice : index < devicePages) (sameCb : placement.cbOf index =
      (placement.block item.swapspaceIndex).1) (unlisted : index ∉ item.batchList)
    (memory : Nat × Nat → Data) :
    Library.store memory (cells (itemCtx store ctx placement item)
      (placement.block item.swapspaceIndex).2) (placement.addrOf index) =
        memory (placement.addrOf index) := by
  apply store_of_not_mem
  intro value member
  obtain ⟨k, less, isAddr, _⟩ := mem_cells.mp member
  rw [itemCtx_len] at less
  obtain ⟨cb, addr⟩ := itemCtx_addr placement inside less
  have bound := wellFormed.inDevice
  apply unlisted
  refine wellFormed.mem.mpr ⟨k, less, ?_⟩
  exact placement.addr_injective inDevice (by omega) (sameCb.trans cb.symm)
    (isAddr.trans addr.symm)

end Machine

end Valet.Bd
