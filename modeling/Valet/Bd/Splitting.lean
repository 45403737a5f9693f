import Valet.Bd.DataSteps
import Valet.Bd.Layout
import Valet.Library.WordBitmap

/-!
# Splitting at the borders of the swapspaces

`request_write` hands an item to `rdma_write` as a whole, or in two halves when
it crosses into the next swapspace.  Here the calls of `rdma_write` are listed
and compared with the places where the pages of the item belong.  The entries
of an item are arbitrary.
-/

namespace Valet.Bd

open Valet.Library

/-- `BITMAP_SHIFT`. -/
def bitmapShift : Nat := 5

/-- The words of `bitmap_g`. -/
abbrev BitmapWords := Nat → BitVec (2 ^ bitmapShift)

/-- `valet_bitmap_group_set`. -/
def valetBitmapGroupSet (bitmap : BitmapWords) (offset len : Nat) : BitmapWords :=
  setBits bitmap (offset / valetPageSize) (len / valetPageSize)

/-- `valet_bitmap_test`. -/
def valetBitmapTest (bitmap : BitmapWords) (i : Nat) : Bool := testBit bitmap i

theorem valetBitmapTest_groupSet (bitmap : BitmapWords) (offset len page : Nat) :
    valetBitmapTest (valetBitmapGroupSet bitmap offset len) page =
      Machine.bitmapGroupSet (valetBitmapTest bitmap) offset len page := by
  unfold valetBitmapTest valetBitmapGroupSet Machine.bitmapGroupSet
  rw [testBit_setBits, Bool.decide_and]

/-- A call of `rdma_write`. -/
structure RdmaWriteCall where
  swapspaceIndex : Nat
  offset : Nat
  item : LocalPageList

/-- Pages from `offset` on, with the entry of each. -/
def writtenFrom (swapspaceIndex : Nat) : Nat → List Nat → List (Nat × Nat × Nat)
  | _, [] => []
  | offset, entry :: rest =>
      (swapspaceIndex, offset, entry) :: writtenFrom swapspaceIndex (offset + valetPageSize) rest

/-- The places of the pages from `index` on: swapspace and byte offset, with the entry of each. -/
def placesFrom : Nat → List Nat → List (Nat × Nat × Nat)
  | _, [] => []
  | index, entry :: rest =>
      (index / swapspacePages, index % swapspacePages * valetPageSize, entry) ::
        placesFrom (index + 1) rest

/-- The remote write puts the pages of the buffer side by side. -/
def RdmaWriteCall.written (call : RdmaWriteCall) : List (Nat × Nat × Nat) :=
  writtenFrom call.swapspaceIndex call.offset call.item.batchList

def LocalPageList.places (item : LocalPageList) : List (Nat × Nat × Nat) :=
  placesFrom item.startIndex item.batchList

/-- The calls that `request_write` makes while they succeed. -/
def LocalPageList.calls (tmp : LocalPageList) : List RdmaWriteCall :=
  if tmp.crossesBorder then
    [⟨tmp.secondHalf.swapspaceIndex, tmp.secondHalf.rbOffset, tmp.secondHalf⟩,
      ⟨tmp.swapspaceIndex, tmp.rbOffset, tmp.firstHalf⟩]
  else
    [⟨tmp.swapspaceIndex, tmp.rbOffset, tmp⟩]

/-- One or two calls, each inside one swapspace, write every page of the item once, at its place
and from its entry, and mark the bits of these pages. -/
structure SplitsExactly (tmp : LocalPageList) (calls : List RdmaWriteCall) : Prop where
  count : calls.length = 1 ∨ calls.length = 2
  inDevice : ∀ call ∈ calls, call.swapspaceIndex < swapspaceSizeG
  inside : ∀ call ∈ calls, call.offset + valetPageSize * call.item.len ≤ 2 ^ oneGbShift
  written : (calls.flatMap RdmaWriteCall.written).Perm tmp.places
  marked : ∀ call ∈ calls, ∀ bitmap page,
    valetBitmapTest (valetBitmapGroupSet bitmap call.offset (call.item.len * valetPageSize)) page =
        true ↔
      valetBitmapTest bitmap page = true ∨
        ∃ entry, (call.swapspaceIndex, page * valetPageSize, entry) ∈ call.written

namespace Machine

variable {cpus servers : Nat} {Data Req : Type}

/-- The swapspace has a block that takes writes, and the post succeeds. -/
def TakesWrite (target : Option (Target servers)) : Prop :=
  ∃ block, target = some block ∧ ¬ block.rbState.code ≥ RemoteBlockState.readonly.code ∧
    block.postOk = true

/-- The calls are posted in order. -/
inductive PostsAll (targets : Nat → Option (Target servers)) :
    Machine cpus servers Data Req → List RdmaWriteCall → Machine cpus servers Data Req → Prop where
  | nil (m : Machine cpus servers Data Req) : PostsAll targets m [] m
  | cons {m last : Machine cpus servers Data Req} {call : RdmaWriteCall} {rest : List RdmaWriteCall}
      {block : Target servers} {ctx : RdmaCtx servers Data} {free : List (RdmaCtx servers Data)}
      (found : targets call.swapspaceIndex = some block) (top : m.writeFreepool = ctx :: free)
      (tail : PostsAll targets { m with
          writeFreepool := free
          conns := Function.update m.conns block.cb ((m.conns block.cb).post
            (.write (cells (loadCtx m.store ctx block call.offset call.item) block.rbIndex)
              (loadCtx m.store ctx block call.offset call.item))) } rest last) :
      PostsAll targets m (call :: rest) last

/-- What a call writes is what its context holds: the page of the entry at its place. -/
def Fills {Data : Type} (servers : Nat) (store : PageStore Data) (call : RdmaWriteCall) : Prop :=
  ∀ (ctx : RdmaCtx servers Data) (block : Target servers) (offset entry page : Nat),
    (call.swapspaceIndex, offset, entry) ∈ call.written →
      store.pageOf (some entry) = some page →
        ((block.rbIndex, offset / valetPageSize), store.memory page) ∈
          cells (loadCtx store ctx block call.offset call.item) block.rbIndex

end Machine

/-! ## The places -/

theorem placesFrom_append (index : Nat) (batch more : List Nat) :
    placesFrom index (batch ++ more) =
      placesFrom index batch ++ placesFrom (index + batch.length) more := by
  induction batch generalizing index with
  | nil => rfl
  | cons entry rest ih =>
      rw [List.cons_append, placesFrom, placesFrom, ih, List.cons_append, List.length_cons,
        Nat.add_assoc, Nat.add_comm 1]

/-- Pages of one swapspace that are written side by side are at their places. -/
theorem writtenFrom_eq {swapspaceIndex index : Nat} {batch : List Nat}
    (inside : ∀ k, k < batch.length → (index + k) / swapspacePages = swapspaceIndex) :
    writtenFrom swapspaceIndex (index % swapspacePages * valetPageSize) batch =
      placesFrom index batch := by
  induction batch generalizing index with
  | nil => rfl
  | cons entry rest ih =>
      have here : index / swapspacePages = swapspaceIndex := inside 0 (Nat.zero_lt_succ _)
      rw [writtenFrom, placesFrom, here]
      cases rest with
      | nil => rfl
      | cons next rest =>
          have second : (index + 1) / swapspacePages = swapspaceIndex :=
            inside 1 (by simp)
          have offset : index % swapspacePages * valetPageSize + valetPageSize =
              (index + 1) % swapspacePages * valetPageSize := by
            unfold swapspacePages valetPageSize at *
            omega
          rw [offset, ih]
          intro k less
          rw [Nat.add_assoc, Nat.add_comm 1]
          exact inside (k + 1) (Nat.succ_lt_succ less)

theorem mem_writtenFrom {swapspaceIndex offset at_ entry swapspace : Nat} {batch : List Nat} :
    (swapspace, at_, entry) ∈ writtenFrom swapspaceIndex offset batch ↔
      swapspace = swapspaceIndex ∧ ∃ k, batch[k]? = some entry ∧
        at_ = offset + k * valetPageSize := by
  induction batch generalizing offset with
  | nil => simp [writtenFrom]
  | cons first rest ih =>
      rw [writtenFrom, List.mem_cons, ih, Prod.mk.injEq, Prod.mk.injEq]
      constructor
      · rintro (⟨rfl, rfl, rfl⟩ | ⟨rfl, k, listed, rfl⟩)
        · exact ⟨rfl, 0, rfl, by rw [Nat.zero_mul, Nat.add_zero]⟩
        · refine ⟨rfl, k + 1, listed, ?_⟩
          rw [Nat.add_mul, Nat.one_mul]
          omega
      · rintro ⟨rfl, k, listed, rfl⟩
        cases k with
        | zero =>
            left
            rw [List.getElem?_cons_zero, Option.some.injEq] at listed
            exact ⟨rfl, by rw [Nat.zero_mul, Nat.add_zero], listed.symm⟩
        | succ k =>
            right
            refine ⟨rfl, k, listed, ?_⟩
            rw [Nat.add_mul, Nat.one_mul]
            omega

namespace LocalPageList

variable {item : LocalPageList}

theorem rbOffset_eq (item : LocalPageList) :
    item.rbOffset = item.startIndex % swapspacePages * valetPageSize := by
  have mask : oneGbMask = 2 ^ 30 - 1 := by decide
  rw [rbOffset, mask, Nat.and_two_pow_sub_one_eq_mod, startOf_eq]
  unfold valetPageSize swapspacePages
  omega

/-- The call for an item that lies in one swapspace. -/
def call (item : LocalPageList) : RdmaWriteCall := ⟨item.swapspaceIndex, item.rbOffset, item⟩

theorem calls_eq (tmp : LocalPageList) : tmp.calls =
    if tmp.crossesBorder then [tmp.secondHalf.call, tmp.firstHalf.call] else [tmp.call] := rfl

theorem call_written (inside : item.Inside) : item.call.written = item.places := by
  have offset : item.call.offset = item.startIndex % swapspacePages * valetPageSize :=
    rbOffset_eq item
  rw [RdmaWriteCall.written, offset]
  exact writtenFrom_eq fun k less => (inside k less).trans (swapspaceIndex_eq item).symm

theorem call_inDevice (inDevice : item.startIndex + item.len ≤ devicePages)
    (nonempty : 0 < item.len) : item.call.swapspaceIndex < swapspaceSizeG := by
  show item.swapspaceIndex < swapspaceSizeG
  rw [swapspaceIndex_eq]
  unfold devicePages at inDevice
  unfold swapspacePages swapspaceSizeG
  omega

theorem call_inside (inside : item.Inside) (nonempty : 0 < item.len) :
    item.call.offset + valetPageSize * item.call.item.len ≤ 2 ^ oneGbShift := by
  have last := inside (item.len - 1) (by omega)
  show item.rbOffset + valetPageSize * item.len ≤ 2 ^ oneGbShift
  rw [rbOffset_eq]
  unfold valetPageSize swapspacePages oneGbShift at *
  omega

/-- The completion of a call marks the pages that it wrote. -/
theorem call_marked (item : LocalPageList) (bitmap : BitmapWords) (page : Nat) :
    valetBitmapTest (valetBitmapGroupSet bitmap item.call.offset
        (item.call.item.len * valetPageSize)) page = true ↔
      valetBitmapTest bitmap page = true ∨
        ∃ entry, (item.call.swapspaceIndex, page * valetPageSize, entry) ∈ item.call.written := by
  have offset : item.call.offset = item.startIndex % swapspacePages * valetPageSize :=
    rbOffset_eq item
  have positive : 0 < valetPageSize := by decide
  rw [valetBitmapTest_groupSet, Machine.bitmapGroupSet, Bool.or_eq_true, or_comm, Bool.and_eq_true,
    decide_eq_true_iff, decide_eq_true_iff, offset, Nat.mul_div_cancel _ positive,
    Nat.mul_div_cancel _ positive]
  apply or_congr_right
  constructor
  · rintro ⟨low, high⟩
    have less : page - item.startIndex % swapspacePages < item.batchList.length := by
      have len : item.call.item.len = item.batchList.length := rfl
      omega
    refine ⟨item.batchList[page - item.startIndex % swapspacePages], mem_writtenFrom.mpr
      ⟨rfl, page - item.startIndex % swapspacePages, List.getElem?_eq_getElem less, ?_⟩⟩
    rw [offset, ← Nat.add_mul, Nat.add_sub_cancel' low]
  · rintro ⟨entry, member⟩
    obtain ⟨_, k, listed, at_⟩ := mem_writtenFrom.mp member
    rw [offset, ← Nat.add_mul] at at_
    have same := Nat.eq_of_mul_eq_mul_right positive at_
    obtain ⟨less, _⟩ := List.getElem?_eq_some_iff.mp listed
    have len : item.call.item.len = item.batchList.length := rfl
    have batch : item.call.item.batchList = item.batchList := rfl
    rw [batch] at less
    omega

/-- The calls of an item split it exactly. -/
theorem splitsExactly (nonempty : 0 < item.len) (fits : item.len ≤ rdmaWrBufLen)
    (inDevice : item.startIndex + item.len ≤ devicePages) : SplitsExactly item item.calls := by
  rw [calls_eq]
  cases crosses : item.crossesBorder with
  | false =>
      have inside := inside_of_not_crosses nonempty crosses
      refine ⟨Or.inl rfl, ?_, ?_, ?_, ?_⟩
      · intro call member
        cases List.mem_singleton.mp member
        exact call_inDevice inDevice nonempty
      · intro call member
        cases List.mem_singleton.mp member
        exact call_inside inside nonempty
      · show (item.call.written ++ []).Perm item.places
        rw [List.append_nil, call_written inside]
      · intro call member
        cases List.mem_singleton.mp member
        exact call_marked item
  | true =>
      obtain ⟨positive, less, _, _⟩ := border_spec nonempty crosses
      have firstInside := firstHalf_inside nonempty crosses
      have secondInside := secondHalf_inside nonempty fits crosses
      have firstLen := firstHalf_len (le_of_lt less)
      have secondLen := secondHalf_len item
      have secondStart : item.secondHalf.startIndex = item.startIndex + item.border := rfl
      have firstStart : item.firstHalf.startIndex = item.startIndex := rfl
      refine ⟨Or.inr rfl, ?_, ?_, ?_, ?_⟩
      · intro call member
        rcases List.mem_pair.mp member with rfl | rfl
        · exact call_inDevice (by omega) (by omega)
        · exact call_inDevice (by omega) (by omega)
      · intro call member
        rcases List.mem_pair.mp member with rfl | rfl
        · exact call_inside secondInside (by omega)
        · exact call_inside firstInside (by omega)
      · show (item.secondHalf.call.written ++ (item.firstHalf.call.written ++ [])).Perm item.places
        rw [List.append_nil, call_written secondInside, call_written firstInside]
        have whole : item.places = item.firstHalf.places ++ item.secondHalf.places := by
          have halves := placesFrom_append item.startIndex (item.batchList.take item.border)
            (item.batchList.drop item.border)
          have taken : (item.batchList.take item.border).length = item.border := firstLen
          rw [List.take_append_drop, taken] at halves
          exact halves
        rw [whole]
        exact List.perm_append_comm
      · intro call member
        rcases List.mem_pair.mp member with rfl | rfl
        · exact call_marked item.secondHalf
        · exact call_marked item.firstHalf

end LocalPageList

namespace Machine

variable {cpus servers : Nat} {Data Req : Type} {m next : Machine cpus servers Data Req}
  {targets : Nat → Option (Target servers)}

/-- A call that the swapspace takes is posted. -/
theorem RdmaWrites.postsCall {failed : Bool} (call : RdmaWriteCall)
    (takes : TakesWrite (targets call.swapspaceIndex))
    (writes : RdmaWrites m (targets call.swapspaceIndex) call.offset call.item failed next) :
    failed = false ∧ ∀ {rest : List RdmaWriteCall} {last : Machine cpus servers Data Req},
      PostsAll targets next rest last → PostsAll targets m (call :: rest) last := by
  obtain ⟨block, found, writable, ok⟩ := takes
  generalize isTarget : targets call.swapspaceIndex = target at writes
  cases writes with
  | refused noCb =>
      rw [isTarget, noCb] at found
      cases found
  | @bounced other queue isOther readonly put =>
      rw [isTarget, isOther] at found
      cases found
      exact absurd readonly writable
  | failed isOther otherWritable error free =>
      rw [isTarget, isOther] at found
      cases found
      rw [ok] at error
      cases error
  | sent isOther otherWritable otherOk free =>
      exact ⟨rfl, fun tail => .cons (isTarget.trans isOther) free tail⟩

theorem fills_of_posted (store : PageStore Data) (item : LocalPageList) :
    Fills servers store item.call := by
  intro ctx block offset entry page member here
  obtain ⟨_, k, listed, rfl⟩ := mem_writtenFrom.mp member
  have positive : 0 < valetPageSize := by decide
  obtain ⟨less, _⟩ := List.getElem?_eq_some_iff.mp listed
  refine mem_cells.mpr ⟨k, ?_, ?_, ?_⟩
  · show k < item.len * valetPageSize / valetPageSize
    rw [Nat.mul_div_cancel _ positive]
    exact less
  · show _ = (block.rbIndex, item.call.offset / valetPageSize + k)
    rw [Nat.add_mul_div_right _ _ positive]
  · have filled : fillBuf store ctx.rdmaBuf 0 item.batchList (0 + k) = store.memory page :=
      fillBuf_at listed here
    rw [Nat.zero_add] at filled
    exact filled.symm

/-- When its calls of `rdma_write` succeed, `request_write` posts every page of the item once, to
its place and from its entry, and the completions mark the bits of these pages. -/
theorem requestWrite_exact {tmp item : LocalPageList} {failed : Bool} (nonempty : 0 < tmp.len)
    (fits : tmp.len ≤ rdmaWrBufLen)
    (inDevice : tmp.startIndex + tmp.len ≤ swapspaceSizeG * swapspacePages)
    (succeed : ∀ call ∈ tmp.calls, TakesWrite (targets call.swapspaceIndex))
    (ran : m.requestWrite targets tmp = .ok (failed, item, next)) :
    failed = false ∧ PostsAll targets m tmp.calls next ∧ SplitsExactly tmp tmp.calls ∧
      ∀ call ∈ tmp.calls, Fills servers m.store call := by
  have exact_ := LocalPageList.splitsExactly nonempty fits inDevice
  rw [LocalPageList.calls_eq] at succeed exact_ ⊢
  cases requestsWrite_of_ok ran with
  | whole inside writes =>
      rw [inside] at succeed exact_ ⊢
      obtain ⟨ok, posts⟩ := writes.postsCall tmp.call
        (succeed _ (List.mem_singleton_self _))
      refine ⟨ok, posts (.nil _), exact_, ?_⟩
      intro call member
      cases List.mem_singleton.mp member
      exact fills_of_posted m.store tmp
  | lost crosses second =>
      rw [crosses] at succeed
      obtain ⟨bad, _⟩ := second.postsCall tmp.secondHalf.call
        (succeed _ List.mem_cons_self)
      cases bad
  | halves crosses second first =>
      rw [crosses] at succeed exact_ ⊢
      obtain ⟨_, posts⟩ := second.postsCall tmp.secondHalf.call
        (succeed _ List.mem_cons_self)
      obtain ⟨ok, more⟩ := first.postsCall tmp.firstHalf.call
        (succeed _ (List.mem_cons_of_mem _ List.mem_cons_self))
      refine ⟨ok, posts (more (.nil _)), exact_, ?_⟩
      intro call member
      rcases List.mem_pair.mp member with rfl | rfl
      · exact fills_of_posted m.store tmp.secondHalf
      · exact fills_of_posted m.store tmp.firstHalf

theorem requestWrite_exact_crossing : ∃ (item : LocalPageList) (next : Machine 1 1 Nat Nat),
    (init 1 AlfQueue.maxPoolPages 4 4).requestWrite (fun _ => some ⟨0, 0, .active, true⟩)
        ⟨262143, [7, 9], 0⟩ = .ok (false, item, next) ∧
      SplitsExactly ⟨262143, [7, 9], 0⟩ (LocalPageList.calls ⟨262143, [7, 9], 0⟩) := by
  have ran : ((init 1 AlfQueue.maxPoolPages 4 4 : Machine 1 1 Nat Nat).requestWrite
      (fun _ => some ⟨0, 0, .active, true⟩) ⟨262143, [7, 9], 0⟩).toOption.isSome = true := by
    decide +kernel
  obtain ⟨⟨failed, item, next⟩, ended⟩ := Option.isSome_iff_exists.mp ran
  have ended := toOption_eq_some ended
  obtain ⟨rfl, _, exact_, _⟩ := requestWrite_exact (by decide) (by decide) (by decide)
    (fun _ _ => ⟨_, rfl, by decide, rfl⟩) ended
  exact ⟨item, next, ended, exact_⟩

end Machine

end Valet.Bd
