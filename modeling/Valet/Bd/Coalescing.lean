import Valet.Bd.SenderRounds

/-!
# Coalescing in `remote_sender_fn`

The loop of `remote_sender_fn` on the memory of the items: the sending list
holds pointers, merging copies entries from array to array and frees the item
that was copied.  A log records every copied entry, every freed item and every
item as `request_write` receives it.
-/

namespace Valet.Bd

open Valet.Library

/-- A `struct local_page_list` with its array. -/
structure ItemBuf where
  startIndex : Nat
  len : Nat
  batchList : Nat → Nat
  refCount : Nat

/-- What the loop does that others can see. -/
inductive SenderEvent where
  | copied (tmp i first j : Nat)
  | freed (ptr : Nat)
  | requested (ptr : Nat) (item : ItemBuf)

/-- The state of the loop at the head of a turn; a pointer without an item is one that was freed
or handed over. -/
structure Coalescer where
  pool : ValetPagePool Nat
  items : Nat → Option ItemBuf
  tmpFirst : Option Nat
  mustGo : Bool
  log : List SenderEvent

/-- How a turn ends. -/
inductive Progress where
  | returned (s : Coalescer)
  | again (s : Coalescer)

namespace ItemBuf

/-- The pages that the item lists, with the entry of each. -/
def pages (item : ItemBuf) : List (Nat × Nat) :=
  (List.range item.len).map fun i => (item.startIndex + i, item.batchList i)

/-- The item without the rest of its array. -/
def toItem (item : ItemBuf) : LocalPageList where
  startIndex := item.startIndex
  batchList := (List.range item.len).map item.batchList
  refCount := item.refCount

end ItemBuf

/-- The pages of an item with their entries, in order. -/
def LocalPageList.pages (item : LocalPageList) : List (Nat × Nat) :=
  (item.batchList.zipIdx item.startIndex).map Prod.swap

/-- The items that `request_write` received. -/
def requestedOf : List SenderEvent → List ItemBuf
  | [] => []
  | .requested _ item :: rest => item :: requestedOf rest
  | .copied _ _ _ _ :: rest => requestedOf rest
  | .freed _ :: rest => requestedOf rest

namespace Coalescer

/-- `*ptr`. -/
def deref (s : Coalescer) (ptr : Nat) : Except Halt ItemBuf :=
  match s.items ptr with
  | none => .error .oops
  | some item => .ok item

/-- The loop that copies the entries of `tmp` from `i` on to those of `tmp_first` from `j` on. -/
def copyBatch (tmp first : Nat) (source : Nat → Nat) :
    Nat → Nat → Nat → (Nat → Nat) → List SenderEvent → Except Halt ((Nat → Nat) × List SenderEvent)
  | 0, _, _, batch, log => .ok (batch, log)
  | left + 1, i, j, batch, log =>
      if i < rdmaWrBufLen ∧ j < rdmaWrBufLen then
        copyBatch tmp first source left (i + 1) (j + 1) (Function.update batch j (source i))
          (log ++ [.copied tmp i first j])
      else
        .error .oops

/-- `put_free_item`. -/
def putFreeItem (s : Coalescer) (ptr : Nat) : Coalescer :=
  { s with items := Function.update s.items ptr none, log := s.log ++ [.freed ptr] }

/-- `tmp` is merged into `tmp_first` and released. -/
def mergeItems (s : Coalescer) (first tmp : Nat) (firstItem tmpItem : ItemBuf) :
    Except Halt Coalescer := do
  let (batch, log) ← copyBatch tmp first tmpItem.batchList tmpItem.len 0 firstItem.len
    firstItem.batchList s.log
  let merged := { firstItem with batchList := batch, len := firstItem.len + tmpItem.len }
  return putFreeItem { s with items := Function.update s.items first (some merged), log := log } tmp

/-- `request_write` takes the item over, or fails and leaves something of it. -/
def requestWrite (s : Coalescer) (ptr : Nat) (left : Option ItemBuf) :
    Except Halt (Bool × Coalescer) := do
  let item ← s.deref ptr
  return (left.isSome,
    { s with items := Function.update s.items ptr left, log := s.log ++ [.requested ptr item] })

/-- From the label `send` on; what is left of an item is put back. -/
def send (s : Coalescer) (ptr : Nat) (left : Option ItemBuf) : Except Halt Coalescer := do
  let (failed, s) ← s.requestWrite ptr left
  if failed then
    match s.pool.putSendingIndex ptr with
    | (true, _) => .error .spin
    | (false, pool) => return { s with pool := pool }
  else
    return s

/-- After the item was sent: the return, or the next turn with the item in hand. -/
def afterSending (tmp : Option Nat) (s : Coalescer) : Progress :=
  match tmp with
  | none => .returned { s with mustGo := false }
  | some tmp => .again { s with mustGo := true, tmpFirst := some tmp }

/-- One turn of the loop. -/
def turn (s : Coalescer) (left : Option ItemBuf) : Except Halt Progress :=
  match s.pool.getSendingIndex with
  | (none, pool) =>
      match s.tmpFirst with
      | none => .ok (.returned { s with pool := pool })
      | some first => do
          let s ← send { s with pool := pool } first left
          return afterSending none s
  | (some none, _) => .error .oops
  | (some (some tmp), pool) =>
      match s.tmpFirst with
      | none =>
          if s.mustGo then do
            let s ← send { s with pool := pool, tmpFirst := some tmp } tmp left
            return afterSending none s
          else
            .ok (.again { s with pool := pool, tmpFirst := some tmp })
      | some first => do
          let firstItem ← s.deref first
          let tmpItem ← s.deref tmp
          if tmpItem.startIndex = firstItem.startIndex + firstItem.len ∧
              firstItem.len + tmpItem.len ≤ rdmaWrBufLen then
            let s ← mergeItems { s with pool := pool } first tmp firstItem tmpItem
            return .again s
          else
            let s ← send { s with pool := pool } first left
            return afterSending (some tmp) s

/-- So many turns; nothing when the loop has not returned by then. -/
def loop : (Nat → Option ItemBuf) → Nat → Coalescer → Except Halt (Option Coalescer)
  | _, 0, _ => .ok none
  | left, turns + 1, s => do
      match ← s.turn (left 0) with
      | .returned s => return some s
      | .again s => loop (fun later => left (later + 1)) turns s

/-- `remote_sender_fn` when it is called. -/
def called (pool : ValetPagePool Nat) (items : Nat → Option ItemBuf) : Coalescer :=
  ⟨pool, items, none, false, []⟩

/-- Every `request_write` succeeds. -/
def allSent : Nat → Option ItemBuf := fun _ => none

end Coalescer

/-- The list holds items, each of them once. -/
structure Queued (pool : ValetPagePool Nat) (items : Nat → Option ItemBuf) : Prop where
  serving : pool.Serving
  distinct : pool.contents.Nodup
  filled : ∀ ptr ∈ pool.contents, ∃ item, items ptr = some item ∧
    0 < item.len ∧ item.len ≤ rdmaWrBufLen

/-- The entry was copied into another item. -/
def CopiedAway (log : List SenderEvent) (ptr i : Nat) : Prop :=
  ∃ first j, first ≠ ptr ∧ .copied ptr i first j ∈ log

/-- No item is freed before all its entries were copied into another. -/
def FreesCopied (items : Nat → Option ItemBuf) (log : List SenderEvent) : Prop :=
  ∀ done ptr later, log = done ++ .freed ptr :: later →
    ∃ item, items ptr = some item ∧ ∀ i, i < item.len → CopiedAway done ptr i

/-- What was sent of the items is every page once and in order, in contiguous pieces that fit into
a write and start where an item started. -/
structure Coalesced (queue : List ItemBuf) (sent : List ItemBuf) : Prop where
  pages : sent.flatMap ItemBuf.pages = queue.flatMap ItemBuf.pages
  contiguous : ∀ item ∈ sent, item.pages.IsChain fun page next => next.1 = page.1 + 1
  fits : ∀ item ∈ sent, item.len ≤ rdmaWrBufLen
  starts : ∀ item ∈ sent, ∃ queued ∈ queue, item.startIndex = queued.startIndex

/-! ## The pages of the runs -/

namespace LocalPageList

variable {first tmp : LocalPageList} {rest : List LocalPageList}

theorem pages_merge (contiguous : tmp.startIndex = first.startIndex + first.len) :
    (first.merge tmp).pages = first.pages ++ tmp.pages := by
  rw [pages, merge, List.zipIdx_append, List.map_append, pages, pages, contiguous]
  rfl

/-- Merging neither loses nor moves a page. -/
theorem runs_pages (first : LocalPageList) (rest : List LocalPageList) :
    (runs first rest).flatMap pages = (first :: rest).flatMap pages := by
  induction rest generalizing first with
  | nil => rfl
  | cons tmp rest ih =>
      cases merges : first.mergesWith tmp with
      | true =>
          rw [runs_merge merges, ih, List.flatMap_cons, pages_merge (mergesWith_iff.mp merges).1,
            List.append_assoc]
          rfl
      | false =>
          rw [runs_apart merges, List.flatMap_cons, ih]
          rfl

theorem runs_fits (firstFits : first.len ≤ rdmaWrBufLen)
    (fits : ∀ tmp ∈ rest, tmp.len ≤ rdmaWrBufLen) :
    ∀ item ∈ runs first rest, item.len ≤ rdmaWrBufLen := by
  induction rest generalizing first with
  | nil =>
      intro item member
      cases List.mem_singleton.mp member
      exact firstFits
  | cons tmp rest ih =>
      have others : ∀ item ∈ rest, item.len ≤ rdmaWrBufLen :=
        fun item member => fits item (List.mem_cons_of_mem _ member)
      cases merges : first.mergesWith tmp with
      | true =>
          rw [runs_merge merges]
          apply ih _ others
          rw [merge_len]
          exact (mergesWith_iff.mp merges).2
      | false =>
          rw [runs_apart merges]
          intro item member
          rcases List.mem_cons.mp member with rfl | later
          · exact firstFits
          · exact ih (fits tmp List.mem_cons_self) others item later

/-- A run starts where one of its items does. -/
theorem runs_starts (first : LocalPageList) (rest : List LocalPageList) :
    ∀ item ∈ runs first rest, ∃ queued ∈ first :: rest, item.startIndex = queued.startIndex := by
  induction rest generalizing first with
  | nil =>
      intro item member
      cases List.mem_singleton.mp member
      exact ⟨first, List.mem_cons_self, rfl⟩
  | cons tmp rest ih =>
      intro item member
      cases merges : first.mergesWith tmp with
      | true =>
          rw [runs_merge merges] at member
          obtain ⟨queued, among, start⟩ := ih _ item member
          rcases List.mem_cons.mp among with rfl | later
          · exact ⟨first, List.mem_cons_self, start⟩
          · exact ⟨queued, List.mem_cons_of_mem _ (List.mem_cons_of_mem _ later), start⟩
      | false =>
          rw [runs_apart merges] at member
          rcases List.mem_cons.mp member with rfl | later
          · exact ⟨item, List.mem_cons_self, rfl⟩
          · obtain ⟨queued, among, start⟩ := ih _ item later
            exact ⟨queued, List.mem_cons_of_mem _ among, start⟩

end LocalPageList

namespace ItemBuf

theorem toItem_len (item : ItemBuf) : item.toItem.len = item.len := by
  rw [LocalPageList.len, toItem, List.length_map, List.length_range]

theorem toItem_pages (item : ItemBuf) : item.toItem.pages = item.pages := by
  rw [LocalPageList.pages, toItem, pages, List.zipIdx_map, List.map_map,
    List.zipIdx_eq_map_add, List.map_map]
  apply List.ext_getElem
  · simp
  · intro i bound other
    simp [Nat.add_comm]

theorem pages_contiguous (item : ItemBuf) :
    item.pages.IsChain fun page next => next.1 = page.1 + 1 := by
  rw [pages, List.isChain_map, List.isChain_range]
  intro i _
  rfl

/-- The array holds the entries of both items, one after the other. -/
theorem toItem_merge {first tmp : ItemBuf} {batch : Nat → Nat}
    (holds : ∀ k, batch k = if first.len ≤ k ∧ k < first.len + tmp.len then
      tmp.batchList (0 + (k - first.len)) else first.batchList k) :
    ItemBuf.toItem { first with batchList := batch, len := first.len + tmp.len } =
      first.toItem.merge tmp.toItem := by
  have below : ∀ k ∈ List.range first.len, batch k = first.batchList k := by
    intro k member
    rw [holds, if_neg]
    have less := List.mem_range.mp member
    omega
  have above : ∀ k ∈ List.range tmp.len, batch (first.len + k) = tmp.batchList k := by
    intro k member
    have less := List.mem_range.mp member
    rw [holds, if_pos (by omega), Nat.add_sub_cancel_left, Nat.zero_add]
  simp only [toItem, LocalPageList.merge, List.range_add, List.map_append, List.map_map]
  rw [List.map_congr_left below, ← List.map_congr_left above]
  rfl

end ItemBuf

/-! ## The log -/

theorem requestedOf_append (log added : List SenderEvent) :
    requestedOf (log ++ added) = requestedOf log ++ requestedOf added := by
  induction log with
  | nil => rfl
  | cons event log ih =>
      cases event with
      | copied tmp i first j => exact ih
      | freed ptr => exact ih
      | requested ptr item => exact congrArg (item :: ·) ih

theorem freesCopied_of_kept {items : Nat → Option ItemBuf} {log : List SenderEvent}
    (kept : ∀ ptr, .freed ptr ∉ log) : FreesCopied items log := by
  intro done ptr later split
  refine absurd ?_ (kept ptr)
  rw [split]
  exact List.mem_append_right _ List.mem_cons_self

/-- An item may be freed once all its entries are copied. -/
theorem FreesCopied.freed {items : Nat → Option ItemBuf} {log : List SenderEvent} {tmp : Nat}
    {item : ItemBuf} (before : FreesCopied items log) (found : items tmp = some item)
    (copied : ∀ i, i < item.len → CopiedAway log tmp i) :
    FreesCopied items (log ++ [.freed tmp]) := by
  intro done ptr later split
  rcases List.eq_nil_or_concat later with rfl | ⟨more, last, rfl⟩
  · obtain ⟨rfl, same⟩ := List.append_inj' split rfl
    cases same
    exact ⟨item, found, copied⟩
  · have shorter : log ++ [.freed tmp] = (done ++ .freed ptr :: more) ++ [last] := by
      rw [split, List.append_assoc, List.concat_eq_append]
      rfl
    exact before done ptr more (List.append_inj' shorter rfl).1

theorem FreesCopied.append {items : Nat → Option ItemBuf} {log added : List SenderEvent}
    (before : FreesCopied items log) (after : FreesCopied items added) :
    FreesCopied items (log ++ added) := by
  intro done ptr later split
  rcases List.append_eq_append_iff.mp split with ⟨more, rfl, tail⟩ | ⟨more, head, tail⟩
  · obtain ⟨item, found, copied⟩ := after more ptr later tail
    refine ⟨item, found, fun i less => ?_⟩
    obtain ⟨first, j, other, member⟩ := copied i less
    exact ⟨first, j, other, List.mem_append_right _ member⟩
  · cases more with
    | nil =>
        obtain ⟨item, found, copied⟩ := after [] ptr later tail.symm
        refine ⟨item, found, fun i less => ?_⟩
        obtain ⟨_, _, _, member⟩ := copied i less
        cases member
    | cons event more =>
        obtain ⟨rfl, _⟩ := List.cons.inj tail
        exact before done ptr more head

namespace Coalescer

/-- The events of a copy. -/
def copies (tmp first i j count : Nat) : List SenderEvent :=
  (List.range count).map fun k => .copied tmp (i + k) first (j + k)

theorem copies_succ (tmp first i j count : Nat) :
    copies tmp first i j (count + 1) =
      .copied tmp i first j :: copies tmp first (i + 1) (j + 1) count := by
  rw [copies, List.range_succ_eq_map, List.map_cons, List.map_map, copies]
  simp only [Function.comp_def, Nat.add_zero, Nat.succ_eq_add_one, Nat.add_assoc, Nat.add_comm 1]

theorem mem_copies {tmp first i j count : Nat} {event : SenderEvent}
    (member : event ∈ copies tmp first i j count) :
    ∃ k, k < count ∧ event = .copied tmp (i + k) first (j + k) := by
  obtain ⟨k, less, rfl⟩ := List.mem_map.mp member
  exact ⟨k, List.mem_range.mp less, rfl⟩

theorem requestedOf_copies (tmp first i j count : Nat) :
    requestedOf (copies tmp first i j count) = [] := by
  induction count generalizing i j with
  | zero => rfl
  | succ count ih =>
      rw [copies_succ]
      exact ih _ _

/-- The copy of an item and its release. -/
theorem freesCopied_copies {items : Nat → Option ItemBuf} {tmp first j : Nat} {item : ItemBuf}
    (found : items tmp = some item) (other : first ≠ tmp) :
    FreesCopied items (copies tmp first 0 j item.len ++ [.freed tmp]) := by
  have kept : ∀ ptr, .freed ptr ∉ copies tmp first 0 j item.len := by
    intro ptr member
    obtain ⟨_, _, bad⟩ := mem_copies member
    cases bad
  apply (freesCopied_of_kept kept).freed found
  intro i less
  refine ⟨first, j + i, other, List.mem_map.mpr ⟨i, List.mem_range.mpr less, ?_⟩⟩
  rw [Nat.zero_add]

/-- The loop of the merge stays inside both arrays. -/
theorem copyBatch_ok (tmp first : Nat) (source : Nat → Nat) (left : Nat) {i j : Nat}
    (batch : Nat → Nat) (log : List SenderEvent) (here : i + left ≤ rdmaWrBufLen) (there : j + left ≤ rdmaWrBufLen) :
    ∃ copied, copyBatch tmp first source left i j batch log =
        .ok (copied, log ++ copies tmp first i j left) ∧
      ∀ k, copied k = if j ≤ k ∧ k < j + left then source (i + (k - j)) else batch k := by
  induction left generalizing i j batch log with
  | zero =>
      refine ⟨batch, ?_, fun k => ?_⟩
      · rw [copyBatch, copies, List.range_zero, List.map_nil, List.append_nil]
      · rw [if_neg (by omega)]
  | succ left ih =>
      obtain ⟨copied, ran, holds⟩ := ih (Function.update batch j (source i))
        (log ++ [.copied tmp i first j]) (i := i + 1) (j := j + 1) (by omega) (by omega)
      refine ⟨copied, ?_, fun k => ?_⟩
      · rw [copyBatch, if_pos ⟨by omega, by omega⟩, ran, copies_succ, List.append_assoc]
        rfl
      · rw [holds k]
        by_cases at_ : k = j
        · subst at_
          rw [if_neg (by omega), if_pos (by omega), Function.update_self, Nat.sub_self]
          rfl
        · rw [Function.update_of_ne at_]
          by_cases inside : j + 1 ≤ k ∧ k < j + 1 + left
          · rw [if_pos inside, if_pos (by omega)]
            exact congrArg source (by omega)
          · rw [if_neg inside, if_neg (by omega)]

variable {s : Coalescer}

theorem deref_eq {ptr : Nat} {item : ItemBuf} (held : s.items ptr = some item) :
    s.deref ptr = .ok item := by
  rw [deref, held]

/-- Both items are in memory and fit: the first one takes the other up. -/
theorem mergeItems_ok (s : Coalescer) (first tmp : Nat) {firstItem tmpItem : ItemBuf}
    (fits : firstItem.len + tmpItem.len ≤ rdmaWrBufLen) :
    ∃ merged, merged.toItem = firstItem.toItem.merge tmpItem.toItem ∧
      merged.startIndex = firstItem.startIndex ∧ merged.len = firstItem.len + tmpItem.len ∧
      mergeItems s first tmp firstItem tmpItem = .ok { s with
        items := Function.update (Function.update s.items first (some merged)) tmp none
        log := s.log ++ (copies tmp first 0 firstItem.len tmpItem.len ++ [.freed tmp]) } := by
  obtain ⟨batch, ran, holds⟩ := copyBatch_ok tmp first tmpItem.batchList tmpItem.len
    (i := 0) (j := firstItem.len) firstItem.batchList s.log (by omega) fits
  refine ⟨{ firstItem with batchList := batch, len := firstItem.len + tmpItem.len },
    ItemBuf.toItem_merge holds, rfl, rfl, bind_eq_ok.mpr ⟨_, ran, ?_⟩⟩
  rw [← List.append_assoc]
  rfl

theorem send_ok {ptr : Nat} {item : ItemBuf} (held : s.items ptr = some item) :
    s.send ptr none = .ok { s with
      items := Function.update s.items ptr none
      log := s.log ++ [.requested ptr item] } :=
  bind_eq_ok.mpr ⟨_, bind_eq_ok.mpr ⟨item, deref_eq held, rfl⟩, rfl⟩

/-! ## The turns -/

/-- The loop holds an item, and these are on the list as they came. -/
structure Pending (s : Coalescer) (origin : Nat → Option ItemBuf) (first : Nat) (item : ItemBuf)
    (rest : List Nat) : Prop where
  serving : s.pool.Serving
  contents : s.pool.contents = rest
  tmpFirst : s.tmpFirst = some first
  held : s.items first = some item
  distinct : (first :: rest).Nodup
  filled : ∀ ptr ∈ rest, s.items ptr = origin ptr ∧ ∃ item, origin ptr = some item

variable {origin : Nat → Option ItemBuf} {first tmp : Nat} {item tmpItem : ItemBuf}
  {rest : List Nat}

theorem Pending.turn_nil (pending : s.Pending origin first item []) :
    ∃ next, s.turn none = .ok (.returned next) ∧ next.pool.contents = [] ∧
      next.log = s.log ++ [.requested first item] := by
  obtain ⟨pool, got, _, contents⟩ :=
    pending.serving.getSendingIndex_nil pending.contents
  have sent := send_ok (s := { s with pool := pool }) pending.held
  refine ⟨{ s with
      pool := pool
      items := Function.update s.items first none
      mustGo := false
      log := s.log ++ [.requested first item] }, ?_, contents, rfl⟩
  simp only [pending.tmpFirst] at sent
  simp only [turn, got, pending.tmpFirst]
  exact bind_eq_ok.mpr ⟨_, sent, rfl⟩

/-- What the items on the list are stays as it was. -/
theorem Pending.others (pending : s.Pending origin first item (tmp :: rest)) {ptr : Nat}
    (member : ptr ∈ rest) : ptr ≠ first ∧ ptr ≠ tmp := by
  have distinct := pending.distinct
  rw [List.nodup_cons, List.nodup_cons] at distinct
  constructor
  · rintro rfl
    exact distinct.1 (List.mem_cons_of_mem _ member)
  · rintro rfl
    exact distinct.2.1 member

theorem Pending.turn_merge (pending : s.Pending origin first item (tmp :: rest))
    (found : origin tmp = some tmpItem)
    (merges : item.toItem.mergesWith tmpItem.toItem = true) :
    ∃ next merged, s.turn none = .ok (.again next) ∧ next.Pending origin first merged rest ∧
      merged.toItem = item.toItem.merge tmpItem.toItem ∧
        next.log = s.log ++ (copies tmp first 0 item.len tmpItem.len ++ [.freed tmp]) := by
  obtain ⟨pool, got, serving, contents⟩ :=
    pending.serving.getSendingIndex_cons pending.contents
  obtain ⟨contiguous, fits⟩ := LocalPageList.mergesWith_iff.mp merges
  rw [ItemBuf.toItem_len] at contiguous fits
  rw [ItemBuf.toItem_len] at fits
  have tmpHeld := (pending.filled tmp List.mem_cons_self).1.trans found
  have apart := (List.nodup_cons.mp pending.distinct).1
  obtain ⟨merged, same, _, _, ran⟩ :=
    mergeItems_ok { s with pool := pool } first tmp fits
  refine ⟨{ s with
      pool := pool
      items := Function.update (Function.update s.items first (some merged)) tmp none
      log := s.log ++ (copies tmp first 0 item.len tmpItem.len ++ [.freed tmp]) }, merged, ?_, ?_,
    same, rfl⟩
  · simp only [pending.tmpFirst] at ran
    simp only [turn, got, pending.tmpFirst]
    refine bind_eq_ok.mpr ⟨item, deref_eq pending.held,
      bind_eq_ok.mpr ⟨tmpItem, deref_eq tmpHeld, ?_⟩⟩
    rw [if_pos ⟨contiguous, fits⟩]
    exact bind_eq_ok.mpr ⟨_, ran, rfl⟩
  · refine ⟨serving, contents, pending.tmpFirst, ?_, ?_, ?_⟩
    · have ne : first ≠ tmp := fun same => apart (same ▸ List.mem_cons_self)
      exact (Function.update_of_ne ne _ _).trans (Function.update_self _ _ _)
    · exact List.nodup_cons.mpr ⟨fun later => apart (List.mem_cons_of_mem _ later),
        (List.nodup_cons.mp (List.nodup_cons.mp pending.distinct).2).2⟩
    · intro ptr member
      obtain ⟨notFirst, notTmp⟩ := pending.others member
      obtain ⟨kept, filled⟩ := pending.filled ptr (List.mem_cons_of_mem _ member)
      refine ⟨?_, filled⟩
      exact ((Function.update_of_ne notTmp _ _).trans (Function.update_of_ne notFirst _ _)).trans kept

/-- An item that does not merge takes the place of the one that is sent. -/
theorem Pending.turn_send (pending : s.Pending origin first item (tmp :: rest))
    (found : origin tmp = some tmpItem)
    (apart : item.toItem.mergesWith tmpItem.toItem = false) :
    ∃ next, s.turn none = .ok (.again next) ∧ next.Pending origin tmp tmpItem rest ∧
      next.log = s.log ++ [.requested first item] := by
  obtain ⟨pool, got, serving, contents⟩ :=
    pending.serving.getSendingIndex_cons pending.contents
  have tmpHeld := (pending.filled tmp List.mem_cons_self).1.trans found
  have notFirst := (List.nodup_cons.mp pending.distinct).1
  have sent := send_ok (s := { s with pool := pool }) pending.held
  refine ⟨{ s with
      pool := pool
      items := Function.update s.items first none
      tmpFirst := some tmp
      mustGo := true
      log := s.log ++ [.requested first item] }, ?_,
    ⟨serving, contents, rfl, ?_, (List.nodup_cons.mp pending.distinct).2, ?_⟩, rfl⟩
  · simp only [pending.tmpFirst] at sent
    simp only [turn, got, pending.tmpFirst]
    refine bind_eq_ok.mpr ⟨item, deref_eq pending.held,
      bind_eq_ok.mpr ⟨tmpItem, deref_eq tmpHeld, ?_⟩⟩
    rw [if_neg ?_]
    · exact bind_eq_ok.mpr ⟨_, sent, rfl⟩
    · rintro ⟨contiguous, fits⟩
      rw [← ItemBuf.toItem_len item, ← ItemBuf.toItem_len tmpItem] at fits
      rw [← ItemBuf.toItem_len item] at contiguous
      rw [LocalPageList.mergesWith_iff.mpr ⟨contiguous, fits⟩] at apart
      cases apart
  · have ne : tmp ≠ first := fun same => notFirst (same ▸ List.mem_cons_self)
    exact (Function.update_of_ne ne _ _).trans tmpHeld
  · intro ptr member
    obtain ⟨kept, filled⟩ := pending.filled ptr (List.mem_cons_of_mem _ member)
    exact ⟨(Function.update_of_ne (pending.others member).1 _ _).trans kept, filled⟩

/-! ## The whole loop -/

/-- The loop has returned with an empty list, and has logged this since. -/
def Ends (s : Coalescer) (origin : Nat → Option ItemBuf) (runs : List LocalPageList) : Prop :=
  ∃ turns last added, loop allSent turns s = .ok (some last) ∧ last.pool.contents = [] ∧
    last.log = s.log ++ added ∧ (requestedOf added).map ItemBuf.toItem = runs ∧
      FreesCopied origin added

theorem loop_again {next : Coalescer} {turns : Nat} {result : Option Coalescer}
    (goes : s.turn none = .ok (.again next)) (later : loop allSent turns next = .ok result) :
    loop allSent (turns + 1) s = .ok result :=
  bind_eq_ok.mpr ⟨_, goes, later⟩

/-- The items that are sent are the runs of the pending item and the list. -/
theorem Pending.ends (pending : s.Pending origin first item rest) :
    s.Ends origin
      (LocalPageList.runs item.toItem ((rest.filterMap origin).map ItemBuf.toItem)) := by
  induction rest generalizing s first item with
  | nil =>
      obtain ⟨last, ran, empty, log⟩ := pending.turn_nil
      refine ⟨1, last, [.requested first item], ?_, empty, log, rfl, freesCopied_of_kept ?_⟩
      · exact bind_eq_ok.mpr ⟨_, ran, rfl⟩
      · simp
  | cons tmp rest ih =>
      obtain ⟨_, tmpItem, found⟩ := pending.filled tmp List.mem_cons_self
      rw [List.filterMap_cons_some found, List.map_cons]
      cases merges : item.toItem.mergesWith tmpItem.toItem with
      | true =>
          obtain ⟨next, merged, goes, nextPending, same, log⟩ := pending.turn_merge found merges
          obtain ⟨turns, last, added, ran, empty, later, sent, frees⟩ := ih nextPending
          have other : first ≠ tmp := fun same =>
            (List.nodup_cons.mp pending.distinct).1 (same ▸ List.mem_cons_self)
          refine ⟨turns + 1, last, copies tmp first 0 item.len tmpItem.len ++ [.freed tmp] ++ added,
            loop_again goes ran, empty, ?_, ?_, (freesCopied_copies found other).append frees⟩
          · rw [later, log, List.append_assoc]
          · rw [requestedOf_append, requestedOf_append, requestedOf_copies,
              LocalPageList.runs_merge merges, ← same, ← sent]
            rfl
      | false =>
          obtain ⟨next, goes, nextPending, log⟩ := pending.turn_send found merges
          obtain ⟨turns, last, added, ran, empty, later, sent, frees⟩ := ih nextPending
          refine ⟨turns + 1, last, [.requested first item] ++ added, loop_again goes ran, empty,
            ?_, ?_, FreesCopied.append (freesCopied_of_kept (by simp)) frees⟩
          · rw [later, log, List.append_assoc]
          · rw [LocalPageList.runs_apart merges, ← sent]
            rfl

variable {pool : ValetPagePool Nat} {items : Nat → Option ItemBuf}

/-- The first turn takes the first item. -/
theorem turn_called (queued : Queued pool items) {queue : List Nat}
    (contents : pool.contents = first :: queue) (found : items first = some item) :
    ∃ next, (called pool items).turn none = .ok (.again next) ∧
      next.Pending items first item queue ∧ next.log = [] := by
  obtain ⟨after, got, serving, rest⟩ := queued.serving.getSendingIndex_cons contents
  have distinct := queued.distinct
  have filled := queued.filled
  rw [contents] at distinct filled
  refine ⟨⟨after, items, some first, false, []⟩, ?_, ⟨serving, rest, rfl, found, distinct, ?_⟩, rfl⟩
  · simp only [turn, called, got, Bool.false_eq_true, if_false]
  · intro ptr member
    obtain ⟨item, found, _⟩ := filled ptr (List.mem_cons_of_mem _ member)
    exact ⟨rfl, item, found⟩

/-- The runs of the items are what is asked of them. -/
theorem coalesced_runs {queue sent : List ItemBuf}
    (fits : ∀ part ∈ item :: queue, part.len ≤ rdmaWrBufLen)
    (runs : sent.map ItemBuf.toItem =
      LocalPageList.runs item.toItem (queue.map ItemBuf.toItem)) :
    Coalesced (item :: queue) sent := by
  have pagesOf : ∀ items : List ItemBuf,
      items.flatMap ItemBuf.pages = (items.map ItemBuf.toItem).flatMap LocalPageList.pages := by
    intro items
    rw [List.flatMap_map]
    exact List.flatMap_congr fun item _ => item.toItem_pages.symm
  have amongRuns : ∀ part ∈ sent,
      part.toItem ∈ LocalPageList.runs item.toItem (queue.map ItemBuf.toItem) := by
    intro part member
    rw [← runs]
    exact List.mem_map_of_mem member
  constructor
  · rw [pagesOf, runs, LocalPageList.runs_pages, pagesOf, List.map_cons]
  · exact fun part _ => part.pages_contiguous
  · intro part member
    rw [← ItemBuf.toItem_len]
    refine LocalPageList.runs_fits ?_ ?_ _ (amongRuns part member)
    · rw [ItemBuf.toItem_len]
      exact fits item List.mem_cons_self
    · intro tmp among
      obtain ⟨other, member, rfl⟩ := List.mem_map.mp among
      rw [ItemBuf.toItem_len]
      exact fits other (List.mem_cons_of_mem _ member)
  · intro part member
    obtain ⟨start, among, same⟩ := LocalPageList.runs_starts _ _ _ (amongRuns part member)
    rw [← List.map_cons] at among
    obtain ⟨other, member, rfl⟩ := List.mem_map.mp among
    exact ⟨other, member, same⟩

/-- When every write succeeds the sender empties the list, sends every page once and in order, and
frees no item whose pages it has not copied. -/
theorem sender_coalesces (queued : Queued pool items) :
    ∃ turns last, loop allSent turns (called pool items) = .ok (some last) ∧
      last.pool.contents = [] ∧
      Coalesced (pool.contents.filterMap items) (requestedOf last.log) ∧
      FreesCopied items last.log := by
  cases contents : pool.contents with
  | nil =>
      obtain ⟨next, got, _, empty⟩ := queued.serving.getSendingIndex_nil contents
      refine ⟨1, ⟨next, items, none, false, []⟩, ?_, empty, ⟨rfl, nofun, nofun, nofun⟩,
        freesCopied_of_kept nofun⟩
      rw [loop, turn, called, got]
      rfl
  | cons first queue =>
      have filled := queued.filled
      rw [contents] at filled
      obtain ⟨item, found, _⟩ := filled first List.mem_cons_self
      obtain ⟨next, goes, pending, log⟩ := turn_called queued contents found
      obtain ⟨turns, last, added, ran, empty, later, sent, frees⟩ := pending.ends
      rw [log, List.nil_append] at later
      refine ⟨turns + 1, last, loop_again goes ran, empty, ?_, later ▸ frees⟩
      rw [List.filterMap_cons_some found, later]
      apply coalesced_runs _ sent
      intro part member
      rw [← List.filterMap_cons_some found] at member
      obtain ⟨ptr, among, same⟩ := List.mem_filterMap.mp member
      obtain ⟨_, found, _, fits⟩ := filled ptr among
      rw [found] at same
      cases same
      exact fits

/-- Two items on end behind one that is apart from them. -/
theorem sender_coalesces_three :
    let items := fun ptr => if ptr = 1 then some (ItemBuf.mk 7 2 id 1)
      else if ptr = 2 then some ⟨0, 1, id, 1⟩ else some ⟨1, 3, id, 1⟩
    let pool := ((((ValetPagePool.mempoolInit.respond (.put 1)).2.respond (.put 2)).2.respond
      (.put 3)).2)
    ∃ turns last, loop allSent turns (called pool items) = .ok (some last) ∧
      last.pool.contents = [] ∧
      Coalesced (pool.contents.filterMap items) (requestedOf last.log) ∧
      FreesCopied items last.log := by
  intro items pool
  have serving0 := ValetPagePool.serving_init (α := Nat)
  have serving1 := (serving0.respond_put 1).1
  have serving2 := (serving1.respond_put 2).1
  have contents1 := (serving0.contents_put 1 (by rw [ValetPagePool.contents_init]; decide)).2
  rw [ValetPagePool.contents_init] at contents1
  have contents2 := (serving1.contents_put 2 (by rw [contents1]; decide)).2
  rw [contents1] at contents2
  have contents3 := (serving2.contents_put 3 (by rw [contents2]; decide)).2
  rw [contents2] at contents3
  refine sender_coalesces ⟨(serving2.respond_put 3).1, ?_, ?_⟩
  · rw [contents3]
    decide
  · intro ptr _
    by_cases one : ptr = 1
    · exact ⟨_, if_pos one, by decide, by decide⟩
    · by_cases two : ptr = 2
      · exact ⟨_, (if_neg one).trans (if_pos two), by decide, by decide⟩
      · exact ⟨_, (if_neg one).trans (if_neg two), by decide, by decide⟩

end Coalescer

end Valet.Bd
