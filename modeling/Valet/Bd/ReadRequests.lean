import Valet.Bd.Coherence
import Valet.Bd.OnlyCopy

/-!
# Read requests

`read_from_brd` serves a read request from the local page, or asks the replicas in
turn, and the completion of the remote read fills the buffer.  A request may have
several pages, one to a `bio`.  Every way to end a request has the status 0.

A remote read that was posted completes and puts its context back, so that a call
waits for a context only as long as one is left.  A post that fails keeps its
context, and when all are lost this way the wait does not end.
-/

namespace Valet.Bd

open Valet.Wire Valet.Library

variable {servers replicas : Nat} {Data : Type}

/-- A read request of the block layer, with what the buffers of its `bio`s hold. -/
structure BioRead (Data : Type) where
  startIndex : Nat
  buffers : List Data
  nonempty : 0 < buffers.length
  inDevice : startIndex + buffers.length ≤ devicePages

/-- How a request is ended: the status, the buffers, and whether anything was copied there. -/
structure ReadEnd (Data : Type) where
  status : Int
  buffers : List Data
  filled : Bool

/-- The page of its block that the first page of the request is. -/
def BioRead.page (req : BioRead Data) : Nat := Backing.pageOfBlock req.startIndex

/-- The number of the swapspace of a page of the device. -/
theorem startOf_swapspace_lt {i : Nat} (inDevice : i < devicePages) :
    startOf i >>> oneGbShift < swapspaceSizeG := by
  rw [startOf_swapspace]
  unfold devicePages at inDevice
  unfold swapspacePages swapspaceSizeG
  omega

theorem BioRead.start_inDevice (req : BioRead Data) : req.startIndex < devicePages := by
  have nonempty := req.nonempty
  have inDevice := req.inDevice
  omega

/-- The swapspace of the first page. -/
def BioRead.swapspace (req : BioRead Data) : Swapspace :=
  ⟨startOf req.startIndex >>> oneGbShift, startOf_swapspace_lt req.start_inDevice⟩

/-- What `read_from_brd` leaves of a request. -/
inductive ReadCall (servers : Nat) (Data : Type) where
  /-- The call has returned 1, and nobody looks at the request again. -/
  | returned
  | ended (done : ReadEnd Data)
  | posted (cb : Fin servers) (rb : Block)

namespace ValetSession

/-- The loop of `request_read` over the rows that are left, with the contexts that are not lost.
Until it has one for a row, failed posts of other requests lose some.  A post that fails goes on to
the next row without its context. -/
def postCopy (s : ValetSession servers replicas) (posts : Fin (replicas + 1) → Bool)
    (lost : Fin (replicas + 1) → Nat) (swapspace : Swapspace) (page : Nat) :
    Nat → List (Fin (replicas + 1)) → Except Halt (Option (Fin servers × Block))
  | _, [] => .ok none
  | contexts, row :: rest =>
      if s.cbIndexMap row swapspace = noCbMapped then
        s.postCopy posts lost swapspace page contexts rest
      else do
        let cb ← index servers (s.cbIndexMap row swapspace)
        let rb ← index maxMrSizeGb (s.mappingSwapspaceToRb row swapspace)
        if s.rbState cb rb = .readonly ∨ s.rbState cb rb = .noneAllowed then
          s.postCopy posts lost swapspace page contexts rest
        else
          match ((s.rbh cb).remoteBlock rb).bitmapG with
          | none => .error .oops
          | some bitmap =>
              if bitmap page then
                if contexts ≤ lost row then .error .spin
                else if posts row then return some (cb, rb)
                else s.postCopy posts lost swapspace page (contexts - lost row - 1) rest
              else
                s.postCopy posts lost swapspace page contexts rest

/-- `request_read`, with what `ib_post_send` answers for each row. -/
def requestPost (s : ValetSession servers replicas) (posts : Fin (replicas + 1) → Bool)
    (lost : Fin (replicas + 1) → Nat) (swapspace : Swapspace) (page contexts : Nat) :
    Except Halt (Option (Fin servers × Block)) :=
  if s.rdmaOn then
    s.postCopy posts lost swapspace page contexts (List.finRange (replicas + 1))
  else
    .ok none

/-- The block that a row leads to, unless it is stopped for reads or does not record the page. -/
def copyOf (s : ValetSession servers replicas) (swapspace : Swapspace) (page : Nat)
    (row : Fin (replicas + 1)) : Option (Fin servers × Block) :=
  if s.cbIndexMap row swapspace = noCbMapped then
    none
  else
    match index servers (s.cbIndexMap row swapspace),
        index maxMrSizeGb (s.mappingSwapspaceToRb row swapspace) with
    | .ok cb, .ok rb =>
        if s.rbState cb rb = .readonly ∨ s.rbState cb rb = .noneAllowed then
          none
        else if ((s.rbh cb).remoteBlock rb).bitmapG.any fun bitmap => bitmap page then
          some (cb, rb)
        else
          none
    | _, _ => none

/-- The rows that `request_read` tries to read from, in their order. -/
def readableRows (s : ValetSession servers replicas) (swapspace : Swapspace) (page : Nat)
    (rows : List (Fin (replicas + 1))) : List (Fin (replicas + 1)) :=
  rows.filter fun row => (s.copyOf swapspace page row).isSome

/-- The rows that a context is left for, if no post succeeds. -/
def servedRows (lost : Fin (replicas + 1) → Nat) :
    Nat → List (Fin (replicas + 1)) → List (Fin (replicas + 1))
  | _, [] => []
  | contexts, row :: rest =>
      if contexts ≤ lost row then []
      else row :: servedRows lost (contexts - lost row - 1) rest

/-- One of the rows that a context is left for can be posted to. -/
def CanRead (s : ValetSession servers replicas) (posts : Fin (replicas + 1) → Bool)
    (lost : Fin (replicas + 1) → Nat) (swapspace : Swapspace) (page contexts : Nat) : Prop :=
  s.rdmaOn = true ∧
    ∃ row ∈ servedRows lost contexts
      (s.readableRows swapspace page (List.finRange (replicas + 1))), posts row = true

variable {s : ValetSession servers replicas} {posts : Fin (replicas + 1) → Bool}
  {lost : Fin (replicas + 1) → Nat} {swapspace : Swapspace} {page contexts : Nat}
  {row : Fin (replicas + 1)}
  {rows : List (Fin (replicas + 1))}

/-- `copyOf` decides `CopyAt`. -/
theorem copyOf_eq_some {cb : Fin servers} {rb : Block} :
    s.copyOf swapspace page row = some (cb, rb) ↔ s.CopyAt row swapspace page cb rb := by
  unfold copyOf
  split
  · rename_i unmapped
    constructor
    · intro bad
      cases bad
    · intro copy
      exact absurd unmapped copy.1.mapped
  · split
    · rename_i cb' rb' isCb isRb
      have leads : s.Leads row swapspace cb' rb' := ⟨index_eq_ok.mp isCb, index_eq_ok.mp isRb⟩
      constructor
      · intro copied
        split at copied
        · cases copied
        · rename_i readable
          split at copied
          · rename_i recorded
            cases copied
            exact ⟨leads, readable, recorded⟩
          · cases copied
      · intro copy
        obtain ⟨rfl, rfl⟩ := leads.unique copy.1
        rw [if_neg copy.2.1, if_pos copy.2.2]
    · rename_i mismatch
      constructor
      · intro bad
        cases bad
      · intro copy
        exact absurd (index_eq_ok.mpr copy.1.2) (mismatch _ _ (index_eq_ok.mpr copy.1.1))

/-- One row of the loop, for a block that can be read from or for none. -/
theorem postCopy_cons (valid : s.RowsValid) :
    s.postCopy posts lost swapspace page contexts (row :: rows) =
      match s.copyOf swapspace page row with
      | none => s.postCopy posts lost swapspace page contexts rows
      | some copy =>
          if contexts ≤ lost row then .error .spin
          else if posts row then .ok (some copy)
          else s.postCopy posts lost swapspace page (contexts - lost row - 1) rows := by
  rw [postCopy, copyOf]
  by_cases unmapped : s.cbIndexMap row swapspace = noCbMapped
  · rw [if_pos unmapped, if_pos unmapped]
  · rw [if_neg unmapped, if_neg unmapped]
    obtain ⟨cb, rb, leads, allocated⟩ := valid row swapspace unmapped
    obtain ⟨bitmap, isBitmap⟩ := Option.isSome_iff_exists.mp allocated
    rw [index_eq_ok.mpr leads.1, index_eq_ok.mpr leads.2]
    dsimp only [bind, Except.bind]
    by_cases stopped : s.rbState cb rb = .readonly ∨ s.rbState cb rb = .noneAllowed
    · rw [if_pos stopped, if_pos stopped]
    · rw [if_neg stopped, if_neg stopped, isBitmap, Option.any_some]
      dsimp only
      by_cases recorded : bitmap page = true
      · rw [if_pos recorded, if_pos recorded]
        rfl
      · rw [if_neg recorded, if_neg recorded]

theorem readableRows_cons :
    s.readableRows swapspace page (row :: rows) =
      if (s.copyOf swapspace page row).isSome then row :: s.readableRows swapspace page rows
      else s.readableRows swapspace page rows := List.filter_cons

/-- If one of the rows that a context is left for can be posted to, a copy is read. -/
theorem postCopy_served (valid : s.RowsValid)
    (canRead : ∃ row ∈ servedRows lost contexts (s.readableRows swapspace page rows),
      posts row = true) :
    ∃ row cb rb, s.CopyAt row swapspace page cb rb ∧
      s.postCopy posts lost swapspace page contexts rows = .ok (some (cb, rb)) := by
  induction rows generalizing contexts with
  | nil =>
      obtain ⟨row, member, _⟩ := canRead
      cases member
  | cons first rest ih =>
      rw [postCopy_cons valid]
      rw [readableRows_cons] at canRead
      cases copied : s.copyOf swapspace page first with
      | none =>
          rw [copied, Option.isSome_none, if_neg Bool.false_ne_true] at canRead
          exact ih canRead
      | some copy =>
          obtain ⟨cb, rb⟩ := copy
          rw [copied, Option.isSome_some, if_pos rfl, servedRows] at canRead
          by_cases none_ : contexts ≤ lost first
          · rw [if_pos none_] at canRead
            obtain ⟨row, member, _⟩ := canRead
            cases member
          · rw [if_neg none_] at canRead
            dsimp only
            rw [if_neg none_]
            by_cases answer : posts first = true
            · rw [if_pos answer]
              exact ⟨first, cb, rb, copyOf_eq_some.mp copied, rfl⟩
            · rw [if_neg answer]
              obtain ⟨row, member, taken⟩ := canRead
              rcases List.mem_cons.mp member with rfl | later
              · exact absurd taken answer
              · exact ih ⟨row, later, taken⟩

/-- Otherwise nothing is posted: the call finds no copy, or all contexts are lost. -/
theorem postCopy_missed (valid : s.RowsValid)
    (misses : ¬ ∃ row ∈ servedRows lost contexts (s.readableRows swapspace page rows),
      posts row = true) :
    s.postCopy posts lost swapspace page contexts rows = .ok none ∨
      s.postCopy posts lost swapspace page contexts rows = .error .spin := by
  induction rows generalizing contexts with
  | nil => exact .inl rfl
  | cons first rest ih =>
      rw [postCopy_cons valid]
      rw [readableRows_cons] at misses
      cases copied : s.copyOf swapspace page first with
      | none =>
          rw [copied, Option.isSome_none, if_neg Bool.false_ne_true] at misses
          exact ih misses
      | some copy =>
          rw [copied, Option.isSome_some, if_pos rfl, servedRows] at misses
          dsimp only
          by_cases none_ : contexts ≤ lost first
          · rw [if_pos none_]
            exact .inr rfl
          · rw [if_neg none_] at misses ⊢
            by_cases answer : posts first = true
            · exact absurd ⟨first, List.mem_cons_self, answer⟩ misses
            · rw [if_neg answer]
              refine ih ?_
              rintro ⟨row, member, taken⟩
              exact misses ⟨row, List.mem_cons_of_mem _ member, taken⟩

/-- Where every post succeeds, the first copy is read. -/
theorem requestPost_requestRead (left : ∀ row, lost row < contexts)
    (posted : ∀ row, posts row = true) :
    s.requestPost posts lost swapspace page contexts = s.requestRead swapspace page := by
  unfold requestPost requestRead
  split
  · generalize List.finRange (replicas + 1) = rows
    induction rows with
    | nil => rfl
    | cons row rest ih =>
        rw [postCopy, findCopy, ih, posted row]
        simp only [if_neg (Nat.not_le_of_lt (left row))]
        rfl
  · rfl

end ValetSession

/-- The client as a read request finds it: whether the store is set up, the local pages, the tables
with the blocks of the servers, and the read contexts that are free and that are in flight. -/
structure ReadSide (servers replicas : Nat) (Data : Type) where
  initDone : Bool
  store : PageStore Data
  session : ValetSession servers replicas
  valid : session.RowsValid
  readFreepool : Nat
  readInFlight : Nat
  memory : Fin servers → Block → Nat → Data

namespace ReadSide

/-- The contexts that are not lost: a completion puts those in flight back. -/
def contexts (d : ReadSide servers replicas Data) : Nat := d.readFreepool + d.readInFlight

/-- The part of `read_from_brd` up to the posting of a remote read. -/
def readFromBrd (d : ReadSide servers replicas Data) (posts : Fin (replicas + 1) → Bool)
    (lost : Fin (replicas + 1) → Nat) (req : BioRead Data) : Except Halt (ReadCall servers Data) :=
  if !d.initDone then
    .ok .returned
  else
    match d.store.pageOf (some req.startIndex) with
    | some page => .ok (.ended ⟨0, d.store.memory page :: req.buffers.tail, true⟩)
    | none => do
        match ← d.session.requestPost posts lost req.swapspace req.page d.contexts with
        | none => return .ended ⟨0, req.buffers, false⟩
        | some (cb, rb) => return .posted cb rb

/-- How the request is ended, each time that it is: by `read_from_brd`, or by `read_done_postwork`
once the remote page is there. -/
def serve (d : ReadSide servers replicas Data) (posts : Fin (replicas + 1) → Bool)
    (lost : Fin (replicas + 1) → Nat) (req : BioRead Data) : Except Halt (List (ReadEnd Data)) := do
  match ← d.readFromBrd posts lost req with
  | .returned => return []
  | .ended done => return [done]
  | .posted cb rb => return [⟨0, d.memory cb rb req.page :: req.buffers.tail, true⟩]

variable {d : ReadSide servers replicas Data} {posts : Fin (replicas + 1) → Bool}
  {lost : Fin (replicas + 1) → Nat} {req : BioRead Data}

/-- The request is left alone. -/
theorem serve_returned (unset : d.initDone = false) : d.serve posts lost req = .ok [] := by
  rw [serve, readFromBrd, unset]
  rfl

theorem serve_local {page : Nat} (ready : d.initDone = true)
    (held : d.store.pageOf (some req.startIndex) = some page) :
    d.serve posts lost req = .ok [⟨0, d.store.memory page :: req.buffers.tail, true⟩] := by
  rw [serve, readFromBrd, ready, held]
  rfl

theorem serve_remote (ready : d.initDone = true)
    (gone : d.store.pageOf (some req.startIndex) = none)
    (canRead : d.session.CanRead posts lost req.swapspace req.page d.contexts) :
    ∃ row cb rb, d.session.CopyAt row req.swapspace req.page cb rb ∧
      d.serve posts lost req = .ok [⟨0, d.memory cb rb req.page :: req.buffers.tail, true⟩] := by
  obtain ⟨on, rows⟩ := canRead
  obtain ⟨row, cb, rb, copy, posted⟩ := ValetSession.postCopy_served d.valid rows
  refine ⟨row, cb, rb, copy, ?_⟩
  rw [serve, readFromBrd, ready, gone, ValetSession.requestPost, if_pos on, posted]
  rfl

/-- Nothing serves the request: it is ended with the status 0 all the same, or the call does not
return. -/
theorem serve_missed (ready : d.initDone = true)
    (gone : d.store.pageOf (some req.startIndex) = none)
    (misses : ¬ d.session.CanRead posts lost req.swapspace req.page d.contexts) :
    d.serve posts lost req = .ok [⟨0, req.buffers, false⟩] ∨ d.serve posts lost req = .error .spin := by
  rw [serve, readFromBrd, ready, gone, ValetSession.requestPost]
  by_cases on : d.session.rdmaOn = true
  · rw [if_pos on]
    rcases ValetSession.postCopy_missed d.valid fun rows => misses ⟨on, rows⟩ with none | spins
    · rw [none]
      exact .inl rfl
    · rw [spins]
      exact .inr rfl
  · rw [if_neg on]
    exact .inl rfl

/-! ## The status of a read -/

/-- The data is that of the first page of the request, from the local page or from a remote
block. -/
def IsData (d : ReadSide servers replicas Data) (req : BioRead Data) (data : Data) : Prop :=
  (∃ page, d.store.pageOf (some req.startIndex) = some page ∧ d.store.memory page = data) ∨
    ∃ row cb rb, d.session.CopyAt row req.swapspace req.page cb rb ∧ d.memory cb rb req.page = data

/-- The request is ended once, and with the status 0 only if its first buffer was filled. -/
def Honest (d : ReadSide servers replicas Data) (posts : Fin (replicas + 1) → Bool)
    (lost : Fin (replicas + 1) → Nat) (req : BioRead Data) : Prop :=
  ∃ done, d.serve posts lost req = .ok [done] ∧
    (done.status = 0 →
      done.filled = true ∧ ∃ data, done.buffers.head? = some data ∧ d.IsData req data)

/-- A read is honest exactly if the store is set up and the page is held or can be read from a
replica. -/
theorem honest_iff (d : ReadSide servers replicas Data) (posts : Fin (replicas + 1) → Bool)
    (lost : Fin (replicas + 1) → Nat) (req : BioRead Data) :
    d.Honest posts lost req ↔ d.initDone = true ∧
      ((d.store.pageOf (some req.startIndex)).isSome = true ∨
        d.session.CanRead posts lost req.swapspace req.page d.contexts) := by
  cases ready : d.initDone with
  | false =>
      refine iff_of_false ?_ fun both => Bool.false_ne_true both.1
      rintro ⟨done, ran, _⟩
      rw [serve_returned ready] at ran
      cases ran
  | true =>
      cases held : d.store.pageOf (some req.startIndex) with
      | some page =>
          refine iff_of_true ⟨_, serve_local ready held, fun _ => ⟨rfl, _, rfl, ?_⟩⟩
            ⟨rfl, .inl rfl⟩
          exact .inl ⟨page, held, rfl⟩
      | none =>
          by_cases canRead : d.session.CanRead posts lost req.swapspace req.page d.contexts
          · obtain ⟨row, cb, rb, copy, ran⟩ := serve_remote ready held canRead
            refine iff_of_true ⟨_, ran, fun _ => ⟨rfl, _, rfl, ?_⟩⟩ ⟨rfl, .inr canRead⟩
            exact .inr ⟨row, cb, rb, copy, rfl⟩
          · refine iff_of_false ?_ ?_
            · rintro ⟨done, ran, filled⟩
              rcases serve_missed ready held canRead with ended | spins
              · rw [ended] at ran
                cases ran
                exact Bool.false_ne_true (filled rfl).1
              · rw [spins] at ran
                cases ran
            · rintro ⟨_, bad | here⟩
              · cases bad
              · exact canRead here

/-- A client without servers, which had written page 0 and has reclaimed it since. -/
def reclaimedPage : ReadSide 0 0 Nat where
  initDone := true
  store :=
    { pool := .valetMempoolCreate 1
      gptPages := fun _ => some ⟨none, fun _ => false, 0⟩
      reclaimList := alfQueueAlloc AlfQueue.maxPoolPages
      memory := fun _ => 7 }
  session := ValetSession.init
  valid := fun _ _ mapped => absurd rfl mapped
  readFreepool := 4
  readInFlight := 0
  memory := fun _ _ _ => 0

/-- A read of page 0 into a buffer that holds 5. -/
def readZero : BioRead Nat := ⟨0, [5], Nat.one_pos, zero_inside⟩

/-- The read of the page succeeds, and its buffer still holds 5. -/
theorem reclaimedPage_unserved : ¬ ∀ (d : ReadSide 0 0 Nat) (posts : Fin 1 → Bool)
    (lost : Fin 1 → Nat) (req : BioRead Nat), req.buffers.length = 1 →
    (d.store.gptPages req.startIndex).isSome = true → d.Honest posts lost req := by
  intro claim
  obtain ⟨done, ran, filled⟩ := claim reclaimedPage (fun _ => true) (fun _ => 0) readZero rfl rfl
  have ended : reclaimedPage.serve (fun _ => true) (fun _ => 0) readZero = .ok [⟨0, [5], false⟩] := rfl
  rw [ended] at ran
  cases ran
  exact Bool.false_ne_true (filled rfl).1

/-! ## Reads of several pages -/

/-- What a page of the device holds locally. -/
def contentOf (s : PageStore Data) (i : Nat) : Option Data := (s.pageOf (some i)).map s.memory

/-- The request is ended with the status 0 only if each of its buffers holds the contents of its
page. -/
def ReturnsPages (d : ReadSide servers replicas Data) (posts : Fin (replicas + 1) → Bool)
    (lost : Fin (replicas + 1) → Nat) (req : BioRead Data) : Prop :=
  ∀ ends, d.serve posts lost req = .ok ends → ∀ done ∈ ends, done.status = 0 →
    ∀ j < req.buffers.length, done.buffers[j]? = contentOf d.store (req.startIndex + j)

theorem getElem?_fill {buffers : List Data} (data : Data) {j : Nat} (later : 0 < j) :
    (data :: buffers.tail)[j]? = buffers[j]? := by
  obtain ⟨j, rfl⟩ := Nat.exists_eq_succ_of_ne_zero (Nat.pos_iff_ne_zero.mp later)
  rw [List.getElem?_cons_succ, List.getElem?_tail]

/-- A read of resident pages returns them exactly if the buffers behind the first hold their pages
already. -/
theorem returnsPages_iff (d : ReadSide servers replicas Data) (posts : Fin (replicas + 1) → Bool)
    (lost : Fin (replicas + 1) → Nat) (req : BioRead Data)
    (resident : ∀ j < req.buffers.length,
      (d.store.pageOf (some (req.startIndex + j))).isSome = true) :
    d.ReturnsPages posts lost req ↔ (d.initDone = true → ∀ j, 0 < j → j < req.buffers.length →
      req.buffers[j]? = contentOf d.store (req.startIndex + j)) := by
  cases ready : d.initDone with
  | false =>
      refine iff_of_true ?_ fun bad => absurd bad Bool.false_ne_true
      intro ends ran done member
      rw [serve_returned ready] at ran
      cases ran
      cases member
  | true =>
      obtain ⟨page, held⟩ := Option.isSome_iff_exists.mp (resident 0 req.nonempty)
      rw [Nat.add_zero] at held
      have ran : d.serve posts lost req =
          .ok [⟨0, d.store.memory page :: req.buffers.tail, true⟩] := serve_local ready held
      have first : contentOf d.store req.startIndex = some (d.store.memory page) := by
        rw [contentOf, held]
        rfl
      constructor
      · intro returns _ j later inside
        rw [← returns _ ran _ (List.mem_singleton_self _) rfl j inside]
        exact (getElem?_fill _ later).symm
      · intro others ends served done member _ j inside
        rw [ran] at served
        cases served
        rw [List.mem_singleton.mp member]
        rcases Nat.eq_zero_or_pos j with rfl | later
        · exact first.symm
        · exact (getElem?_fill _ later).trans (others rfl j later inside)

/-- Two pages that hold 7 and 8. -/
def twoPages : ReadSide 0 0 Nat :=
  { reclaimedPage with
    store :=
      { reclaimedPage.store with
        gptPages := fun i => if i < 2 then some ⟨some i, fun _ => false, 0⟩ else none
        memory := fun page => 7 + page } }

theorem two_inside : 0 + 2 ≤ devicePages := by decide

/-- A read of pages 0 and 1, the second into a buffer that holds this. -/
def readTwo (second : Nat) : BioRead Nat := ⟨0, [5, second], Nat.two_pos, two_inside⟩

theorem twoPages_resident (second : Nat) : ∀ j < (readTwo second).buffers.length,
    (twoPages.store.pageOf (some ((readTwo second).startIndex + j))).isSome = true := by
  intro j inside
  have less : j < 2 := inside
  have found : twoPages.store.gptPages (0 + j) = some ⟨some (0 + j), fun _ => false, 0⟩ :=
    if_pos (by omega)
  show (((some (0 + j)).bind twoPages.store.gptPages).bind TreeEntry.page).isSome = true
  rw [Option.bind_some, found]
  rfl

/-- The second buffer holds the contents of page 1 already. -/
theorem returnsPages_iff_two : twoPages.ReturnsPages (fun _ => true) (fun _ => 0) (readTwo 8) := by
  refine (returnsPages_iff twoPages _ _ (readTwo 8) (twoPages_resident 8)).mpr ?_
  intro _ j later inside
  have second : j = 1 := by
    have less : j < 2 := inside
    omega
  subst second
  rfl

/-- The read of two pages succeeds, and its second buffer still holds 5. -/
theorem twoPages_unread : ¬ ∀ (d : ReadSide 0 0 Nat) (posts : Fin 1 → Bool)
    (lost : Fin 1 → Nat) (req : BioRead Nat),
    (∀ j < req.buffers.length, (d.store.pageOf (some (req.startIndex + j))).isSome = true) →
    d.ReturnsPages posts lost req := by
  intro claim
  have ran : twoPages.serve (fun _ => true) (fun _ => 0) (readTwo 5) = .ok [⟨0, [7, 5], true⟩] := rfl
  have second := claim twoPages (fun _ => true) (fun _ => 0) (readTwo 5) (twoPages_resident 5) _ ran _
    (List.mem_singleton_self _) rfl 1 Nat.one_lt_two
  cases second

/-- After a write the pages of its sectors hold what it stored. -/
theorem contentOf_write {s middle next : PageStore Data} {req : WriteRequest Data}
    (owned : s.Owned) (sound : s.reclaimList.Sound) (all : PageStore.InsertsAll s req.indices middle)
    (copied : middle.copyPages (req.indices.map some) req.buffers = .ok next) {j : Nat}
    (inside : j < req.buffers.length) :
    contentOf next (req.startIndex + j) = req.buffers[j]? := by
  have lengths : (req.indices.map some).length = req.buffers.length := by
    simp [WriteRequest.indices]
  obtain ⟨pages, located, rfl⟩ := PageStore.copyPages_ok lengths copied
  rw [List.map_map] at located
  have here := PageStore.pageOf_located located inside
  have more : j < pages.length := by
    have same := congrArg List.length located
    simp only [List.length_map, WriteRequest.indices, List.length_range'] at same
    omega
  rw [List.getElem?_eq_getElem more] at here
  have stored := all.stores owned sound located inside here
  rw [stored, contentOf]
  show (middle.pageOf _).map _ = _
  rw [here]
  rfl

/-- A read of the sectors of a write, into as many buffers, returns what the write stored exactly
if the buffers behind the first hold it already. -/
theorem read_returns_write_iff {s middle : PageStore Data} {d : ReadSide servers replicas Data}
    {posts : Fin (replicas + 1) → Bool} {lost : Fin (replicas + 1) → Nat} {req : BioRead Data}
    {wrote : WriteRequest Data}
    (owned : s.Owned) (sound : s.reclaimList.Sound)
    (all : PageStore.InsertsAll s wrote.indices middle)
    (copied : middle.copyPages (wrote.indices.map some) wrote.buffers = .ok d.store)
    (start : req.startIndex = wrote.startIndex)
    (pages : req.buffers.length = wrote.buffers.length) :
    d.ReturnsPages posts lost req ↔
      (d.initDone = true → req.buffers.tail = wrote.buffers.tail) := by
  have holds : ∀ j < req.buffers.length, contentOf d.store (req.startIndex + j) =
      wrote.buffers[j]? := by
    intro j inside
    rw [start]
    exact contentOf_write owned sound all copied (pages ▸ inside)
  have resident : ∀ j < req.buffers.length,
      (d.store.pageOf (some (req.startIndex + j))).isSome = true := by
    intro j inside
    have content := holds j inside
    rw [List.getElem?_eq_getElem (pages ▸ inside), contentOf] at content
    obtain ⟨page, here, _⟩ := Option.map_eq_some_iff.mp content
    rw [here]
    rfl
  rw [returnsPages_iff d posts lost req resident]
  refine imp_congr_right fun _ => ⟨fun same => ?_, fun same j later inside => ?_⟩
  · apply List.ext_getElem?
    intro j
    rw [List.getElem?_tail, List.getElem?_tail]
    by_cases inside : j + 1 < req.buffers.length
    · rw [same (j + 1) (Nat.succ_pos j) inside, holds (j + 1) inside]
    · rw [List.getElem?_eq_none (Nat.le_of_not_lt inside),
        List.getElem?_eq_none (pages ▸ Nat.le_of_not_lt inside)]
  · obtain ⟨j, rfl⟩ := Nat.exists_eq_succ_of_ne_zero (Nat.pos_iff_ne_zero.mp later)
    rw [holds (j + 1) inside, ← List.getElem?_tail, ← List.getElem?_tail, same]

end ReadSide

end Valet.Bd
