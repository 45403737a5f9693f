import Valet.Bd.ReplicaWrite
import Valet.Bd.SendingList

/-!
# Posts that fail

`rdma_write` and `rdma_read` when `ib_post_send` may fail.  The requests of a
write are chained, the data before the header, so that a post can fail behind
the data.  Items are named by their addresses, so that an item that is given to
`rdma_write` again is the same item.
-/

namespace Valet.Bd

open Valet.Library

/-- What `ib_post_send` does with the chain of a write. -/
inductive PostOutcome where
  | posted
  | refused
  | headerRefused
  deriving DecidableEq

/-- `struct rdma_ctx` of a read. -/
structure ReadCtx (Req : Type) where
  cb : Nat
  rbIndex : Nat
  offset : Nat
  req : Option Req
  inFlight : Bool

/-- What the calls use of the session; the posted requests are named by their contexts. -/
structure PostSession (Req : Type) where
  writeCtxs : Nat → WriteCtx
  writeFreepool : List Nat
  readCtxs : Nat → ReadCtx Req
  readFreepool : List Nat
  items : Nat → LocalPageList
  sendingList : ValetPagePool Nat
  postedWrites : List Nat
  postedReads : List Nat
  bios : List Nat

/-- What a call of `rdma_write` finds: the blocks of the replicas with the state of the primary
one, if `get_cb` has them, the answers of `ib_post_send`, and the contexts that are put back while
the call waits for one. -/
structure WriteInput (replicas : Nat) where
  blocks : Option ((Fin (replicas + 1) → Nat × Nat) × RemoteBlockState)
  offset : Nat
  posts : Fin (replicas + 1) → PostOutcome
  waits : Fin (replicas + 1) → List Nat

/-- How a call ends: the error return, the contexts it took, and the session. -/
structure CallEnd (Req : Type) where
  failed : Bool
  taken : List Nat
  session : PostSession Req

namespace PostSession

variable {Req : Type} {replicas : Nat}

/-- `get_rdma_freepool` in a loop; what was put back meanwhile is on top. -/
def takeCtx (pool waited : List Nat) : Except Halt (Nat × List Nat) :=
  match waited ++ pool with
  | [] => .error .spin
  | ctx :: rest => .ok (ctx, rest)

/-- The context of a replica as the loop of `rdma_write` fills it. -/
def loadWrite (s : PostSession Req) (tmp first j : Nat) (ctx : WriteCtx) : WriteCtx :=
  { ctx with
    inFlight := true
    replicaIndex := j
    buffer := first
    primeCtx := if j = 0 then ctx.primeCtx else some first
    len := (s.items tmp).len * valetPageSize
    sendingItem := some tmp }

/-- The loop of `rdma_write` over these replicas, behind the contexts it has. -/
def loadAll (s : PostSession Req) (tmp : Nat) (waits : Fin (replicas + 1) → List Nat) :
    List Nat → List (Fin (replicas + 1)) → Except Halt (List Nat × PostSession Req)
  | taken, [] => .ok (taken, s)
  | taken, j :: rest => do
      let (ctx, pool) ← takeCtx s.writeFreepool (waits j)
      let first := taken.headD ctx
      loadAll { s with
        writeFreepool := pool
        writeCtxs := Function.update s.writeCtxs ctx (s.loadWrite tmp first j.val (s.writeCtxs ctx))
      } tmp waits (taken ++ [ctx]) rest

/-- `__rdma_write`. -/
def postWrite (s : PostSession Req) (block : Nat × Nat) (offset : Nat) (outcome : PostOutcome)
    (ctx : Nat) : Bool × PostSession Req :=
  let filled := { s with
    writeCtxs := Function.update s.writeCtxs ctx
      { s.writeCtxs ctx with offset := offset, rb := some block } }
  match outcome with
  | .posted => (false, { filled with postedWrites := filled.postedWrites ++ [ctx] })
  | .refused => (true, filled)
  | .headerRefused => (true, { filled with postedWrites := filled.postedWrites ++ [ctx] })

/-- The contexts are posted in turn until one fails. -/
def postAll (blocks : Fin (replicas + 1) → Nat × Nat) (offset : Nat)
    (posts : Fin (replicas + 1) → PostOutcome) :
    PostSession Req → List (Fin (replicas + 1) × Nat) → Bool × PostSession Req
  | s, [] => (false, s)
  | s, (j, ctx) :: rest =>
      match s.postWrite (blocks j) offset (posts j) ctx with
      | (true, s) => (true, s)
      | (false, s) => postAll blocks offset posts s rest

/-- `rdma_write`, with the disk backup where it is compiled in. -/
def rdmaWrite (diskbackup : Bool) (s : PostSession Req) (tmp : Nat) (input : WriteInput replicas) :
    Except Halt (CallEnd Req) :=
  match input.blocks with
  | none => .ok ⟨true, [], s⟩
  | some (blocks, rbState) =>
      if rbState.code ≥ RemoteBlockState.readonly.code then
        match s.sendingList.putSendingIndex tmp with
        | (true, _) => .error .spin
        | (false, list) => .ok ⟨false, [], { s with sendingList := list }⟩
      else do
        let s := { s with
          items := Function.update s.items tmp { s.items tmp with refCount := 0 } }
        let (taken, s) ← s.loadAll tmp input.waits [] (List.finRange (replicas + 1))
        let s := if diskbackup then { s with bios := s.bios ++ taken.take 1 } else s
        let (failed, s) :=
          postAll blocks input.offset input.posts s ((List.finRange (replicas + 1)).zip taken)
        return ⟨failed, taken, s⟩

/-- `rdma_read`, with the answer of `ib_post_send`. -/
def rdmaRead (s : PostSession Req) (cb rbIndex offset : Nat) (req : Req) (posted : Bool)
    (waited : List Nat) : Except Halt (CallEnd Req) := do
  let (ctx, pool) ← takeCtx s.readFreepool waited
  let s := { s with
    readFreepool := pool
    readCtxs := Function.update s.readCtxs ctx ⟨cb, rbIndex, offset, some req, true⟩ }
  if posted then
    return ⟨false, [ctx], { s with postedReads := s.postedReads ++ [ctx] }⟩
  else
    return ⟨true, [ctx], s⟩

/-- A posted write sends the item. -/
def References (s : PostSession Req) (tmp : Nat) : Prop :=
  ∃ ctx ∈ s.postedWrites, (s.writeCtxs ctx).sendingItem = some tmp

/-- A context is idle and in the pool again. -/
def WriteBack (s : PostSession Req) (ctx : Nat) : Prop :=
  (s.writeCtxs ctx).inFlight = false ∧ ctx ∈ s.writeFreepool

def ReadBack (s : PostSession Req) (ctx : Nat) : Prop := ctx ∈ s.readFreepool

/-- No trace is left of a write that failed. -/
def WriteUndone (tmp : Nat) (result : CallEnd Req) : Prop :=
  result.failed = true →
    ¬ result.session.References tmp ∧ ∀ ctx ∈ result.taken, result.session.WriteBack ctx

def ReadUndone (result : CallEnd Req) : Prop :=
  result.failed = true → ∀ ctx ∈ result.taken, result.session.ReadBack ctx

/-- The call of `rdma_write` does not fail at a post, and where it finds no server the item is not
on its way already. -/
def WriteTakesNothing (s : PostSession Req) (tmp : Nat) (input : WriteInput replicas) : Prop :=
  match input.blocks with
  | none => ¬ s.References tmp
  | some (_, rbState) => rbState.code ≥ RemoteBlockState.readonly.code ∨
      ∀ j, input.posts j = .posted

/-! ## The contexts of a call -/

variable {s next : PostSession Req} {tmp : Nat} {taken all : List Nat}

/-- The contexts carry the item and are in flight. -/
def Loaded (s : PostSession Req) (tmp : Nat) (taken : List Nat) : Prop :=
  ∀ ctx ∈ taken, (s.writeCtxs ctx).inFlight = true ∧ (s.writeCtxs ctx).sendingItem = some tmp

theorem Loaded.load {pool : List Nat} {first j ctx : Nat} (loaded : s.Loaded tmp taken) :
    Loaded { s with
      writeFreepool := pool
      writeCtxs := Function.update s.writeCtxs ctx (s.loadWrite tmp first j (s.writeCtxs ctx)) }
      tmp (taken ++ [ctx]) := by
  intro other member
  dsimp only
  rcases eq_or_ne other ctx with rfl | apart
  · rw [Function.update_self]
    exact ⟨rfl, rfl⟩
  · rw [Function.update_of_ne apart]
    rcases List.mem_append.mp member with before | last
    · exact loaded other before
    · exact absurd (List.mem_singleton.mp last) apart

theorem loadAll_spec {waits : Fin (replicas + 1) → List Nat} {js : List (Fin (replicas + 1))}
    (loaded : s.Loaded tmp taken) (ran : s.loadAll tmp waits taken js = .ok (all, next)) :
    next.Loaded tmp all ∧ all.length = taken.length + js.length := by
  induction js generalizing s taken with
  | nil =>
      cases ran
      exact ⟨loaded, rfl⟩
  | cons j rest ih =>
      obtain ⟨⟨ctx, pool⟩, _, later⟩ := bind_eq_ok.mp ran
      obtain ⟨allLoaded, length⟩ := ih loaded.load later
      refine ⟨allLoaded, ?_⟩
      rw [length, List.length_append, List.length_singleton, List.length_cons, Nat.add_assoc,
        Nat.add_comm 1]

/-- A post leaves a context in flight, whatever becomes of it. -/
theorem Loaded.postWrite (loaded : s.Loaded tmp taken) (block : Nat × Nat) (offset ctx : Nat)
    (outcome : PostOutcome) :
    (s.postWrite block offset outcome ctx).2.Loaded tmp taken := by
  intro other member
  have same : ((s.postWrite block offset outcome ctx).2.writeCtxs other).inFlight =
        (s.writeCtxs other).inFlight ∧
      ((s.postWrite block offset outcome ctx).2.writeCtxs other).sendingItem =
        (s.writeCtxs other).sendingItem := by
    rcases eq_or_ne other ctx with rfl | apart
    · cases outcome <;> simp [PostSession.postWrite]
    · cases outcome <;> simp [PostSession.postWrite, Function.update_of_ne apart]
  rw [same.1, same.2]
  exact loaded other member

theorem postWrite_failed (s : PostSession Req) (block : Nat × Nat) (offset ctx : Nat)
    (outcome : PostOutcome) :
    (s.postWrite block offset outcome ctx).1 = true ↔ outcome ≠ .posted := by
  cases outcome <;> simp [postWrite]

/-- The posts fail when one of them does, and leave all contexts in flight. -/
theorem postAll_spec (blocks : Fin (replicas + 1) → Nat × Nat) (offset : Nat)
    (posts : Fin (replicas + 1) → PostOutcome) (pairs : List (Fin (replicas + 1) × Nat))
    (loaded : s.Loaded tmp taken) :
    (postAll blocks offset posts s pairs).2.Loaded tmp taken ∧
      ((postAll blocks offset posts s pairs).1 = true ↔ ∃ pair ∈ pairs, posts pair.1 ≠ .posted) := by
  induction pairs generalizing s with
  | nil => exact ⟨loaded, by simp [postAll]⟩
  | cons pair rest ih =>
      obtain ⟨j, ctx⟩ := pair
      have fails := postWrite_failed s (blocks j) offset ctx (posts j)
      have kept := loaded.postWrite (blocks j) offset ctx (posts j)
      rcases post : s.postWrite (blocks j) offset (posts j) ctx with ⟨failed, after⟩
      rw [post] at fails kept
      cases failed with
      | true =>
          simp only [postAll, post]
          exact ⟨kept, fun _ => ⟨(j, ctx), List.mem_cons_self, fails.mp rfl⟩, fun _ => trivial⟩
      | false =>
          have went : posts j = .posted := by
            by_contra refused
            cases fails.mpr refused
          obtain ⟨loadedLater, failsLater⟩ := ih kept
          simp only [postAll, post]
          refine ⟨loadedLater, failsLater.trans ⟨?_, ?_⟩⟩
          · rintro ⟨pair, member, refused⟩
            exact ⟨pair, List.mem_cons_of_mem _ member, refused⟩
          · rintro ⟨pair, member, refused⟩
            rcases List.mem_cons.mp member with rfl | later
            · exact absurd went refused
            · exact ⟨pair, later, refused⟩

theorem exists_zip_finRange {count : Nat} {values : List Nat} (length : values.length = count)
    (P : Fin count → Prop) :
    (∃ pair ∈ (List.finRange count).zip values, P pair.1) ↔ ∃ j, P j := by
  have firsts : ((List.finRange count).zip values).map Prod.fst = List.finRange count :=
    List.map_fst_zip (by rw [List.length_finRange, length])
  constructor
  · rintro ⟨pair, _, holds⟩
    exact ⟨pair.1, holds⟩
  · rintro ⟨j, holds⟩
    have member : j ∈ ((List.finRange count).zip values).map Prod.fst := by
      rw [firsts]
      exact List.mem_finRange j
    obtain ⟨pair, among, rfl⟩ := List.mem_map.mp member
    exact ⟨pair, among, holds⟩

/-! ## The calls -/

variable {diskbackup : Bool} {input : WriteInput replicas} {result : CallEnd Req}

/-- With a block that takes writes the call fails when a post does, and its contexts stay in flight
in any case. -/
theorem rdmaWrite_posts {blocks : Fin (replicas + 1) → Nat × Nat} {rbState : RemoteBlockState}
    (found : input.blocks = some (blocks, rbState))
    (writable : ¬ rbState.code ≥ RemoteBlockState.readonly.code)
    (ran : s.rdmaWrite diskbackup tmp input = .ok result) :
    result.taken.length = replicas + 1 ∧ result.session.Loaded tmp result.taken ∧
      (result.failed = true ↔ ∃ j, input.posts j ≠ .posted) := by
  simp only [rdmaWrite, found, if_neg writable] at ran
  obtain ⟨⟨taken, after⟩, loads, rest⟩ := bind_eq_ok.mp ran
  obtain ⟨loaded, length⟩ := loadAll_spec (fun ctx member => by cases member) loads
  rw [List.length_nil, Nat.zero_add, List.length_finRange] at length
  have queued : (if diskbackup then { after with bios := after.bios ++ taken.take 1 }
      else after).Loaded tmp taken := by
    cases diskbackup with
    | true => exact loaded
    | false => exact loaded
  obtain ⟨kept, fails⟩ := postAll_spec blocks input.offset input.posts
    ((List.finRange (replicas + 1)).zip taken) queued
  cases rest
  exact ⟨length, kept, fails.trans (exists_zip_finRange length fun j => input.posts j ≠ .posted)⟩

/-- A write that fails leaves no trace exactly when it fails before it takes anything. -/
theorem rdmaWrite_undone_iff (ran : s.rdmaWrite diskbackup tmp input = .ok result) :
    WriteUndone tmp result ↔ s.WriteTakesNothing tmp input := by
  cases found : input.blocks with
  | none =>
      simp only [rdmaWrite, found] at ran
      cases ran
      simp only [WriteUndone, WriteTakesNothing, found]
      exact ⟨fun undone => (undone trivial).1, fun free _ => ⟨free, nofun⟩⟩
  | some target =>
      obtain ⟨blocks, rbState⟩ := target
      simp only [WriteTakesNothing, found]
      by_cases readonly : rbState.code ≥ RemoteBlockState.readonly.code
      · simp only [rdmaWrite, found, if_pos readonly] at ran
        have succeeds : result.failed = false := by
          split at ran <;> cases ran
          rfl
        refine ⟨fun _ => .inl readonly, fun _ failed => ?_⟩
        rw [succeeds] at failed
        cases failed
      · obtain ⟨length, loaded, fails⟩ := rdmaWrite_posts found readonly ran
        constructor
        · intro undone
          refine .inr fun j => ?_
          by_contra refused
          obtain ⟨_, back⟩ := undone (fails.mpr ⟨j, refused⟩)
          obtain ⟨ctx, member⟩ := List.exists_mem_of_length_pos (by
            rw [length]
            exact Nat.succ_pos replicas)
          have idle := (back ctx member).1
          rw [(loaded ctx member).1] at idle
          cases idle
        · rintro (state | posts) failed
          · exact absurd state readonly
          · obtain ⟨j, refused⟩ := fails.mp failed
            exact absurd (posts j) refused

/-- A read that fails leaves no trace only when it does not fail. -/
theorem rdmaRead_undone_iff {cb rbIndex offset : Nat} {req : Req} {posted : Bool}
    {waited : List Nat} (distinct : (waited ++ s.readFreepool).Nodup)
    (ran : s.rdmaRead cb rbIndex offset req posted waited = .ok result) :
    ReadUndone result ↔ posted = true := by
  obtain ⟨⟨ctx, pool⟩, take, rest⟩ := bind_eq_ok.mp ran
  unfold takeCtx at take
  cases free : waited ++ s.readFreepool with
  | nil =>
      rw [free] at take
      cases take
  | cons top others =>
      rw [free] at take distinct
      cases take
      cases posted with
      | true =>
          cases rest
          exact ⟨fun _ => rfl, fun _ => nofun⟩
      | false =>
          cases rest
          refine ⟨fun undone => ?_, nofun⟩
          have back := undone rfl ctx List.mem_cons_self
          exact absurd back (List.nodup_cons.mp distinct).1

/-- A failed call leaves no trace exactly when it does not fail at a post. -/
theorem failed_calls_undone_iff (s : PostSession Req) (distinct : s.readFreepool.Nodup) :
    (∀ (replicas : Nat) (diskbackup : Bool) (tmp : Nat) (input : WriteInput replicas)
        (result : CallEnd Req), s.rdmaWrite diskbackup tmp input = .ok result →
      (WriteUndone tmp result ↔ s.WriteTakesNothing tmp input)) ∧
    ∀ (cb rbIndex offset : Nat) (req : Req) (posted : Bool) (waited : List Nat)
        (result : CallEnd Req), waited.Nodup → waited.Disjoint s.readFreepool →
      s.rdmaRead cb rbIndex offset req posted waited = .ok result →
        (ReadUndone result ↔ posted = true) := by
  constructor
  · intro replicas diskbackup tmp input result ran
    exact rdmaWrite_undone_iff ran
  · intro cb rbIndex offset req posted waited result fresh apart ran
    exact rdmaRead_undone_iff (fresh.append distinct apart) ran

/-- A session with free contexts and nothing under way. -/
def sample : PostSession Unit where
  writeCtxs := fun _ => ⟨0, none, none, none, 0, 0, 0, false⟩
  writeFreepool := [0, 1]
  readCtxs := fun _ => ⟨0, 0, 0, none, false⟩
  readFreepool := [0, 1]
  items := fun _ => ⟨0, [0], 0⟩
  sendingList := .mempoolInit
  postedWrites := []
  postedReads := []
  bios := []

theorem failed_calls_undone_iff_sample :
    (∀ (replicas : Nat) (diskbackup : Bool) (tmp : Nat) (input : WriteInput replicas)
        (result : CallEnd Unit), sample.rdmaWrite diskbackup tmp input = .ok result →
      (WriteUndone tmp result ↔ sample.WriteTakesNothing tmp input)) ∧
    ∀ (cb rbIndex offset : Nat) (req : Unit) (posted : Bool) (waited : List Nat)
        (result : CallEnd Unit), waited.Nodup → waited.Disjoint sample.readFreepool →
      sample.rdmaRead cb rbIndex offset req posted waited = .ok result →
        (ReadUndone result ↔ posted = true) :=
  failed_calls_undone_iff sample (by decide)

/-- With two replicas, the post of the other one fails. -/
def otherRefused : WriteInput 1 where
  blocks := some (fun j => (j.val, 0), .active)
  offset := 0
  posts := fun j => if j = 0 then .posted else .refused
  waits := fun _ => []

/-- The write to the primary replica is posted and sends the item, and both contexts are lost. -/
theorem otherRefused_leaves_trace :
    ¬ ∀ (s : PostSession Unit) (replicas : Nat) (diskbackup : Bool) (tmp : Nat)
      (input : WriteInput replicas) (result : CallEnd Unit), ¬ s.References tmp →
        s.rdmaWrite diskbackup tmp input = .ok result → WriteUndone tmp result := by
  intro claim
  have undone := claim sample 1 false 7 otherRefused _ (by simp [References, sample]) rfl
  obtain ⟨_, back⟩ := undone rfl
  have idle := (back 0 (by decide)).1
  revert idle
  decide

end PostSession

end Valet.Bd
