import Valet.Library.Runs
import Valet.Library.SlotStack
import Mathlib.Data.List.Nodup

/-!
# The context pools

The write and the read contexts of a session in their two pools, and the traffic
over them: calls of `rdma_write` and `rdma_read` take contexts, fill and post
them, and completions, in any order, clear them and put them back.  A pool is a
stack in an array, and the array is what others go through to find the contexts
that are in flight.
-/

namespace Valet.Bd

open Valet.Library

/-- The values of `in_flight`. -/
inductive CtxFlag where
  | ctxIdle
  | ctxRInFlight
  | ctxWInFlight
  deriving DecidableEq

inductive PoolKind where
  | write
  | read
  deriving DecidableEq

/-- Where a context is between two stays in its pool; no function reads it. -/
inductive CtxPhase where
  | pooled
  | taken
  | busy
  | done
  deriving DecidableEq

/-- `struct rdma_ctx`; `rkey` is the key in its work request. -/
structure PoolCtx where
  inFlight : CtxFlag
  cb : Option Nat
  rb : Option Nat
  rkey : Nat
  req : Option Nat
  phase : CtxPhase
  deriving DecidableEq

structure FreePools where
  pool : PoolKind → SlotStack Nat
  ctxs : PoolKind → Nat → PoolCtx
  remoteRkey : Nat → Nat

/-- What happens to a context: it is taken; a write is marked and then posted to a block of a
server; a read is filled and posted; a completion clears it; it is put back. -/
inductive TrafficLabel where
  | get (kind : PoolKind)
  | mark (ctx : Nat)
  | postWrite (ctx cb block : Nat)
  | postRead (ctx cb block req : Nat)
  | complete (kind : PoolKind) (ctx : Nat)
  | put (kind : PoolKind) (ctx : Nat)

/-- The flag of a context that is in flight. -/
def PoolKind.flag : PoolKind → CtxFlag
  | write => .ctxWInFlight
  | read => .ctxRInFlight

namespace FreePools

/-- `rdma_freepool_create` of both pools. -/
def init (capNr : PoolKind → Nat) (remoteRkey : Nat → Nat) : FreePools where
  pool := fun kind => .full (capNr kind) id
  ctxs := fun _ _ => ⟨.ctxIdle, none, none, 0, none, .pooled⟩
  remoteRkey := remoteRkey

def modifyCtx (s : FreePools) (kind : PoolKind) (ctx : Nat) (change : PoolCtx → PoolCtx) :
    FreePools :=
  { s with
    ctxs := Function.update s.ctxs kind
      (Function.update (s.ctxs kind) ctx (change (s.ctxs kind ctx))) }

def withPool (s : FreePools) (kind : PoolKind) (stack : SlotStack Nat) : FreePools :=
  { s with pool := Function.update s.pool kind stack }

/-- `get_rdma_freepool`. -/
def getRdmaFreepool (s : FreePools) (kind : PoolKind) : Option (Nat × FreePools) :=
  (s.pool kind).get.map fun (ctx, stack) => (ctx, s.withPool kind stack)

/-- `put_rdma_freepool`; `none` is its `BUG_ON`. -/
def putRdmaFreepool (s : FreePools) (kind : PoolKind) (ctx : Nat) : Option FreePools :=
  ((s.pool kind).put ctx).map fun stack => s.withPool kind stack

/-- What a completion leaves of a context: `write_done_postwork`, `read_done_postwork`. -/
def clear (kind : PoolKind) (ctx : PoolCtx) : PoolCtx :=
  match kind with
  | .write => { ctx with rb := none, inFlight := .ctxIdle, phase := .done }
  | .read => { ctx with inFlight := .ctxIdle, req := none, phase := .done }

/-- A completion finds a context in flight, and a write in its block. -/
def completes (kind : PoolKind) (ctx : PoolCtx) : Bool :=
  match kind with
  | .write => ctx.phase = .busy ∧ ctx.rb.isSome
  | .read => ctx.phase = .busy

def step (s : FreePools) : TrafficLabel → Option FreePools
  | .get kind =>
      (s.getRdmaFreepool kind).map fun (ctx, s) =>
        s.modifyCtx kind ctx fun c => { c with phase := .taken }
  | .mark ctx =>
      if (s.ctxs .write ctx).phase = .taken then
        some (s.modifyCtx .write ctx fun c => { c with inFlight := .ctxWInFlight, phase := .busy })
      else
        none
  | .postWrite ctx cb block =>
      if (s.ctxs .write ctx).phase = .busy ∧ (s.ctxs .write ctx).rb = none then
        some (s.modifyCtx .write ctx fun c =>
          { c with cb := some cb, rb := some block, rkey := s.remoteRkey block })
      else
        none
  | .postRead ctx cb block req =>
      if (s.ctxs .read ctx).phase = .taken then
        some (s.modifyCtx .read ctx fun c =>
          { c with
            cb := some cb
            req := some req
            rkey := s.remoteRkey block
            inFlight := .ctxRInFlight
            phase := .busy })
      else
        none
  | .complete kind ctx =>
      if completes kind (s.ctxs kind ctx) then some (s.modifyCtx kind ctx (clear kind)) else none
  | .put kind ctx =>
      if (s.ctxs kind ctx).phase = .done then
        (s.putRdmaFreepool kind ctx).map fun s =>
          s.modifyCtx kind ctx fun c => { c with phase := .pooled }
      else
        none

/-- A call has the context and has not cleared it. -/
def InUse (s : FreePools) (kind : PoolKind) (ctx : Nat) : Prop :=
  (s.ctxs kind ctx).phase = .taken ∨ (s.ctxs kind ctx).phase = .busy

/-- What holds of the pools whatever the traffic. -/
structure Sound (s : FreePools) : Prop where
  stack : ∀ kind, (s.pool kind).Sound
  distinct : ∀ kind, (s.pool kind).live.Nodup
  pooled : ∀ kind, ∀ ctx ∈ (s.pool kind).live, (s.ctxs kind ctx).phase = .pooled
  flag : ∀ kind ctx, (s.ctxs kind ctx).inFlight =
    if (s.ctxs kind ctx).phase = .busy then kind.flag else .ctxIdle
  rb : ∀ kind ctx, (s.ctxs kind ctx).rb ≠ none →
    kind = .write ∧ (s.ctxs kind ctx).phase = .busy

variable {s next : FreePools} {kind other : PoolKind} {ctx one : Nat}

theorem modifyCtx_self (change : PoolCtx → PoolCtx) :
    (s.modifyCtx kind ctx change).ctxs kind ctx = change (s.ctxs kind ctx) := by
  simp [modifyCtx]

theorem modifyCtx_other {change : PoolCtx → PoolCtx} (apart : ¬ (other = kind ∧ one = ctx)) :
    (s.modifyCtx kind ctx change).ctxs other one = s.ctxs other one := by
  rw [modifyCtx]
  rcases eq_or_ne other kind with rfl | ne
  · dsimp only
    rw [Function.update_self, Function.update_of_ne fun same => apart ⟨rfl, same⟩]
  · dsimp only
    rw [Function.update_of_ne ne]

theorem modifyCtx_kind {change : PoolCtx → PoolCtx} (apart : other ≠ kind) :
    (s.modifyCtx kind ctx change).ctxs other = s.ctxs other :=
  Function.update_of_ne apart _ _

/-- What holds of the context that is changed and of the others holds of all. -/
theorem modifyCtx_all {P : PoolKind → Nat → PoolCtx → Prop} {change : PoolCtx → PoolCtx}
    (others : ∀ other one, P other one (s.ctxs other one))
    (changed : P kind ctx (change (s.ctxs kind ctx))) (other : PoolKind) (one : Nat) :
    P other one ((s.modifyCtx kind ctx change).ctxs other one) := by
  by_cases here : other = kind ∧ one = ctx
  · obtain ⟨rfl, rfl⟩ := here
    rw [modifyCtx_self]
    exact changed
  · rw [modifyCtx_other here]
    exact others other one

theorem withPool_self (stack : SlotStack Nat) : (s.withPool kind stack).pool kind = stack :=
  Function.update_self _ _ _

theorem withPool_other {stack : SlotStack Nat} (apart : other ≠ kind) :
    (s.withPool kind stack).pool other = s.pool other :=
  Function.update_of_ne apart _ _

/-- What holds of the pool that is changed and of the other one holds of both. -/
theorem withPool_all {P : PoolKind → SlotStack Nat → Prop} {stack : SlotStack Nat}
    (others : ∀ other, P other (s.pool other)) (changed : P kind stack) (other : PoolKind) :
    P other ((s.withPool kind stack).pool other) := by
  rcases eq_or_ne other kind with rfl | apart
  · rw [withPool_self]
    exact changed
  · rw [withPool_other apart]
    exact others other

/-- A context on the stack is not the one that a call holds. -/
theorem Sound.not_live (sound : s.Sound) (held : (s.ctxs kind ctx).phase ≠ .pooled) :
    ctx ∉ (s.pool kind).live :=
  fun member => held (sound.pooled kind ctx member)

/-- A context that a call holds is changed. -/
theorem Sound.modifyCtx {change : PoolCtx → PoolCtx} (sound : s.Sound)
    (held : (s.ctxs kind ctx).phase ≠ .pooled)
    (flag : (change (s.ctxs kind ctx)).inFlight =
      if (change (s.ctxs kind ctx)).phase = .busy then kind.flag else .ctxIdle)
    (rb : (change (s.ctxs kind ctx)).rb ≠ none →
      kind = .write ∧ (change (s.ctxs kind ctx)).phase = .busy) :
    (s.modifyCtx kind ctx change).Sound where
  stack := sound.stack
  distinct := sound.distinct
  pooled := by
    intro other one member
    have apart : ¬ (other = kind ∧ one = ctx) := by
      rintro ⟨rfl, rfl⟩
      exact sound.not_live held member
    rw [modifyCtx_other apart]
    exact sound.pooled other one member
  flag := modifyCtx_all
    (P := fun other _ c => c.inFlight = if c.phase = .busy then other.flag else .ctxIdle)
    sound.flag flag
  rb := modifyCtx_all
    (P := fun other _ c => c.rb ≠ none → other = .write ∧ c.phase = .busy) sound.rb rb

/-- What a `get` does. -/
theorem get_cases (edge : s.step (.get kind) = some next) :
    ∃ ctx stack, (s.pool kind).get = some (ctx, stack) ∧
      next = (s.withPool kind stack).modifyCtx kind ctx fun c => { c with phase := .taken } := by
  rw [step, getRdmaFreepool] at edge
  obtain ⟨⟨ctx, after⟩, got, rfl⟩ := Option.map_eq_some_iff.mp edge
  obtain ⟨⟨top, stack⟩, found, same⟩ := Option.map_eq_some_iff.mp got
  obtain ⟨rfl, rfl⟩ := Prod.mk.inj same
  exact ⟨top, stack, found, rfl⟩

/-- What a `put` does. -/
theorem put_cases (edge : s.step (.put kind ctx) = some next) :
    (s.ctxs kind ctx).phase = .done ∧ ∃ stack, (s.pool kind).put ctx = some stack ∧
      next = (s.withPool kind stack).modifyCtx kind ctx fun c => { c with phase := .pooled } := by
  rw [step] at edge
  split at edge
  · rename_i done
    obtain ⟨after, put, rfl⟩ := Option.map_eq_some_iff.mp edge
    obtain ⟨stack, found, rfl⟩ := Option.map_eq_some_iff.mp put
    exact ⟨done, stack, found, rfl⟩
  · cases edge

/-- A step takes a context from its pool, puts one back, or changes one in use. -/
theorem step_cases {label : TrafficLabel} (edge : s.step label = some next) :
    (∃ kind, label = .get kind) ∨ (∃ kind ctx, label = .put kind ctx) ∨
      ∃ kind ctx change, s.InUse kind ctx ∧ next = s.modifyCtx kind ctx change := by
  cases label with
  | get kind => exact .inl ⟨kind, rfl⟩
  | put kind ctx => exact .inr (.inl ⟨kind, ctx, rfl⟩)
  | mark ctx =>
      rw [step] at edge
      split at edge
      · rename_i taken
        cases edge
        exact .inr (.inr ⟨.write, ctx, _, .inl taken, rfl⟩)
      · cases edge
  | postWrite ctx cb block =>
      rw [step] at edge
      split at edge
      · rename_i ready
        cases edge
        exact .inr (.inr ⟨.write, ctx, _, .inr ready.1, rfl⟩)
      · cases edge
  | postRead ctx cb block req =>
      rw [step] at edge
      split at edge
      · rename_i taken
        cases edge
        exact .inr (.inr ⟨.read, ctx, _, .inl taken, rfl⟩)
      · cases edge
  | complete kind ctx =>
      rw [step] at edge
      split at edge
      · rename_i completes
        cases edge
        refine .inr (.inr ⟨kind, ctx, _, .inr ?_, rfl⟩)
        cases kind with
        | write => exact (of_decide_eq_true completes).1
        | read => exact of_decide_eq_true completes
      · cases edge

theorem Sound.get (sound : s.Sound) (edge : s.step (.get kind) = some next) : next.Sound := by
  obtain ⟨ctx, stack, got, rfl⟩ := get_cases edge
  have live := SlotStack.live_get got
  have distinct := sound.distinct kind
  rw [live, List.nodup_append] at distinct
  have fresh : ctx ∉ stack.live := fun member => distinct.2.2 ctx member ctx List.mem_cons_self rfl
  have pooled : (s.ctxs kind ctx).phase = .pooled := by
    apply sound.pooled kind ctx
    rw [live]
    exact List.mem_append_right _ List.mem_cons_self
  have idle := sound.flag kind ctx
  have noBlock := sound.rb kind ctx
  rw [pooled] at idle noBlock
  constructor
  · exact withPool_all (P := fun _ stack => stack.Sound) sound.stack ((sound.stack kind).get got)
  · exact withPool_all (P := fun _ stack => stack.live.Nodup) sound.distinct distinct.1
  · intro other one member
    have here : one ∈ (s.pool other).live ∧ ¬ (other = kind ∧ one = ctx) := by
      rcases eq_or_ne other kind with rfl | apart
      · have inStack : one ∈ stack.live := by
          rwa [FreePools.modifyCtx, withPool_self] at member
        refine ⟨live ▸ List.mem_append_left _ inStack, ?_⟩
        rintro ⟨_, rfl⟩
        exact fresh inStack
      · refine ⟨?_, fun same => apart same.1⟩
        rwa [FreePools.modifyCtx, withPool_other apart] at member
    rw [modifyCtx_other here.2]
    exact sound.pooled other one here.1
  · exact modifyCtx_all
      (P := fun other _ c => c.inFlight = if c.phase = .busy then other.flag else .ctxIdle)
      sound.flag idle
  · refine modifyCtx_all
      (P := fun other _ c => c.rb ≠ none → other = .write ∧ c.phase = .busy) sound.rb ?_
    exact fun some_ => absurd (noBlock some_).2 nofun

theorem Sound.put (sound : s.Sound) (edge : s.step (.put kind ctx) = some next) :
    next.Sound := by
  obtain ⟨done, stack, put, rfl⟩ := put_cases edge
  have live := SlotStack.live_put put
  have held : ctx ∉ (s.pool kind).live := sound.not_live (by rw [done]; nofun)
  have idle := sound.flag kind ctx
  have noBlock := sound.rb kind ctx
  rw [done] at idle noBlock
  constructor
  · exact withPool_all (P := fun _ stack => stack.Sound) sound.stack ((sound.stack kind).put put)
  · refine withPool_all (P := fun _ stack => stack.live.Nodup) sound.distinct ?_
    rw [live, List.nodup_append]
    refine ⟨sound.distinct kind, List.nodup_singleton ctx, ?_⟩
    intro one member last among
    cases List.mem_singleton.mp among
    rintro rfl
    exact held member
  · intro other one member
    by_cases here : other = kind ∧ one = ctx
    · obtain ⟨rfl, rfl⟩ := here
      rw [modifyCtx_self]
    · rw [modifyCtx_other here]
      rcases eq_or_ne other kind with rfl | apart
      · rw [FreePools.modifyCtx, withPool_self, live] at member
        rcases List.mem_append.mp member with before | last
        · exact sound.pooled other one before
        · exact absurd ⟨rfl, List.mem_singleton.mp last⟩ here
      · rw [FreePools.modifyCtx, withPool_other apart] at member
        exact sound.pooled other one member
  · exact modifyCtx_all
      (P := fun other _ c => c.inFlight = if c.phase = .busy then other.flag else .ctxIdle)
      sound.flag idle
  · refine modifyCtx_all
      (P := fun other _ c => c.rb ≠ none → other = .write ∧ c.phase = .busy) sound.rb ?_
    exact fun some_ => absurd (noBlock some_).2 nofun

theorem sound_init (capNr : PoolKind → Nat) (remoteRkey : Nat → Nat) :
    (init capNr remoteRkey).Sound where
  stack := fun kind => SlotStack.full_sound (capNr kind) id
  distinct := by
    intro kind
    rw [init, SlotStack.live_full, List.map_id]
    exact List.nodup_range
  pooled := fun _ _ _ => rfl
  flag := fun _ _ => rfl
  rb := fun _ _ some_ => absurd rfl some_

theorem Sound.step {label : TrafficLabel} (sound : s.Sound) (edge : s.step label = some next) :
    next.Sound := by
  cases label with
  | get kind => exact sound.get edge
  | put kind ctx => exact sound.put edge
  | mark ctx =>
      rw [FreePools.step] at edge
      split at edge
      · rename_i taken
        cases edge
        have noBlock := sound.rb .write ctx
        rw [taken] at noBlock
        apply sound.modifyCtx (by rw [taken]; nofun) rfl
        exact fun some_ => absurd (noBlock some_).2 nofun
      · cases edge
  | postWrite ctx cb block =>
      rw [FreePools.step] at edge
      split at edge
      · rename_i ready
        cases edge
        apply sound.modifyCtx (by rw [ready.1]; nofun) (sound.flag .write ctx)
        exact fun _ => ⟨rfl, ready.1⟩
      · cases edge
  | postRead ctx cb block req =>
      rw [FreePools.step] at edge
      split at edge
      · rename_i taken
        cases edge
        have noBlock := sound.rb .read ctx
        apply sound.modifyCtx (by rw [taken]; nofun) rfl
        exact fun some_ => absurd (noBlock some_).1 nofun
      · cases edge
  | complete kind ctx =>
      rw [FreePools.step] at edge
      split at edge
      · rename_i completes
        cases edge
        cases kind with
        | write =>
            have busy : (s.ctxs .write ctx).phase = .busy := (of_decide_eq_true completes).1
            exact sound.modifyCtx (by rw [busy]; nofun) rfl fun some_ => absurd rfl some_
        | read =>
            have busy : (s.ctxs .read ctx).phase = .busy := of_decide_eq_true completes
            have noBlock := sound.rb .read ctx
            apply sound.modifyCtx (by rw [busy]; nofun) rfl
            exact fun some_ => absurd (noBlock some_).1 nofun
      · cases edge

theorem step_capNr {label : TrafficLabel} (edge : s.step label = some next) (kind : PoolKind) :
    (next.pool kind).capNr = (s.pool kind).capNr := by
  rcases step_cases edge with ⟨from_, rfl⟩ | ⟨from_, one, rfl⟩ | ⟨_, _, _, _, rfl⟩
  · obtain ⟨top, stack, got, rfl⟩ := get_cases edge
    obtain ⟨_, _, rfl⟩ := SlotStack.get_eq_some got
    refine withPool_all (P := fun kind stack => stack.capNr = (s.pool kind).capNr)
      (fun _ => rfl) ?_ kind
    rfl
  · obtain ⟨_, stack, put, rfl⟩ := put_cases edge
    obtain ⟨_, rfl⟩ := SlotStack.put_eq_some put
    refine withPool_all (P := fun kind stack => stack.capNr = (s.pool kind).capNr)
      (fun _ => rfl) ?_ kind
    rfl
  · rfl

end FreePools

end Valet.Bd
