import Valet.Bd.FreePools

/-!
# Waiting for the requests in flight

`valet_wait_in_flight_requests` goes through the arrays of the pools, slot by
slot, while the traffic goes on, and returns after a pass in which it counted
nothing.  It recognises the block of a context by `rb`, which only writes set.
-/

namespace Valet.Bd

open Valet.Library

/-- The variables of a call of `valet_wait_in_flight_requests`: the pool and the slot it is at, and
what it counted on this pass. -/
structure Drain where
  rkey : Nat
  writeonlycheck : Bool
  kind : PoolKind
  i : Nat
  wrActive : Nat
  rdActive : Nat

/-- The pools with a call of `valet_wait_in_flight_requests`, if there is one. -/
structure DrainState where
  pools : FreePools
  drain : Option Drain

inductive DrainLabel where
  | traffic (label : TrafficLabel)
  | call (rkey : Nat) (writeonlycheck : Bool)
  | scan

namespace FreePools

/-- The context is of a request in flight to the block with the key. -/
def OnBlock (remoteRkey : Nat → Nat) (rkey : Nat) : PoolKind → PoolCtx → Prop
  | .write, c => c.inFlight = .ctxWInFlight ∧ ∃ rb, c.rb = some rb ∧ remoteRkey rb = rkey
  | .read, c => c.inFlight = .ctxRInFlight ∧ c.rkey = rkey

def InFlightOn (s : FreePools) (kind : PoolKind) (rkey ctx : Nat) : Prop :=
  OnBlock s.remoteRkey rkey kind (s.ctxs kind ctx)

/-- The step posts nothing from the pool to the block with the key. -/
def PostsElsewhere (s : FreePools) (kind : PoolKind) (rkey : Nat) : TrafficLabel → Prop
  | .postWrite _ _ block => kind = .write → s.remoteRkey block ≠ rkey
  | .postRead _ _ block _ => kind = .read → s.remoteRkey block ≠ rkey
  | _ => True

/-- The array of the writes lists all contexts in use. -/
def AllListed (s : FreePools) : Prop :=
  ∀ ctx, s.InUse .write ctx → (s.pool .write).Lists ctx

/-- A write context that is put back does not overwrite the last slot that lists another one in
use. -/
def KeepsListed (s : FreePools) : TrafficLabel → Prop
  | .put .write ctx => ∀ other ∈ (s.pool .write).elements (s.pool .write).currNr,
      s.InUse .write other → other = ctx ∨ (s.pool .write).ListsElsewhere other
  | _ => True

/-- Whether the scan counts the slot. -/
def counts (s : FreePools) (d : Drain) : Bool :=
  match (s.pool d.kind).elements d.i with
  | none => false
  | some ctx =>
      match (s.ctxs d.kind ctx).rb with
      | none => false
      | some rb =>
          decide (s.remoteRkey rb = d.rkey ∧ (s.ctxs d.kind ctx).inFlight = d.kind.flag)

end FreePools

namespace Drain

/-- A slot is done, and counted if it is active. -/
def count (d : Drain) (active : Bool) : Drain :=
  match d.kind with
  | .write => { d with i := d.i + 1, wrActive := d.wrActive + active.toNat }
  | .read => { d with i := d.i + 1, rdActive := d.rdActive + active.toNat }

/-- The end of a pass: the return, or the next pass. -/
def pass (d : Drain) : Option Drain :=
  if d.wrActive = 0 ∧ d.rdActive = 0 then
    none
  else
    some { d with kind := .write, i := 0, wrActive := 0, rdActive := 0 }

/-- One slot, or the end of a pool. -/
def scan (s : FreePools) (d : Drain) : Option Drain :=
  if d.i < (s.pool d.kind).capNr then
    some (d.count (s.counts d))
  else
    match d.kind with
    | .write => if d.writeonlycheck then d.pass else some { d with kind := .read, i := 0 }
    | .read => d.pass

end Drain

namespace DrainState

def step (s : DrainState) : DrainLabel → Option DrainState
  | .traffic label => (s.pools.step label).map fun pools => { s with pools := pools }
  | .call rkey writeonlycheck =>
      match s.drain with
      | none => some { s with drain := some ⟨rkey, writeonlycheck, .write, 0, 0, 0⟩ }
      | some _ => none
  | .scan =>
      match s.drain with
      | none => none
      | some d => some { s with drain := d.scan s.pools }

def init (capNr : PoolKind → Nat) (remoteRkey : Nat → Nat) : DrainState :=
  ⟨.init capNr remoteRkey, none⟩

/-- The call has not returned, and nothing new is posted from the pool to the block. -/
def During (kind : PoolKind) (rkey : Nat) (s : DrainState) (label : DrainLabel) : Prop :=
  s.drain.isSome = true ∧
    match label with
    | .traffic label => s.pools.PostsElsewhere kind rkey label
    | _ => True

/-- The traffic keeps the contexts in use listed. -/
def KeepsListed (s : DrainState) : DrainLabel → Prop
  | .traffic label => s.pools.KeepsListed label
  | _ => True

end DrainState

namespace FreePools

variable {s next : FreePools} {kind : PoolKind} {rkey ctx : Nat} {label : TrafficLabel}

theorem step_remoteRkey (edge : s.step label = some next) : next.remoteRkey = s.remoteRkey := by
  rcases step_cases edge with ⟨kind, rfl⟩ | ⟨kind, ctx, rfl⟩ | ⟨_, _, _, _, rfl⟩
  · obtain ⟨_, _, _, rfl⟩ := get_cases edge
    rfl
  · obtain ⟨_, _, _, rfl⟩ := put_cases edge
    rfl
  · rfl

/-- A request in flight was so before the step, unless the step posted it. -/
theorem inFlightOn_of_step (sound : s.Sound) (elsewhere : s.PostsElsewhere kind rkey label)
    (edge : s.step label = some next) (inFlight : next.InFlightOn kind rkey ctx) :
    s.InFlightOn kind rkey ctx := by
  rw [InFlightOn, step_remoteRkey edge] at inFlight
  revert inFlight
  cases label with
  | get from_ =>
      obtain ⟨top, stack, _, rfl⟩ := get_cases edge
      refine modifyCtx_all (s := s.withPool from_ stack) (P := fun other one c =>
        OnBlock s.remoteRkey rkey other c → s.InFlightOn other rkey one) (fun _ _ => id) ?_ kind ctx
      cases from_ <;> exact id
  | put from_ ctx =>
      obtain ⟨_, stack, _, rfl⟩ := put_cases edge
      refine modifyCtx_all (s := s.withPool from_ stack) (P := fun other one c =>
        OnBlock s.remoteRkey rkey other c → s.InFlightOn other rkey one) (fun _ _ => id) ?_ kind _
      cases from_ <;> exact id
  | mark ctx =>
      rw [step] at edge
      split at edge
      · rename_i taken
        cases edge
        refine modifyCtx_all (P := fun other one c => OnBlock s.remoteRkey rkey other c →
          s.InFlightOn other rkey one) (fun _ _ => id) ?_ kind _
        rintro ⟨_, rb, some_, _⟩
        have busy := (sound.rb .write ctx (Option.ne_none_iff_exists'.mpr ⟨rb, some_⟩)).2
        rw [taken] at busy
        cases busy
      · cases edge
  | postWrite ctx cb block =>
      rw [step] at edge
      split at edge
      · cases edge
        refine modifyCtx_all (P := fun other one c => other = kind →
          OnBlock s.remoteRkey rkey other c → s.InFlightOn other rkey one)
          (fun _ _ _ => id) ?_ kind _ rfl
        rintro rfl ⟨_, rb, some_, same⟩
        cases some_
        exact absurd same (elsewhere rfl)
      · cases edge
  | postRead ctx cb block req =>
      rw [step] at edge
      split at edge
      · cases edge
        refine modifyCtx_all (P := fun other one c => other = kind →
          OnBlock s.remoteRkey rkey other c → s.InFlightOn other rkey one)
          (fun _ _ _ => id) ?_ kind _ rfl
        rintro rfl ⟨_, same⟩
        exact absurd same (elsewhere rfl)
      · cases edge
  | complete from_ ctx =>
      rw [step] at edge
      split at edge
      · cases edge
        refine modifyCtx_all (P := fun other one c => OnBlock s.remoteRkey rkey other c →
          s.InFlightOn other rkey one) (fun _ _ => id) ?_ kind _
        cases from_ with
        | write =>
            rintro ⟨idle, _⟩
            cases idle
        | read =>
            rintro ⟨idle, _⟩
            cases idle
      · cases edge

/-- A slot that lists a write in flight on the block is counted. -/
theorem counts_of_inFlightOn {d : Drain} (kind : d.kind = .write)
    (found : (s.pool .write).elements d.i = some ctx) (inFlight : s.InFlightOn .write d.rkey ctx) :
    s.counts d = true := by
  obtain ⟨flag, rb, some_, same⟩ := inFlight
  simp only [counts, kind, found, some_, same, flag]
  rfl

/-! ## What the array lists -/

theorem AllListed.modifyCtx {from_ : PoolKind} {one : Nat} {change : PoolCtx → PoolCtx}
    (listed : s.AllListed)
    (held : (s.ctxs from_ one).phase = .taken ∨ (s.ctxs from_ one).phase = .busy) :
    (s.modifyCtx from_ one change).AllListed := by
  intro ctx
  refine modifyCtx_all (P := fun other ctx c => other = .write →
    c.phase = .taken ∨ c.phase = .busy → (s.pool .write).Lists ctx) ?_ ?_ .write ctx rfl
  · rintro other ctx rfl
    exact listed ctx
  · rintro rfl _
    exact listed one held

theorem AllListed.get (listed : s.AllListed) (sound : s.Sound)
    (edge : s.step (.get kind) = some next) : next.AllListed := by
  obtain ⟨top, stack, got, rfl⟩ := get_cases edge
  have same : ∀ ctx, ((s.withPool kind stack).pool .write).Lists ctx ↔
      (s.pool .write).Lists ctx := by
    intro ctx
    cases kind with
    | write =>
        rw [withPool_self]
        exact SlotStack.lists_get_iff got
    | read => rw [withPool_other (by nofun)]
  intro ctx
  refine modifyCtx_all (s := s.withPool kind stack) (P := fun other ctx c => other = .write →
    c.phase = .taken ∨ c.phase = .busy → ((s.withPool kind stack).pool .write).Lists ctx)
    ?_ ?_ .write ctx rfl
  · rintro other ctx rfl used
    exact (same ctx).mpr (listed ctx used)
  · rintro rfl _
    exact (same top).mpr (SlotStack.lists_got (sound.stack .write) got)

theorem AllListed.put {one : Nat} (listed : s.AllListed)
    (keeps : s.KeepsListed (.put kind one)) (edge : s.step (.put kind one) = some next) :
    next.AllListed := by
  obtain ⟨done, stack, put, rfl⟩ := put_cases edge
  intro ctx
  refine modifyCtx_all (s := s.withPool kind stack) (P := fun other ctx c => other = .write →
    c.phase = .taken ∨ c.phase = .busy → ((s.withPool kind stack).pool .write).Lists ctx)
    ?_ ?_ .write ctx rfl
  · rintro other ctx rfl used
    cases kind with
    | read =>
        rw [withPool_other (by nofun)]
        exact listed ctx used
    | write =>
        rw [withPool_self, SlotStack.lists_put_iff put]
        obtain ⟨i, less, found⟩ := listed ctx used
        rcases eq_or_ne i (s.pool .write).currNr with rfl | apart
        · exact keeps ctx found used
        · exact .inr ⟨i, less, apart, found⟩
  · rintro rfl (taken | busy)
    · cases taken
    · cases busy

/-- While no put overwrites the last slot of another context in use, all of them stay listed. -/
theorem AllListed.step (listed : s.AllListed) (sound : s.Sound) (keeps : s.KeepsListed label)
    (edge : s.step label = some next) : next.AllListed := by
  rcases step_cases edge with ⟨kind, rfl⟩ | ⟨kind, ctx, rfl⟩ | ⟨kind, ctx, change, used, rfl⟩
  · exact listed.get sound edge
  · exact listed.put keeps edge
  · exact listed.modifyCtx used

theorem allListed_init (capNr : PoolKind → Nat) (remoteRkey : Nat → Nat) :
    (init capNr remoteRkey).AllListed := by
  rintro ctx (taken | busy)
  · cases taken
  · cases busy

/-- What a step leaves of a slot: its element, or the context that is put there. -/
theorem elements_of_step {i : Nat} (edge : s.step label = some next)
    (found : (next.pool kind).elements i = some ctx) :
    (s.pool kind).elements i = some ctx ∨ (next.ctxs kind ctx).phase = .pooled := by
  rcases step_cases edge with ⟨from_, rfl⟩ | ⟨from_, one, rfl⟩ | ⟨_, _, _, _, rfl⟩
  · obtain ⟨top, stack, got, rfl⟩ := get_cases edge
    obtain ⟨_, _, rfl⟩ := SlotStack.get_eq_some got
    rw [FreePools.modifyCtx] at found
    rcases eq_or_ne kind from_ with rfl | apart
    · rw [withPool_self] at found
      exact .inl found
    · rw [withPool_other apart] at found
      exact .inl found
  · obtain ⟨_, stack, put, rfl⟩ := put_cases edge
    obtain ⟨_, rfl⟩ := SlotStack.put_eq_some put
    rcases eq_or_ne kind from_ with rfl | apart
    · rw [FreePools.modifyCtx, withPool_self] at found
      dsimp only at found
      rcases eq_or_ne i (s.pool kind).currNr with rfl | elsewhere
      · rw [Function.update_self] at found
        cases found
        rw [modifyCtx_self]
        exact .inr rfl
      · rw [Function.update_of_ne elsewhere] at found
        exact .inl found
    · rw [FreePools.modifyCtx, withPool_other apart] at found
      exact .inl found
  · exact .inl found

end FreePools

namespace DrainState

variable {s next : DrainState} {kind : PoolKind} {rkey : Nat} {label : DrainLabel}

/-! ## Writes -/

/-- What holds in every run that keeps the contexts in use listed. -/
structure Tracked (s : DrainState) : Prop where
  sound : s.pools.Sound
  listed : s.pools.AllListed

theorem Tracked.step (tracked : s.Tracked) (keeps : s.KeepsListed label)
    (edge : s.step label = some next) : next.Tracked := by
  cases label with
  | traffic label =>
      obtain ⟨pools, moved, rfl⟩ := Option.map_eq_some_iff.mp edge
      exact ⟨tracked.sound.step moved, tracked.listed.step tracked.sound keeps moved⟩
  | call rkey writeonlycheck =>
      rw [DrainState.step] at edge
      split at edge <;> cases edge
      exact ⟨tracked.sound, tracked.listed⟩
  | scan =>
      rw [DrainState.step] at edge
      split at edge <;> cases edge
      exact ⟨tracked.sound, tracked.listed⟩

/-- How far the scan of the write pool has come on this pass. -/
def scanned (pools : FreePools) (d : Drain) : Nat :=
  match d.kind with
  | .write => d.i
  | .read => (pools.pool .write).capNr

/-- No slot that was scanned on this pass lists the context. -/
def Unscanned (pools : FreePools) (d : Drain) (ctx : Nat) : Prop :=
  ∀ i, i < scanned pools d → (pools.pool .write).elements i ≠ some ctx

/-- As long as nothing was counted the writes in flight on the block are yet to be scanned, and
none is in flight when the call has returned. -/
def Watched (rkey : Nat) (pools : FreePools) : Option Drain → Prop
  | none => ∀ ctx, ¬ pools.InFlightOn .write rkey ctx
  | some d => d.rkey = rkey ∧
      (d.wrActive = 0 → ∀ ctx, pools.InFlightOn .write rkey ctx → Unscanned pools d ctx)

variable {pools after : FreePools} {drain : Option Drain} {d : Drain}

theorem Watched.traffic {label : TrafficLabel} (watched : Watched rkey pools drain)
    (sound : pools.Sound) (elsewhere : pools.PostsElsewhere .write rkey label)
    (edge : pools.step label = some after) : Watched rkey after drain := by
  have earlier {ctx : Nat} (inFlight : after.InFlightOn .write rkey ctx) :
      pools.InFlightOn .write rkey ctx :=
    FreePools.inFlightOn_of_step sound elsewhere edge inFlight
  cases drain with
  | none => exact fun ctx inFlight => watched ctx (earlier inFlight)
  | some d =>
      obtain ⟨same, unscanned⟩ := watched
      refine ⟨same, fun nothing ctx inFlight i less found => ?_⟩
      have reach : scanned after d = scanned pools d := by
        unfold scanned
        rw [FreePools.step_capNr edge]
      rw [reach] at less
      rcases FreePools.elements_of_step edge found with before | pooled
      · exact unscanned nothing ctx (earlier inFlight) i less before
      · have flag := (sound.step edge).flag .write ctx
        rw [pooled, inFlight.1] at flag
        cases flag

/-- A write in flight is in a slot. -/
theorem not_inFlightOn_of_unscanned (sound : pools.Sound) (listed : pools.AllListed)
    (unscanned : ∀ ctx, pools.InFlightOn .write rkey ctx → Unscanned pools d ctx)
    (through : (pools.pool .write).capNr ≤ scanned pools d) (ctx : Nat) :
    ¬ pools.InFlightOn .write rkey ctx := by
  intro inFlight
  have busy : (pools.ctxs .write ctx).phase = .busy := by
    obtain ⟨_, rb, some_, _⟩ := inFlight
    exact (sound.rb .write ctx (by rw [some_]; nofun)).2
  obtain ⟨i, less, found⟩ := listed ctx (.inr busy)
  exact unscanned ctx inFlight i (lt_of_lt_of_le less through) found

theorem Watched.pass (watched : Watched rkey pools (some d)) (sound : pools.Sound)
    (listed : pools.AllListed) (through : (pools.pool .write).capNr ≤ scanned pools d) :
    Watched rkey pools d.pass := by
  obtain ⟨same, unscanned⟩ := watched
  unfold Drain.pass
  split
  · rename_i nothing
    exact not_inFlightOn_of_unscanned sound listed (unscanned nothing.1) through
  · exact ⟨same, fun _ _ _ i less => absurd less (Nat.not_lt_zero i)⟩

theorem Watched.count (watched : Watched rkey pools (some d)) :
    Watched rkey pools (some (d.count (pools.counts d))) := by
  obtain ⟨same, unscanned⟩ := watched
  unfold Drain.count
  split
  · rename_i kind
    refine ⟨same, fun nothing ctx inFlight i less found => ?_⟩
    rw [scanned, kind] at less
    obtain ⟨before, uncounted⟩ := Nat.add_eq_zero_iff.mp nothing
    rcases Nat.lt_succ_iff_lt_or_eq.mp less with earlier | rfl
    · refine unscanned before ctx inFlight i ?_ found
      rw [scanned, kind]
      exact earlier
    · have counted := FreePools.counts_of_inFlightOn kind found (by rw [same]; exact inFlight)
      rw [counted] at uncounted
      cases uncounted
  · rename_i kind
    refine ⟨same, fun nothing ctx inFlight i less found => ?_⟩
    rw [scanned, kind] at less
    refine unscanned nothing ctx inFlight i ?_ found
    rw [scanned, kind]
    exact less

theorem Watched.scan (watched : Watched rkey pools (some d)) (sound : pools.Sound)
    (listed : pools.AllListed) : Watched rkey pools (d.scan pools) := by
  unfold Drain.scan
  split
  · exact watched.count
  · rename_i past
    have past := Nat.le_of_not_lt past
    split
    · rename_i kind
      have through : (pools.pool .write).capNr ≤ scanned pools d := by
        rw [kind] at past
        rw [scanned, kind]
        exact past
      split
      · exact watched.pass sound listed through
      · obtain ⟨same, unscanned⟩ := watched
        refine ⟨same, fun nothing ctx inFlight => ?_⟩
        exact absurd inFlight
          (not_inFlightOn_of_unscanned sound listed (unscanned nothing) through ctx)
    · rename_i kind
      apply watched.pass sound listed
      rw [scanned, kind]

theorem watched_step (tracked : s.Tracked) (watched : Watched rkey s.pools s.drain)
    (during : s.During .write rkey label) (edge : s.step label = some next) :
    Watched rkey next.pools next.drain := by
  obtain ⟨running, elsewhere⟩ := during
  cases label with
  | traffic label =>
      obtain ⟨pools, moved, rfl⟩ := Option.map_eq_some_iff.mp edge
      exact watched.traffic tracked.sound elsewhere moved
  | call rkey writeonlycheck =>
      obtain ⟨d, some_⟩ := Option.isSome_iff_exists.mp running
      rw [step, some_] at edge
      cases edge
  | scan =>
      obtain ⟨d, some_⟩ := Option.isSome_iff_exists.mp running
      rw [step, some_] at edge
      cases edge
      rw [some_] at watched
      exact watched.scan tracked.sound tracked.listed

/-- What holds during a call. -/
structure Watching (rkey : Nat) (s : DrainState) : Prop where
  tracked : s.Tracked
  watched : Watched rkey s.pools s.drain

theorem Watching.step (watching : Watching rkey s) (keeps : s.KeepsListed label)
    (during : s.During .write rkey label) (edge : s.step label = some next) :
    Watching rkey next where
  tracked := watching.tracked.step keeps edge
  watched := watched_step watching.tracked watching.watched during edge

theorem tracked_init (capNr : PoolKind → Nat) (remoteRkey : Nat → Nat) :
    (init capNr remoteRkey).Tracked :=
  ⟨FreePools.sound_init capNr remoteRkey, FreePools.allListed_init capNr remoteRkey⟩

/-- In every run in which no put overwrites the last slot of another context in use, a call that
has returned has waited for all writes to the block. -/
theorem drain_writes_done {capNr : PoolKind → Nat} {remoteRkey : Nat → Nat}
    {history more : List DrainLabel} {s called last : DrainState} {rkey : Nat}
    (before : Run step KeepsListed (init capNr remoteRkey) history s)
    (call : s.step (.call rkey true) = some called)
    (during : Run step (fun s label => s.KeepsListed label ∧ s.During .write rkey label) called
      more last)
    (returned : last.drain = none) : ∀ ctx, ¬ last.pools.InFlightOn .write rkey ctx := by
  have tracked : called.Tracked := by
    have start := before.preserves (fun tracked keeps edge => tracked.step keeps edge)
      (tracked_init capNr remoteRkey)
    have keeps : s.KeepsListed (.call rkey true) := trivial
    exact start.step keeps call
  have watched : Watched rkey called.pools called.drain := by
    rw [step] at call
    split at call <;> cases call
    exact ⟨rfl, fun _ _ _ i less => absurd less (Nat.not_lt_zero i)⟩
  have watching : Watching rkey last :=
    during.preserves (fun watching guard edge => watching.step guard.1 guard.2 edge)
      ⟨tracked, watched⟩
  have done := watching.watched
  rw [returned] at done
  exact done

instance (s : DrainState) (label : DrainLabel) : Decidable (s.KeepsListed label) :=
  match label with
  | .traffic (.put .write _) =>
      inferInstanceAs (Decidable (∀ other ∈ (s.pools.pool .write).elements
        (s.pools.pool .write).currNr, (_ ∨ _) → _ ∨ ∃ i, i < (s.pools.pool .write).capNr ∧ _))
  | .traffic (.put .read _) => inferInstanceAs (Decidable True)
  | .traffic (.get _) => inferInstanceAs (Decidable True)
  | .traffic (.mark _) => inferInstanceAs (Decidable True)
  | .traffic (.postWrite _ _ _) => inferInstanceAs (Decidable True)
  | .traffic (.postRead _ _ _ _) => inferInstanceAs (Decidable True)
  | .traffic (.complete _ _) => inferInstanceAs (Decidable True)
  | .call _ _ => inferInstanceAs (Decidable True)
  | .scan => inferInstanceAs (Decidable True)

instance (s : DrainState) (kind : PoolKind) (rkey : Nat) (label : DrainLabel) :
    Decidable (s.During kind rkey label) :=
  match label with
  | .traffic (.postWrite _ _ _) => inferInstanceAs (Decidable (_ ∧ (_ → _)))
  | .traffic (.postRead _ _ _ _) => inferInstanceAs (Decidable (_ ∧ (_ → _)))
  | .traffic (.get _) => inferInstanceAs (Decidable (_ ∧ True))
  | .traffic (.mark _) => inferInstanceAs (Decidable (_ ∧ True))
  | .traffic (.complete _ _) => inferInstanceAs (Decidable (_ ∧ True))
  | .traffic (.put _ _) => inferInstanceAs (Decidable (_ ∧ True))
  | .call _ _ => inferInstanceAs (Decidable (_ ∧ True))
  | .scan => inferInstanceAs (Decidable (_ ∧ True))

/-- A write of context `ctx`, which is on top, to block `0`. -/
def writeOf (ctx : Nat) : List DrainLabel :=
  [.traffic (.get .write), .traffic (.mark ctx), .traffic (.postWrite ctx 0 0)]

/-- Two writes of which the one that took its context first completes first. -/
def crossedWrites : List DrainLabel :=
  writeOf 1 ++ writeOf 0 ++ [.traffic (.complete .write 1), .traffic (.put .write 1)]

def twoContexts : DrainState := init (fun _ => 2) id

/-- The other write is in no slot any more when the call looks for it. -/
theorem crossedWrites_missed :
    ¬ ∀ (history more : List DrainLabel) (s called last : DrainState) (rkey : Nat),
      Run step always twoContexts history s → s.step (.call rkey true) = some called →
        Run step (fun s label => s.During .write rkey label) called more last →
          last.drain = none → ∀ ctx, ¬ last.pools.InFlightOn .write rkey ctx := by
  intro claim
  have runs : ((exec step twoContexts crossedWrites).bind fun s =>
      (s.step (.call 0 true)).bind fun called =>
        (exec (guardedStep step fun s label => s.During .write 0 label) called
          [.scan, .scan, .scan]).map fun last =>
            (last.drain.isNone, decide ((last.pools.ctxs .write 0).inFlight = .ctxWInFlight),
              (last.pools.ctxs .write 0).rb, last.pools.remoteRkey 0)) =
      some (true, true, some 0, 0) := by decide +kernel
  obtain ⟨s, ran, runs⟩ := Option.bind_eq_some_iff.mp runs
  obtain ⟨called, call, runs⟩ := Option.bind_eq_some_iff.mp runs
  obtain ⟨last, during, found⟩ := Option.map_eq_some_iff.mp runs
  simp only [Prod.mk.injEq] at found
  obtain ⟨returned, flag, rb, key⟩ := found
  exact claim crossedWrites _ s called last 0 (run_of_exec ran) call (run_of_guarded during)
    (Option.isNone_iff_eq_none.mp returned) 0 ⟨of_decide_eq_true flag, 0, rb, key⟩

/-- A write that completes while the call waits for it. -/
theorem drain_writes_done_one : ∃ (history more : List DrainLabel) (s called last : DrainState),
    Run step KeepsListed twoContexts history s ∧ s.step (.call 0 true) = some called ∧
      Run step (fun s label => s.KeepsListed label ∧ s.During .write 0 label) called more last ∧
        last.drain = none ∧ ∀ ctx, ¬ last.pools.InFlightOn .write 0 ctx := by
  have runs : ((exec (guardedStep step KeepsListed) twoContexts (writeOf 1)).bind fun s =>
      (s.step (.call 0 true)).bind fun called =>
        (exec (guardedStep step fun s label => s.KeepsListed label ∧ s.During .write 0 label) called
          [.scan, .scan, .traffic (.complete .write 1), .traffic (.put .write 1), .scan, .scan,
            .scan, .scan]).map fun last => last.drain.isNone) = some true := by decide +kernel
  obtain ⟨s, before, runs⟩ := Option.bind_eq_some_iff.mp runs
  obtain ⟨called, call, runs⟩ := Option.bind_eq_some_iff.mp runs
  obtain ⟨last, during, found⟩ := Option.map_eq_some_iff.mp runs
  have returned : last.drain = none := Option.isNone_iff_eq_none.mp found
  exact ⟨_, _, s, called, last, run_of_guarded before, call, run_of_guarded during, returned,
    drain_writes_done (run_of_guarded before) call (run_of_guarded during) returned⟩

end DrainState

end Valet.Bd
