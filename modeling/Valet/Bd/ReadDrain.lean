import Valet.Bd.Drain

/-!
# Waiting for reads

The scan of the read pool recognises the block of a context by `rb`, which
`rdma_read` leaves `NULL`.  So a call that is left alone returns as soon as the
writes are done, whatever reads are in flight.
-/

namespace Valet.Bd

open Valet.Library

namespace DrainState

variable {s called last : DrainState} {pools next : FreePools} {d : Drain} {rkey : Nat}
  {label : DrainLabel}

theorem sound_step {after : DrainState} (sound : s.pools.Sound) (edge : s.step label = some after) :
    after.pools.Sound := by
  cases label with
  | traffic label =>
      obtain ⟨pools, moved, rfl⟩ := Option.map_eq_some_iff.mp edge
      exact sound.step moved
  | call rkey writeonlycheck =>
      rw [step] at edge
      split at edge <;> cases edge
      exact sound
  | scan =>
      rw [step] at edge
      split at edge <;> cases edge
      exact sound

/-- While nothing new is posted to the block nothing is added to what is in flight there. -/
theorem inFlightOn_of_during {kind : PoolKind} {ctx : Nat} {after : DrainState}
    (sound : s.pools.Sound) (during : s.During kind rkey label) (edge : s.step label = some after)
    (inFlight : after.pools.InFlightOn kind rkey ctx) : s.pools.InFlightOn kind rkey ctx := by
  obtain ⟨_, elsewhere⟩ := during
  cases label with
  | traffic label =>
      obtain ⟨pools, moved, rfl⟩ := Option.map_eq_some_iff.mp edge
      exact FreePools.inFlightOn_of_step sound elsewhere moved inFlight
  | call rkey writeonlycheck =>
      rw [step] at edge
      split at edge <;> cases edge
      exact inFlight
  | scan =>
      rw [step] at edge
      split at edge <;> cases edge
      exact inFlight

/-! ## A call that is left alone -/

/-- The scan goes through slots that do not count. -/
theorem scan_through (left : Nat)
    (reach : d.i + left = (pools.pool d.kind).capNr)
    (uncounted : ∀ i, d.i ≤ i → i < (pools.pool d.kind).capNr →
      pools.counts { d with i := i } = false) :
    Run step (fun s label => s.During .read rkey label) ⟨pools, some d⟩
      (List.replicate left .scan) ⟨pools, some { d with i := (pools.pool d.kind).capNr }⟩ := by
  induction left generalizing d with
  | zero =>
      rw [← reach]
      exact .refl _
  | succ left ih =>
      have inside : d.i < (pools.pool d.kind).capNr := by omega
      have here : pools.counts d = false := uncounted d.i (le_refl _) inside
      have edge : (⟨pools, some d⟩ : DrainState).step .scan =
          some ⟨pools, some { d with i := d.i + 1 }⟩ := by
        simp only [step, Drain.scan, if_pos inside, here, Drain.count]
        cases kind : d.kind <;> rfl
      refine .head ⟨rfl, trivial⟩ edge (ih ?_ ?_)
      · dsimp only
        omega
      · exact fun i from_ less => uncounted i (Nat.le_of_succ_le from_) less

/-- The writes to the block that the array lists complete. -/
theorem complete_listed (d : Drain) (rkey : Nat) (sound : pools.Sound) (count : Nat) :
    ∃ labels next, Run step (fun s label => s.During .read rkey label) ⟨pools, some d⟩ labels
        ⟨next, some d⟩ ∧ next.Sound ∧ next.pool = pools.pool ∧ next.ctxs .read = pools.ctxs .read ∧
      next.remoteRkey = pools.remoteRkey ∧
      ∀ i, i < count → ∀ ctx, (pools.pool .write).elements i = some ctx →
        ¬ next.InFlightOn .write rkey ctx := by
  induction count with
  | zero =>
      exact ⟨[], pools, .refl _, sound, rfl, rfl, rfl, fun i less => absurd less (Nat.not_lt_zero i)⟩
  | succ count ih =>
      obtain ⟨labels, middle, run, middleSound, pool, reads, keys, done⟩ := ih
      by_cases listed : ∃ ctx, (pools.pool .write).elements count = some ctx ∧
          middle.InFlightOn .write rkey ctx
      · obtain ⟨ctx, found, inFlight⟩ := listed
        have some_ : ((middle.ctxs .write ctx).rb).isSome = true := by
          obtain ⟨_, rb, some_, _⟩ := inFlight
          rw [some_]
          rfl
        have busy := (middleSound.rb .write ctx (Option.isSome_iff_ne_none.mp some_)).2
        have edge : middle.step (.complete .write ctx) =
            some (middle.modifyCtx .write ctx (FreePools.clear .write)) :=
          if_pos (decide_eq_true ⟨busy, some_⟩)
        have finish : (⟨middle, some d⟩ : DrainState).step (.traffic (.complete .write ctx)) =
            some ⟨middle.modifyCtx .write ctx (FreePools.clear .write), some d⟩ := by
          rw [step, edge]
          rfl
        refine ⟨labels ++ [.traffic (.complete .write ctx)], _,
          run.trans (.head ⟨rfl, trivial⟩ finish (.refl _)), middleSound.step edge, pool, ?_, keys, ?_⟩
        · rw [← reads]
          exact FreePools.modifyCtx_kind fun bad => by cases bad
        · intro i less one at_ still
          rcases Nat.lt_succ_iff_lt_or_eq.mp less with before | rfl
          · have elsewhere : middle.PostsElsewhere .write rkey (.complete .write ctx) := trivial
            exact done i before one at_
              (FreePools.inFlightOn_of_step middleSound elsewhere edge still)
          · rw [found] at at_
            cases at_
            have cleared := still.1
            rw [FreePools.modifyCtx_self] at cleared
            cases cleared
      · refine ⟨labels, middle, run, middleSound, pool, reads, keys, ?_⟩
        intro i less ctx at_ inFlight
        rcases Nat.lt_succ_iff_lt_or_eq.mp less with before | rfl
        · exact done i before ctx at_ inFlight
        · exact listed ⟨ctx, at_, inFlight⟩

/-- No read context counts. -/
theorem read_uncounted (sound : pools.Sound) (kind : d.kind = .read) : pools.counts d = false := by
  unfold FreePools.counts
  rw [kind]
  split
  · rfl
  · rename_i ctx found
    cases block : (pools.ctxs .read ctx).rb with
    | none => rfl
    | some rb =>
        have write := (sound.rb .read ctx (by rw [block]; nofun)).1
        cases write

theorem write_uncounted (kind : d.kind = .write)
    (done : ∀ ctx, (pools.pool .write).elements d.i = some ctx →
      ¬ pools.InFlightOn .write d.rkey ctx) : pools.counts d = false := by
  cases counted : pools.counts d with
  | false => rfl
  | true =>
      unfold FreePools.counts at counted
      rw [kind] at counted
      split at counted
      · cases counted
      · rename_i ctx found
        split at counted
        · cases counted
        · rename_i rb block
          obtain ⟨same, flag⟩ := of_decide_eq_true counted
          exact absurd ⟨flag, rb, block, same⟩ (done ctx found)

/-- A call can return without any read having completed. -/
theorem returns_without_reads (rkey : Nat) (sound : pools.Sound) :
    ∃ more next, Run step (fun s label => s.During .read rkey label)
        ⟨pools, some ⟨rkey, false, .write, 0, 0, 0⟩⟩ more ⟨next, none⟩ ∧
      next.ctxs .read = pools.ctxs .read := by
  obtain ⟨labels, next, completes, nextSound, pool, reads, _, done⟩ :=
    complete_listed ⟨rkey, false, .write, 0, 0, 0⟩ rkey sound
      (pools.pool .write).capNr
  have writes : Run step (fun s label => s.During .read rkey label)
      ⟨next, some ⟨rkey, false, .write, 0, 0, 0⟩⟩ _
      ⟨next, some ⟨rkey, false, .write, (next.pool .write).capNr, 0, 0⟩⟩ :=
    scan_through (next.pool .write).capNr (Nat.zero_add _) fun i _ less =>
      write_uncounted rfl (by rw [pool] at less ⊢; exact done i less)
  have turn : (⟨next, some ⟨rkey, false, .write, (next.pool .write).capNr, 0, 0⟩⟩ :
      DrainState).step .scan = some ⟨next, some ⟨rkey, false, .read, 0, 0, 0⟩⟩ := by
    simp [step, Drain.scan]
  have readScan : Run step (fun s label => s.During .read rkey label)
      ⟨next, some ⟨rkey, false, .read, 0, 0, 0⟩⟩ _
      ⟨next, some ⟨rkey, false, .read, (next.pool .read).capNr, 0, 0⟩⟩ :=
    scan_through (next.pool .read).capNr (Nat.zero_add _) fun i _ _ => read_uncounted nextSound rfl
  have finish : (⟨next, some ⟨rkey, false, .read, (next.pool .read).capNr, 0, 0⟩⟩ :
      DrainState).step .scan = some ⟨next, none⟩ := by
    simp [step, Drain.scan, Drain.pass]
  have last := readScan.trans (.head ⟨rfl, trivial⟩ finish (.refl _))
  exact ⟨_, next, completes.trans (writes.trans (.head ⟨rfl, trivial⟩ turn last)), reads⟩

/-- No read of the block is in flight. -/
structure NoReads (rkey : Nat) (s : DrainState) : Prop where
  sound : s.pools.Sound
  none : ∀ ctx, ¬ s.pools.InFlightOn .read rkey ctx

theorem NoReads.step {label : DrainLabel} {after : DrainState} (noReads : NoReads rkey s)
    (during : s.During .read rkey label) (edge : s.step label = some after) :
    NoReads rkey after where
  sound := sound_step noReads.sound edge
  none := fun ctx inFlight =>
    noReads.none ctx (inFlightOn_of_during noReads.sound during edge inFlight)

/-- A call waits for the reads of the block exactly when there are none to wait for. -/
theorem drain_reads_done_iff {capNr : PoolKind → Nat} {remoteRkey : Nat → Nat}
    {history : List DrainLabel}
    (before : Run step always (init capNr remoteRkey) history s)
    (call : s.step (.call rkey false) = some called) :
    (∀ more last, Run step (fun s label => s.During .read rkey label) called more last →
        last.drain = none → ∀ ctx, ¬ last.pools.InFlightOn .read rkey ctx) ↔
      ∀ ctx, ¬ s.pools.InFlightOn .read rkey ctx := by
  have sound : s.pools.Sound :=
    before.preserves (fun sound _ edge => sound_step sound edge)
      (FreePools.sound_init capNr remoteRkey)
  have start : called = ⟨s.pools, some ⟨rkey, false, .write, 0, 0, 0⟩⟩ := by
    rw [step] at call
    split at call <;> cases call
    rfl
  rw [start]
  constructor
  · intro waits ctx inFlight
    obtain ⟨more, next, run, reads⟩ := returns_without_reads rkey sound
    apply waits more ⟨next, none⟩ run rfl ctx
    have same : next.ctxs .read ctx = s.pools.ctxs .read ctx := congrFun reads ctx
    obtain ⟨flag, key⟩ := inFlight
    exact ⟨by rw [same]; exact flag, by rw [same]; exact key⟩
  · intro nothing more last run _ ctx inFlight
    have kept : NoReads rkey last :=
      run.preserves (fun noReads during edge => noReads.step during edge) ⟨sound, nothing⟩
    exact kept.none ctx inFlight

/-- A call while nothing is in flight. -/
theorem drain_reads_done_iff_idle : ∃ called, twoContexts.step (.call 0 false) = some called ∧
    ((∀ more last, Run step (fun s label => s.During .read 0 label) called more last →
        last.drain = none → ∀ ctx, ¬ last.pools.InFlightOn .read 0 ctx) ↔
      ∀ ctx, ¬ twoContexts.pools.InFlightOn .read 0 ctx) :=
  ⟨_, rfl, drain_reads_done_iff (.refl _) rfl⟩

/-- One read. -/
def oneRead : List DrainLabel :=
  [.traffic (.get .read), .traffic (.postRead 1 0 0 0)]

/-- The call goes through both pools once and returns. -/
theorem oneRead_missed :
    ¬ ∀ (history more : List DrainLabel) (s called last : DrainState) (rkey : Nat),
      Run step always twoContexts history s → s.step (.call rkey false) = some called →
        Run step (fun s label => s.During .read rkey label) called more last →
          last.drain = none → ∀ ctx, ¬ last.pools.InFlightOn .read rkey ctx := by
  intro claim
  have runs : ((exec step twoContexts oneRead).bind fun s =>
      (s.step (.call 0 false)).bind fun called =>
        (exec (guardedStep step fun s label => s.During .read 0 label) called
          (List.replicate 6 .scan)).map fun last =>
            (last.drain.isNone, decide ((last.pools.ctxs .read 1).inFlight = .ctxRInFlight),
              (last.pools.ctxs .read 1).rkey)) = some (true, true, 0) := by decide +kernel
  obtain ⟨s, ran, runs⟩ := Option.bind_eq_some_iff.mp runs
  obtain ⟨called, call, runs⟩ := Option.bind_eq_some_iff.mp runs
  obtain ⟨last, during, found⟩ := Option.map_eq_some_iff.mp runs
  simp only [Prod.mk.injEq] at found
  obtain ⟨returned, flag, key⟩ := found
  exact claim oneRead _ s called last 0 (run_of_exec ran) call (run_of_guarded during)
    (Option.isNone_iff_eq_none.mp returned) 1 ⟨of_decide_eq_true flag, key⟩

end DrainState

end Valet.Bd
