import Valet.Library.Halt
import Valet.Bd.FreePools

/-!
# Requests in flight on a server that disconnects

The part of `valet_disconnect_handler` that settles the requests in flight.  Its
loops count with `j` and look at `elements[i]`, where `i` is what the loop over
the blocks left it at, so that every turn looks at the same slot.  The pools
are as the traffic left them.
-/

namespace Valet.Bd

open Valet.Library

/-- `MAX_MR_SIZE_GB`, where the loop over the blocks leaves `i`. -/
def handlerSlot : Nat := 32

/-- The pools, the requests that were ended, and the reads handed to the disk with their
contexts. -/
structure Settling where
  pools : FreePools
  ended : List Nat
  cloned : List (Nat × Nat)

namespace Settling

/-- `ctx_pool->elements[i]`; an index outside the array or a `NULL` there is an oops. -/
def slotOf (t : Settling) (kind : PoolKind) : Except Halt Nat :=
  if handlerSlot < (t.pools.pool kind).capNr then
    match (t.pools.pool kind).elements handlerSlot with
    | none => .error .oops
    | some ctx => .ok ctx
  else
    .error .oops

def setIdle (t : Settling) (kind : PoolKind) (ctx : Nat) : Settling :=
  { t with pools := t.pools.modifyCtx kind ctx fun c => { c with inFlight := .ctxIdle } }

/-- A turn of the loop over the write contexts. -/
def settleWrite (t : Settling) : Except Halt Settling := do
  let ctx ← t.slotOf .write
  if (t.pools.ctxs .write ctx).inFlight = .ctxWInFlight then
    match (t.pools.ctxs .write ctx).req with
    | none => return t.setIdle .write ctx
    | some req => return { t.setIdle .write ctx with ended := t.ended ++ [req] }
  else
    return t

/-- A turn of the loop over the read contexts; `disk_write_bio_clone` needs a request. -/
def settleRead (t : Settling) : Except Halt Settling := do
  let ctx ← t.slotOf .read
  if (t.pools.ctxs .read ctx).inFlight = .ctxRInFlight then
    match (t.pools.ctxs .read ctx).req with
    | none => .error .oops
    | some req =>
        let t := { t.setIdle .read ctx with cloned := t.cloned ++ [(ctx, req)] }
        match t.pools.putRdmaFreepool .read ctx with
        | none => .error .bugOn
        | some pools => return { t with pools := pools }
  else
    return t

/-- A loop of so many turns. -/
def repeatTurn (turn : Settling → Except Halt Settling) : Nat → Settling → Except Halt Settling
  | 0, t => .ok t
  | count + 1, t => do
      let t ← turn t
      repeatTurn turn count t

/-- Both loops of `valet_disconnect_handler`. -/
def settleInFlight (s : FreePools) : Except Halt Settling := do
  let t ← repeatTurn settleWrite (s.pool .write).capNr ⟨s, [], []⟩
  repeatTurn settleRead (s.pool .read).capNr t

end Settling

namespace FreePools

/-- A request of the pool was posted to the server and has not completed. -/
def OnServer (s : FreePools) (kind : PoolKind) (c ctx : Nat) : Prop :=
  (s.ctxs kind ctx).inFlight = kind.flag ∧ (s.ctxs kind ctx).cb = some c ∧
    (kind = .write → (s.ctxs kind ctx).rb ≠ none)

/-- What was in flight on the server is settled, and nothing else. -/
structure SettlesServer (s : FreePools) (c : Nat) (t : Settling) : Prop where
  idle : ∀ kind ctx, s.OnServer kind c ctx → (t.pools.ctxs kind ctx).inFlight = .ctxIdle
  handed : ∀ ctx, s.OnServer .read c ctx →
    ∃ req, (s.ctxs .read ctx).req = some req ∧ t.cloned.count (ctx, req) = 1
  putBack : ∀ ctx, s.OnServer .read c ctx → (t.pools.pool .read).live.count ctx = 1
  others : ∀ kind other ctx, other ≠ c → s.OnServer kind other ctx →
    t.pools.ctxs kind ctx = s.ctxs kind ctx ∧ ctx ∉ (t.pools.pool kind).live ∧
      (kind = .read → ∀ req, (ctx, req) ∉ t.cloned)

/-- The requests in flight on the server are at most those that slot 32 of each array lists, and
this slot lists none of another server. -/
structure InHandlerSlot (s : FreePools) (c : Nat) : Prop where
  own : ∀ kind ctx, s.OnServer kind c ctx → (s.pool kind).elements handlerSlot = some ctx
  foreign : ∀ kind other ctx, s.OnServer kind other ctx →
    (s.pool kind).elements handlerSlot = some ctx → other = c

end FreePools

namespace Settling

variable {s : FreePools} {t next : Settling} {ctx : Nat}

theorem slotOf_eq (kind : PoolKind) (found : t.slotOf kind = .ok ctx) :
    handlerSlot < (t.pools.pool kind).capNr ∧
      (t.pools.pool kind).elements handlerSlot = some ctx := by
  unfold slotOf at found
  split at found
  · rename_i inside
    split at found
    · cases found
    · rename_i top listed
      cases found
      exact ⟨inside, listed⟩
  · cases found

/-- A turn that changes nothing can be repeated. -/
theorem repeatTurn_fixed {turn : Settling → Except Halt Settling} (fixed : turn t = .ok t)
    (count : Nat) : repeatTurn turn count t = .ok t := by
  induction count with
  | zero => rfl
  | succ count ih => exact bind_eq_ok.mpr ⟨t, fixed, ih⟩

/-- What the loop over the writes does. -/
inductive WritesSettled (t : Settling) : Settling → Prop where
  | nothing {ctx : Nat} (slot : t.slotOf .write = .ok ctx)
      (flag : (t.pools.ctxs .write ctx).inFlight ≠ .ctxWInFlight) : WritesSettled t t
  | cleared {ctx : Nat} {ended : List Nat} (slot : t.slotOf .write = .ok ctx)
      (flag : (t.pools.ctxs .write ctx).inFlight = .ctxWInFlight) :
      WritesSettled t { t.setIdle .write ctx with ended := ended }

theorem settleWrite_cases (ran : t.settleWrite = .ok next) : WritesSettled t next := by
  obtain ⟨ctx, slot, rest⟩ := bind_eq_ok.mp ran
  split at rest
  · rename_i flag
    split at rest
    · cases rest
      exact .cleared slot flag
    · cases rest
      exact .cleared slot flag
  · rename_i flag
    cases rest
    exact .nothing slot flag

/-- The first turn settles the slot; the others find it idle. -/
theorem settleWrites_cases {count : Nat} (some_ : 0 < count)
    (ran : repeatTurn settleWrite count t = .ok next) : WritesSettled t next := by
  obtain ⟨count, rfl⟩ := Nat.exists_eq_succ_of_ne_zero (Nat.ne_of_gt some_)
  obtain ⟨after, first, rest⟩ := bind_eq_ok.mp ran
  have did := settleWrite_cases first
  have fixed : after.settleWrite = .ok after := by
    cases did with
    | nothing slot flag => exact bind_eq_ok.mpr ⟨_, slot, if_neg flag⟩
    | @cleared ctx ended slot flag =>
        refine bind_eq_ok.mpr ⟨ctx, slot, if_neg ?_⟩
        rw [setIdle, FreePools.modifyCtx_self]
        nofun
  rw [repeatTurn_fixed fixed] at rest
  cases rest
  exact did

/-- What the loop over the reads does. -/
inductive ReadsSettled (t : Settling) : Settling → Prop where
  | nothing {ctx : Nat} (slot : t.slotOf .read = .ok ctx)
      (flag : (t.pools.ctxs .read ctx).inFlight ≠ .ctxRInFlight) : ReadsSettled t t
  | cleared {ctx req : Nat} {stack : SlotStack Nat} (slot : t.slotOf .read = .ok ctx)
      (flag : (t.pools.ctxs .read ctx).inFlight = .ctxRInFlight)
      (asked : (t.pools.ctxs .read ctx).req = some req)
      (put : (t.pools.pool .read).put ctx = some stack) :
      ReadsSettled t
        { t.setIdle .read ctx with
          pools := (t.setIdle .read ctx).pools.withPool .read stack
          cloned := t.cloned ++ [(ctx, req)] }

theorem settleRead_cases (ran : t.settleRead = .ok next) : ReadsSettled t next := by
  obtain ⟨ctx, slot, rest⟩ := bind_eq_ok.mp ran
  split at rest
  · rename_i flag
    split at rest
    · cases rest
    · rename_i req asked
      dsimp only at rest
      split at rest
      · cases rest
      · rename_i pools put
        obtain ⟨stack, found, rfl⟩ := Option.map_eq_some_iff.mp put
        cases rest
        exact .cleared slot flag asked found
  · rename_i flag
    cases rest
    exact .nothing slot flag

/-- The put leaves the settled context in the slot. -/
theorem slotOf_put {stack : SlotStack Nat} (slot : t.slotOf .read = .ok ctx)
    (put : (t.pools.pool .read).put ctx = some stack) (cloned : List (Nat × Nat)) :
    slotOf { t.setIdle .read ctx with
      pools := (t.setIdle .read ctx).pools.withPool .read stack
      cloned := cloned } .read = .ok ctx := by
  obtain ⟨inside, listed⟩ := slotOf_eq .read slot
  obtain ⟨_, rfl⟩ := SlotStack.put_eq_some put
  unfold slotOf
  rw [FreePools.withPool_self, if_pos inside]
  dsimp only
  rcases eq_or_ne handlerSlot (t.pools.pool .read).currNr with same | apart
  · rw [same, Function.update_self]
  · rw [Function.update_of_ne apart, listed]

theorem settleReads_cases {count : Nat} (some_ : 0 < count)
    (ran : repeatTurn settleRead count t = .ok next) : ReadsSettled t next := by
  obtain ⟨count, rfl⟩ := Nat.exists_eq_succ_of_ne_zero (Nat.ne_of_gt some_)
  obtain ⟨after, first, rest⟩ := bind_eq_ok.mp ran
  have did := settleRead_cases first
  have fixed : after.settleRead = .ok after := by
    cases did with
    | nothing slot flag => exact bind_eq_ok.mpr ⟨_, slot, if_neg flag⟩
    | @cleared ctx req stack slot flag asked put =>
        refine bind_eq_ok.mpr ⟨ctx, slotOf_put slot put _, if_neg ?_⟩
        dsimp only [FreePools.withPool, setIdle]
        rw [FreePools.modifyCtx_self]
        nofun
  rw [repeatTurn_fixed fixed] at rest
  cases rest
  exact did

/-- What the two loops do: each settles the context in its slot if that is in flight. -/
structure SlotsSettled (s : FreePools) (t : Settling) (slot : PoolKind → Nat) : Prop where
  listed : ∀ kind, (s.pool kind).elements handlerSlot = some (slot kind)
  others : ∀ kind ctx, ctx ≠ slot kind → t.pools.ctxs kind ctx = s.ctxs kind ctx
  idle : ∀ kind, (s.ctxs kind (slot kind)).inFlight = kind.flag →
    (t.pools.ctxs kind (slot kind)).inFlight = .ctxIdle
  writes : t.pools.pool .write = s.pool .write
  reads : ((s.ctxs .read (slot .read)).inFlight ≠ .ctxRInFlight ∧ t.cloned = [] ∧
      t.pools.pool .read = s.pool .read) ∨
    ∃ req, (s.ctxs .read (slot .read)).req = some req ∧ t.cloned = [(slot .read, req)] ∧
      (t.pools.pool .read).live = (s.pool .read).live ++ [slot .read]

theorem writesSettled_spec (settled : WritesSettled t next) :
    ∃ ctx, (t.pools.pool .write).elements handlerSlot = some ctx ∧
      (∀ other, other ≠ ctx → next.pools.ctxs .write other = t.pools.ctxs .write other) ∧
      ((t.pools.ctxs .write ctx).inFlight = .ctxWInFlight →
        (next.pools.ctxs .write ctx).inFlight = .ctxIdle) ∧
      next.pools.pool = t.pools.pool ∧ next.pools.ctxs .read = t.pools.ctxs .read ∧
      next.cloned = t.cloned := by
  cases settled with
  | @nothing ctx slot flag =>
      exact ⟨ctx, (slotOf_eq .write slot).2, fun _ _ => rfl, fun set => absurd set flag, rfl, rfl,
        rfl⟩
  | @cleared ctx ended slot flag =>
      refine ⟨ctx, (slotOf_eq .write slot).2, ?_, ?_, rfl, ?_, rfl⟩
      · intro other apart
        dsimp only [setIdle]
        exact FreePools.modifyCtx_other fun same => apart same.2
      · intro _
        rw [setIdle, FreePools.modifyCtx_self]
      · dsimp only [setIdle]
        exact FreePools.modifyCtx_kind nofun

theorem readsSettled_spec (settled : ReadsSettled t next) :
    ∃ ctx, (t.pools.pool .read).elements handlerSlot = some ctx ∧
      (∀ other, other ≠ ctx → next.pools.ctxs .read other = t.pools.ctxs .read other) ∧
      ((t.pools.ctxs .read ctx).inFlight = .ctxRInFlight →
        (next.pools.ctxs .read ctx).inFlight = .ctxIdle) ∧
      next.pools.pool .write = t.pools.pool .write ∧
      next.pools.ctxs .write = t.pools.ctxs .write ∧
      (((t.pools.ctxs .read ctx).inFlight ≠ .ctxRInFlight ∧ next.cloned = t.cloned ∧
          next.pools.pool .read = t.pools.pool .read) ∨
        ∃ req, (t.pools.ctxs .read ctx).req = some req ∧
          next.cloned = t.cloned ++ [(ctx, req)] ∧
          (next.pools.pool .read).live = (t.pools.pool .read).live ++ [ctx]) := by
  cases settled with
  | @nothing ctx slot flag =>
      exact ⟨ctx, (slotOf_eq .read slot).2, fun _ _ => rfl, fun set => absurd set flag, rfl, rfl,
        .inl ⟨flag, rfl, rfl⟩⟩
  | @cleared ctx req stack slot flag asked put =>
      refine ⟨ctx, (slotOf_eq .read slot).2, ?_, ?_, ?_, ?_, .inr ⟨req, asked, rfl, ?_⟩⟩
      · intro other apart
        dsimp only [FreePools.withPool, setIdle]
        exact FreePools.modifyCtx_other fun same => apart same.2
      · intro _
        dsimp only [FreePools.withPool, setIdle]
        rw [FreePools.modifyCtx_self]
      · exact FreePools.withPool_other nofun
      · dsimp only [FreePools.withPool, setIdle]
        exact FreePools.modifyCtx_kind nofun
      · rw [FreePools.withPool_self]
        exact SlotStack.live_put put

theorem slotsSettled_of_ok (room : ∀ kind, 0 < (s.pool kind).capNr)
    (ran : settleInFlight s = .ok t) : ∃ slot, SlotsSettled s t slot := by
  obtain ⟨middle, first, rest⟩ := bind_eq_ok.mp ran
  obtain ⟨write, writeSlot, writeOthers, writeIdle, pools, readCtxs, nothing⟩ :=
    writesSettled_spec (settleWrites_cases (room .write) first)
  obtain ⟨read, readSlot, readOthers, readIdle, writePool, writeCtxs, reads⟩ :=
    readsSettled_spec (settleReads_cases (room .read) rest)
  rw [pools] at readSlot writePool reads
  rw [readCtxs] at readOthers readIdle reads
  rw [nothing] at reads
  rw [← writeCtxs] at writeOthers writeIdle
  refine ⟨fun kind => if kind = .write then write else read, ?_, ?_, ?_, writePool, reads⟩
  · intro kind
    cases kind with
    | write => exact writeSlot
    | read => exact readSlot
  · intro kind
    cases kind with
    | write => exact writeOthers
    | read => exact readOthers
  · intro kind
    cases kind with
    | write => exact writeIdle
    | read => exact readIdle

/-! ## What is settled -/

variable {c : Nat} {slot : PoolKind → Nat}

theorem SlotsSettled.eq_of_inHandlerSlot {kind : PoolKind} (settled : SlotsSettled s t slot)
    (here : s.InHandlerSlot c) (on : s.OnServer kind c ctx) : ctx = slot kind := by
  have listed := here.own kind ctx on
  rw [settled.listed kind] at listed
  exact (Option.some.inj listed).symm

/-- A context in flight is not on the stack. -/
theorem not_live_of_onServer {kind : PoolKind} (sound : s.Sound) (on : s.OnServer kind c ctx) :
    ctx ∉ (s.pool kind).live := by
  apply sound.not_live
  intro pooled
  have flag := sound.flag kind ctx
  rw [pooled, on.1] at flag
  cases kind <;> cases flag

theorem SlotsSettled.settlesServer (settled : SlotsSettled s t slot) (sound : s.Sound)
    (here : s.InHandlerSlot c) : s.SettlesServer c t := by
  constructor
  · intro kind ctx on
    have same := settled.eq_of_inHandlerSlot here on
    have flag := on.1
    rw [same] at flag ⊢
    exact settled.idle kind flag
  · intro ctx on
    have same := settled.eq_of_inHandlerSlot here on
    have flag := on.1
    rw [same] at flag ⊢
    rcases settled.reads with ⟨idle, _⟩ | ⟨req, asked, cloned, _⟩
    · exact absurd flag idle
    · refine ⟨req, asked, ?_⟩
      rw [cloned, List.count_singleton_self]
  · intro ctx on
    have fresh := not_live_of_onServer sound on
    have same := settled.eq_of_inHandlerSlot here on
    have flag := on.1
    rw [same] at flag fresh ⊢
    rcases settled.reads with ⟨idle, _⟩ | ⟨req, _, _, live⟩
    · exact absurd flag idle
    · rw [live, List.count_append, List.count_eq_zero.mpr fresh, List.count_singleton_self]
  · intro kind other ctx apart on
    have elsewhere : ctx ≠ slot kind := by
      rintro rfl
      exact apart (here.foreign kind other _ on (settled.listed kind))
    have fresh := not_live_of_onServer sound on
    refine ⟨settled.others kind ctx elsewhere, ?_, ?_⟩
    · cases kind with
      | write =>
          rw [settled.writes]
          exact fresh
      | read =>
          rcases settled.reads with ⟨_, _, pool⟩ | ⟨_, _, _, live⟩
          · rw [pool]
            exact fresh
          · rw [live, List.mem_append, List.mem_singleton]
            rintro (before | last)
            · exact fresh before
            · exact elsewhere last
    · rintro rfl req member
      rcases settled.reads with ⟨_, cloned, _⟩ | ⟨_, _, cloned, _⟩
      · rw [cloned] at member
        cases member
      · rw [cloned, List.mem_singleton] at member
        exact elsewhere (congrArg Prod.fst member)

theorem SlotsSettled.inHandlerSlot (settled : SlotsSettled s t slot)
    (settles : s.SettlesServer c t) : s.InHandlerSlot c := by
  have busy : ∀ kind : PoolKind, kind.flag ≠ .ctxIdle := by
    intro kind
    cases kind <;> nofun
  constructor
  · intro kind ctx on
    rw [settled.listed kind]
    by_contra apart
    have same := settled.others kind ctx fun same => apart (congrArg some same.symm)
    have idle := settles.idle kind ctx on
    rw [same, on.1] at idle
    exact busy kind idle
  · intro kind other ctx on listed
    rw [settled.listed kind] at listed
    obtain rfl := Option.some.inj listed
    by_contra apart
    have same := (settles.others kind other _ apart on).1
    have idle := settled.idle kind on.1
    rw [same, on.1] at idle
    exact busy kind idle

/-- The handler settles the requests of its server, and no others, exactly when they are those
that slot 32 of the arrays lists. -/
theorem disconnect_settles_iff {capNr : PoolKind → Nat} {remoteRkey : Nat → Nat}
    {history : List TrafficLabel} {s : FreePools} {t : Settling} (c : Nat)
    (room : ∀ kind, 0 < capNr kind)
    (before : Run FreePools.step always (.init capNr remoteRkey) history s)
    (ran : settleInFlight s = .ok t) : s.SettlesServer c t ↔ s.InHandlerSlot c := by
  have sound : s.Sound :=
    before.preserves (fun sound _ edge => sound.step edge) (FreePools.sound_init capNr remoteRkey)
  have caps : ∀ kind, (s.pool kind).capNr = capNr kind := fun kind =>
    before.preserves (fun caps _ edge => (FreePools.step_capNr edge kind).trans caps) rfl
  obtain ⟨slot, settled⟩ := slotsSettled_of_ok (fun kind => by rw [caps]; exact room kind) ran
  exact ⟨settled.inHandlerSlot, settled.settlesServer sound⟩

/-- Pools of two contexts more than the slot needs. -/
def idlePools : FreePools := .init (fun _ => 34) id

theorem disconnect_settles_iff_idle : ∃ t, settleInFlight idlePools = .ok t ∧
    (idlePools.SettlesServer 0 t ↔ idlePools.InHandlerSlot 0) := by
  have runs : (settleInFlight idlePools).toOption.isSome := by decide +kernel
  obtain ⟨t, ran⟩ := Option.isSome_iff_exists.mp runs
  have settled := toOption_eq_some ran
  exact ⟨t, settled, disconnect_settles_iff 0 (fun _ => by decide) (.refl _) settled⟩

/-- A read on server 0, in the context of slot 33. -/
def topRead : List TrafficLabel := [.get .read, .postRead 33 0 0 0]

/-- The read on the server that disconnects stays in flight. -/
theorem topRead_stays :
    ¬ ∀ (history : List TrafficLabel) (s : FreePools) (t : Settling) (c : Nat),
      Run FreePools.step always idlePools history s → settleInFlight s = .ok t →
        s.SettlesServer c t := by
  intro claim
  have runs : ((exec FreePools.step idlePools topRead).bind fun s =>
      (settleInFlight s).toOption.map fun t =>
        ((s.ctxs .read 33).inFlight, (s.ctxs .read 33).cb, (t.pools.ctxs .read 33).inFlight)) =
      some (.ctxRInFlight, some 0, .ctxRInFlight) := by decide +kernel
  obtain ⟨s, history, runs⟩ := Option.bind_eq_some_iff.mp runs
  obtain ⟨t, ran, found⟩ := Option.map_eq_some_iff.mp runs
  simp only [Prod.mk.injEq] at found
  obtain ⟨flag, server, still⟩ := found
  have settles := claim topRead s t 0 (run_of_exec history) (toOption_eq_some ran)
  have idle := settles.idle .read 33 ⟨flag, server, nofun⟩
  rw [still] at idle
  cases idle

end Settling

end Valet.Bd
