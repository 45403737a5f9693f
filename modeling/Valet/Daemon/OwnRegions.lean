import Valet.Daemon.Accounting

/-!
# The numbers under which clients have regions

`rb_idx_map` of a client leads from the number of a block to the number of a
region.  Only `prepare_single_mr` writes a region to it, and under its own
number, so two blocks of a client are never one region.
-/

namespace Valet.Daemon

open Valet.Wire Valet.Library

namespace Session

variable {s next : Session}

/-- A client has a region under its own number. -/
def OwnsRegions (s : Session) : Prop :=
  ∀ client i j, (s.cbList client).rbIdxMap i = some j → j = i

theorem OwnsRegions.maps (owns : s.OwnsRegions)
    (maps : ∀ client, (next.cbList client).rbIdxMap = (s.cbList client).rbIdxMap) :
    next.OwnsRegions := by
  intro client i j has
  rw [maps] at has
  exact owns client i j has

theorem OwnsRegions.setCb {client : Nat} {cb : RpingCb} (owns : s.OwnsRegions)
    (own : ∀ i j, cb.rbIdxMap i = some j → j = i) : (s.setCb client cb).OwnsRegions := by
  intro other i j has
  rcases eq_or_ne other client with rfl | different
  · simp only [Session.setCb, Function.update_self] at has
    exact own i j has
  · simp only [Session.setCb, Function.update_of_ne different] at has
    exact owns other i j has

theorem OwnsRegions.prepareSingleMr {client : Nat} {recv : Message} {isMigration : Bool}
    {mr : IbvMr} (owns : s.OwnsRegions) :
    (s.prepareSingleMr client recv isMigration mr).2.OwnsRegions := by
  unfold Session.prepareSingleMr
  cases found : (List.finRange maxMrSizeGb).find? s.mrh.isFree with
  | none => exact OwnsRegions.setCb (fun other => owns other) (owns client)
  | some i =>
      refine OwnsRegions.setCb (fun other => owns other) fun at_ j has => ?_
      have has : Function.update (s.cbList client).rbIdxMap i (some i) at_ = some j := has
      rcases eq_or_ne at_ i with rfl | different
      · rw [Function.update_self] at has
        exact (Option.some.inj has).symm
      · rw [Function.update_of_ne different] at has
        exact owns client at_ j has

theorem OwnsRegions.recvDeleteRb {client : Nat} {recv : Message} (owns : s.OwnsRegions)
    (ran : s.recvDeleteRb client recv = .ok next) : next.OwnsRegions := by
  unfold Session.recvDeleteRb at ran
  dsimp only at ran
  split at ran
  · cases ran
    exact OwnsRegions.setCb (fun other => owns other) (owns client)
  · rename_i i _
    split at ran
    · cases ran
    · cases ran
      refine OwnsRegions.setCb (fun other => owns other) fun at_ j still => ?_
      have still : Function.update (s.cbList client).rbIdxMap i none at_ = some j := still
      rcases eq_or_ne at_ i with rfl | different
      · rw [Function.update_self] at still
        cases still
      · rw [Function.update_of_ne different] at still
        exact owns client at_ j still

theorem OwnsRegions.handleRecv {client : Nat} {msg : Message} {mr : IbvMr}
    {stamps : Region → Timeval} (owns : s.OwnsRegions)
    (ran : s.handleRecv client msg mr stamps = .ok next) : next.OwnsRegions := by
  cases handles_of_ok ran with
  | query => exact owns.maps fun _ => rfl
  | migMap =>
      have start := owns.maps (sameRegions_modifyMigrbh client (noteSource msg)).maps
      have handed : ((s.modifyMigrbh client (noteSource msg)).prepareSingleMr client msg true
          mr).2.OwnsRegions := start.prepareSingleMr
      exact (handed.maps (sameRegions_modifyMigrbh client _).maps).maps
        (sameRegions_postSend client).maps
  | mrMap =>
      have handed : (s.prepareSingleMr client msg false mr).2.OwnsRegions := owns.prepareSingleMr
      exact handed.maps fun _ => rfl
  | deleted _ ran => exact owns.recvDeleteRb ran
  | migrates =>
      exact (owns.maps (sameRegions_modifyMigrbh client _).maps).maps
        (sameRegions_postWrite client _ _ _).maps
  | ignored => exact owns

theorem cbList_monitorEvict : s.monitorEvict.cbList = s.cbList := by
  unfold monitorEvict
  dsimp only
  generalize (if s.mrh.sizeGb < freeMemEvictThreshold - s.monitor.lastFreeMemG then s.mrh.sizeGb
    else freeMemEvictThreshold - s.monitor.lastFreeMemG) = stopSizeG
  split
  · rw [cbList_continueEvict]
  · rfl

theorem cbList_monitorTurn (weigh : Int → Int → Int) (freeMemG : Int) :
    (s.monitorTurn weigh freeMemG).cbList = s.cbList := by
  unfold monitorTurn
  dsimp only
  split
  · split
    · rw [cbList_monitorEvict]
    · rfl
  · split
    · split
      · rfl
      · rfl
    · rfl

theorem OwnsRegions.step {weigh : Int → Int → Int} {label : DaemonLabel} (owns : s.OwnsRegions)
    (edge : s.step weigh label = some next) : next.OwnsRegions := by
  cases label with
  | recv client msg mr stamps => exact owns.handleRecv (toOption_eq_some edge)
  | monitor freeMemG =>
      simp only [Session.step] at edge
      split at edge
      · cases edge
        exact owns.maps fun client => by rw [cbList_monitorTurn]
      · cases edge
  | evict stamps =>
      simp only [Session.step] at edge
      split at edge
      · have ran := toOption_eq_some edge
        unfold evictTurn at ran
        split at ran
        · cases ran
        · split at ran
          · cases ran
          · cases ran
            exact owns.maps (sameRegions_sendEvict _ _ _ _).maps
      · cases edge
  | evictDone =>
      simp only [Session.step] at edge
      split at edge
      · rename_i client evictSize oldestRbIndex stopSizeG _
        unfold Session.evictDone at edge
        dsimp only at edge
        split at edge
        · cases edge
        · cases edge
          have waited : (s.setCb client { s.cbList client with
              evictSem := (s.cbList client).evictSem - 1 }).OwnsRegions :=
            OwnsRegions.setCb owns (owns client)
          exact waited.maps fun other => by rw [cbList_continueEvict]
      · cases edge

/-- A state that the daemon can get into. -/
def Reachable (s : Session) : Prop :=
  ∃ weigh myIndex mrList freeMemG lastFreeMemG labels,
    Run (Session.step weigh) always (init myIndex mrList freeMemG lastFreeMemG) labels s

theorem Reachable.ownsRegions (reachable : s.Reachable) : s.OwnsRegions := by
  obtain ⟨weigh, myIndex, mrList, freeMemG, lastFreeMemG, labels, run⟩ := reachable
  refine run.preserves (fun owns _ edge => OwnsRegions.step owns edge) ?_
  exact fun _ _ _ has => nomatch has

end Session

end Valet.Daemon
