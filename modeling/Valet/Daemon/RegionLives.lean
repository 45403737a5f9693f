import Valet.Daemon.LenderTurns
import Valet.Library.GuardedMemory

/-!
# The lives of the regions

A region is allocated, registered for a client under a key, and freed when the
client gives it back; what nobody has may be freed again.  A step registers one
region at most, for the client whose request it handles.
-/

namespace Valet.Daemon

open Valet.Wire Valet.Library

namespace RdmaMrHandler

variable (mrh : RdmaMrHandler)

/-- Where a region is in its life. -/
def life (i : Region) : Life Nat UInt32 :=
  match mrh.cbIndexMap i with
  | some client => .held client (mrh.mrList i).rkey
  | none => if mrh.mallocMap i then .free else .empty

/-- The client and the key that a region is registered for between two states. -/
def grants (next : RdmaMrHandler) : Option (Nat × UInt32) :=
  (List.finRange maxMrSizeGb).findSome? fun i =>
    match mrh.life i, next.life i with
    | .free, .held client key => some (client, key)
    | _, _ => none

variable {mrh} {next : RdmaMrHandler} {i : Region} {client : Nat} {key : UInt32}

theorem life_eq_held :
    mrh.life i = .held client key ↔ mrh.cbIndexMap i = some client ∧ (mrh.mrList i).rkey = key := by
  unfold life
  cases mrh.cbIndexMap i with
  | some other => simp
  | none =>
      cases mrh.mallocMap i with
      | true => simp
      | false => simp

theorem life_of_isFree (free : mrh.isFree i = true) : mrh.life i = .free := by
  unfold isFree at free
  unfold life
  cases owner : mrh.cbIndexMap i with
  | some other =>
      rw [owner, Option.isNone_some, Bool.and_false] at free
      cases free
  | none =>
      rw [owner, Option.isNone_none, Bool.and_true] at free
      rw [free]
      rfl

/-- A region that nobody has may be allocated or freed. -/
theorem turn_of_unmapped {grant : Option (Nat × UInt32)} (before : mrh.cbIndexMap i = none)
    (after : next.cbIndexMap i = none) : (mrh.life i).Turn grant (next.life i) := by
  unfold life
  rw [before, after]
  cases mrh.mallocMap i with
  | true =>
      cases next.mallocMap i with
      | true => exact .stays _
      | false => exact .freed
  | false =>
      cases next.mallocMap i with
      | true => exact .allocated
      | false => exact .stays _

/-- A region stays with its client, or with nobody. -/
theorem turn_of_same {grant : Option (Nat × UInt32)} (map : next.cbIndexMap i = mrh.cbIndexMap i)
    (mr : next.mrList i = mrh.mrList i) : (mrh.life i).Turn grant (next.life i) := by
  cases owner : mrh.cbIndexMap i with
  | none => exact turn_of_unmapped owner (map.trans owner)
  | some client =>
      have before : mrh.life i = .held client (mrh.mrList i).rkey :=
        life_eq_held.mpr ⟨owner, rfl⟩
      have after : next.life i = .held client (mrh.mrList i).rkey :=
        life_eq_held.mpr ⟨map.trans owner, by rw [mr]⟩
      rw [before, after]
      exact .stays _

theorem grants_eq_some (grants : mrh.grants next = some (client, key)) :
    ∃ i, mrh.life i = .free ∧ next.life i = .held client key := by
  obtain ⟨i, -, found⟩ := List.exists_of_findSome?_eq_some grants
  refine ⟨i, ?_⟩
  split at found
  · rename_i other again free held
    cases found
    exact ⟨free, held⟩
  · cases found

theorem grants_isSome (free : mrh.life i = .free) (held : next.life i = .held client key) :
    (mrh.grants next).isSome = true := by
  unfold grants
  rw [List.isSome_findSome?, List.any_eq_true]
  refine ⟨i, List.mem_finRange i, ?_⟩
  rw [free, held]
  rfl

end RdmaMrHandler

open RdmaMrHandler

namespace Session

variable {s next : Session} {client : Nat} {msg : Message} {mr : IbvMr}

/-- The regions go on in their lives; one at most is registered, for the sender of a request. -/
structure Lives (s : Session) (label : ServerLabel) (next : Session) : Prop where
  turns : ∀ i, (s.mrh.life i).Turn (s.mrh.grants next.mrh) (next.mrh.life i)
  single : ∀ i j client key, s.mrh.life i = .free → next.mrh.life i = .held client key →
    s.mrh.life j = .free → next.mrh.life j = .held client key → i = j
  granted : ∀ client key, s.mrh.grants next.mrh = some (client, key) →
    ∃ msg mr stamps, label = .daemon (.recv client msg mr stamps) ∧ mr.rkey = key

/-- Nothing is registered. -/
theorem lives_of_turns {label : ServerLabel}
    (turns : ∀ i, (s.mrh.life i).Turn none (next.mrh.life i)) : Lives s label next := by
  have ungiven (i : Region) (client : Nat) (key : UInt32) (free : s.mrh.life i = .free) :
      next.mrh.life i ≠ .held client key := by
    intro held
    rcases Guarded.held_of_turn (turns i) held with before | ⟨_, granted⟩
    · rw [free] at before
      cases before
    · cases granted
  have none_ : s.mrh.grants next.mrh = none := by
    rw [Option.eq_none_iff_forall_ne_some]
    rintro ⟨client, key⟩ grants
    obtain ⟨i, free, held⟩ := grants_eq_some grants
    exact ungiven i client key free held
  refine ⟨fun i => ?_, fun i j client key free held => ?_, fun client key grants => ?_⟩
  · rw [none_]
    exact turns i
  · exact absurd held (ungiven i client key free)
  · rw [none_] at grants
    cases grants

theorem lives_of_same {label : ServerLabel} (map : next.mrh.cbIndexMap = s.mrh.cbIndexMap)
    (mrs : next.mrh.mrList = s.mrh.mrList) : Lives s label next :=
  lives_of_turns fun _ => turn_of_same (by rw [map]) (by rw [mrs])

/-- A region that is handed out was free, and it is the only one. -/
theorem lives_handsOut {stamps : Region → Timeval} (out : HandsOut s client mr next) :
    Lives s (.daemon (.recv client msg mr stamps)) next := by
  cases out with
  | full map mrs maps keyless => exact lives_of_same map mrs
  | @region i free map mrs maps keys addr =>
      have held : next.mrh.life i = .held client mr.rkey := by
        rw [life_eq_held, map, mrs, Function.update_self, Function.update_self]
        exact ⟨rfl, rfl⟩
      have others (j : Region) (different : j ≠ i) (grant : Option (Nat × UInt32)) :
          (s.mrh.life j).Turn grant (next.mrh.life j) :=
        turn_of_same (by rw [map, Function.update_of_ne different])
          (by rw [mrs, Function.update_of_ne different])
      have only (j : Region) (other : Nat) (key : UInt32) (unheld : s.mrh.life j = .free)
          (holds : next.mrh.life j = .held other key) : j = i := by
        by_contra different
        rcases Guarded.held_of_turn (others j different none) holds with before | ⟨_, granted⟩
        · rw [unheld] at before
          cases before
        · cases granted
      have grants : s.mrh.grants next.mrh = some (client, mr.rkey) := by
        obtain ⟨⟨other, key⟩, found⟩ :=
          Option.isSome_iff_exists.mp (grants_isSome (life_of_isFree free) held)
        obtain ⟨j, unheld, holds⟩ := grants_eq_some found
        obtain rfl := only j other key unheld holds
        rw [held] at holds
        cases holds
        exact found
      refine ⟨fun j => ?_, fun j k other key unheld holds alike again => ?_,
        fun other key found => ?_⟩
      · rcases eq_or_ne j i with rfl | different
        · rw [life_of_isFree free, held]
          exact .given grants
        · exact others j different _
      · rw [only j other key unheld holds, only k other key alike again]
      · rw [grants] at found
        cases found
        exact ⟨msg, mr, stamps, rfl, rfl⟩

/-- A region that is given back is freed. -/
theorem lives_collects {label : ServerLabel} (lends : s.Lends)
    (collects : Collects s client msg next) : Lives s label next := by
  cases collects.deletes with
  | nothing unnamed map malloc maps => exact lives_of_same map collects.mrs
  | @region i index first has map malloc maps =>
      have same := lends.own client i index has
      subst same
      have mine := (lends.owners client index).mpr has
      refine lives_of_turns fun j => ?_
      rcases eq_or_ne j index with rfl | different
      · have before : s.mrh.life j = .held client (s.mrh.mrList j).rkey :=
          life_eq_held.mpr ⟨mine, rfl⟩
        have after : next.mrh.life j = .empty := by
          unfold RdmaMrHandler.life
          rw [map, malloc, Function.update_self, Function.update_self]
          rfl
        rw [before, after]
        exact .back
      · exact turn_of_same (by rw [map, Function.update_of_ne different]) (by rw [collects.mrs])

theorem lives_recv {stamps : Region → Timeval} (lends : s.Lends)
    (ran : s.handleRecv client msg mr stamps = .ok next) :
    Lives s (.daemon (.recv client msg mr stamps)) next := by
  cases handles_of_ok ran with
  | query type => exact lives_of_same rfl rfl
  | migMap type =>
      obtain ⟨-, out, -⟩ := replies_recvReqMigMap s client msg mr
      exact lives_handsOut out
  | mrMap type =>
      obtain ⟨-, out⟩ := replies_reqMrMap s client msg mr
      exact lives_handsOut out
  | deleted type deletes => exact lives_collects lends (collects_of_ok deletes)
  | migrates type named => exact lives_of_same rfl rfl
  | ignored other => exact lives_of_same rfl rfl

/-- Every step of a server is a step in the lives of its regions. -/
theorem Lends.lives {weigh : Int → Int → Int} {label : ServerLabel} (lends : s.Lends)
    (edge : s.serverStep weigh label = some next) : Lives s label next := by
  cases label with
  | established client stamps =>
      cases edge
      exact lives_of_same rfl rfl
  | wcRdmaWrite peer =>
      have ran := toOption_eq_some edge
      unfold Session.wcRdmaWrite at ran
      dsimp only at ran
      split at ran
      · cases ran
      · split at ran
        · cases ran
        · cases ran
          exact lives_of_same rfl rfl
  | daemon label =>
      cases label with
      | recv client msg mr stamps => exact lives_recv lends (toOption_eq_some edge)
      | monitor freeMemG =>
          simp only [serverStep, Session.step] at edge
          split at edge
          · rename_i asleep
            cases edge
            obtain ⟨same, -, -⟩ := monitorTurn_spec weigh freeMemG asleep
            exact lives_of_same same.map same.mrs
          · cases edge
      | evict stamps =>
          simp only [serverStep, Session.step] at edge
          split at edge
          · have ran := toOption_eq_some edge
            unfold evictTurn at ran
            split at ran
            · cases ran
            · split at ran
              · cases ran
              · cases ran
                exact lives_of_same rfl rfl
          · cases edge
      | evictDone =>
          simp only [serverStep, Session.step] at edge
          split at edge
          · rename_i client evictSize oldestRbIndex stopSizeG pc
            unfold evictDone at edge
            dsimp only at edge
            split at edge
            · cases edge
            · cases edge
              obtain ⟨same, -, -⟩ := continueEvict_spec
                (s := s.setCb client { s.cbList client with
                  evictSem := (s.cbList client).evictSem - 1 })
                (evictSize - 1) oldestRbIndex stopSizeG
              exact lives_of_same same.map same.mrs
          · cases edge

end Session

end Valet.Daemon
