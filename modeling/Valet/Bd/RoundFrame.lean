import Valet.Bd.BlockTables

/-!
# What a migration round does to the other entries

A round works for the row that its `EVICT` names, and clears the entry of that
row at its end.  The remap always writes row 0, so a round for another row that
finds a destination changes the entry of row 0 as well.
-/

namespace Valet.Bd

open Valet.Wire Valet.Library

namespace ValetSession

variable {servers replicas : Nat}

/-- A complete round of `migration_handler`: `found` is the server that the search answers, with
its reply, and writes to the block `rb` of the old server complete meanwhile. -/
def migrationRound (s : ValetSession servers replicas) (oldCb : Fin servers) (evict : Message)
    (found : Option (Fin servers × Message)) (rb : Block) (writes : List (Nat × Nat)) :
    Except Halt (ValetSession servers replicas) :=
  match found with
  | none => s.dropBlock oldCb evict
  | some (newCb, reply) => do
      let e ← s.migrateBlock oldCb newCb evict reply rb writes
      return e.last

/-- Both tables are the same but for one entry. -/
def ChangesOnly (s next : ValetSession servers replicas) (row : Fin (replicas + 1))
    (swapspace : Swapspace) : Prop :=
  ∀ other at_, ¬ (other = row ∧ at_ = swapspace) →
    next.cbIndexMap other at_ = s.cbIndexMap other at_ ∧
      next.mappingSwapspaceToRb other at_ = s.mappingSwapspaceToRb other at_

/-- The server that was found offers the block that row 0 has already. -/
def OffersFirst (s : ValetSession servers replicas) (swapspace : Swapspace)
    (found : Option (Fin servers × Message)) : Prop :=
  ∀ newCb reply, found = some (newCb, reply) →
    s.cbIndexMap 0 swapspace = reply.cbIndex ∧ s.mappingSwapspaceToRb 0 swapspace = reply.rbIndex

variable {s middle next last : ValetSession servers replicas} {oldCb newCb cb : Fin servers}
  {row : Fin (replicas + 1)} {swapspace : Swapspace} {round : Round}

theorem SameMaps.trans (first : SameMaps s middle) (second : SameMaps middle next) :
    SameMaps s next :=
  ⟨second.1.trans first.1, second.2.trans first.2⟩

theorem SameMaps.changesOnly (same : SameMaps s next) : ChangesOnly s next row swapspace :=
  fun other at_ _ => ⟨by rw [same.1], by rw [same.2]⟩

theorem ChangesOnly.trans (first : ChangesOnly s middle row swapspace)
    (second : ChangesOnly middle next row swapspace) : ChangesOnly s next row swapspace := by
  intro other at_ elsewhere
  obtain ⟨server, block⟩ := first other at_ elsewhere
  obtain ⟨serverLater, blockLater⟩ := second other at_ elsewhere
  exact ⟨serverLater.trans server, blockLater.trans block⟩

theorem TakesEvict.sameMaps (takes : TakesEvict s oldCb round next) : SameMaps s next := by
  cases takes with
  | taken evict isSrc isSwapspace isRb => exact ⟨rfl, rfl⟩

theorem sameMaps_queried : SameMaps s (s.queried cb) := sameTables_queried.maps

theorem Resets.changesOnly {newCb : Option (Fin servers)} {replicaIndex clientEvictRbIndex : Int}
    (resets : Resets s oldCb newCb replicaIndex clientEvictRbIndex next)
    (isRow : replicaIndex = row.val) (isSwapspace : clientEvictRbIndex = swapspace.val) :
    ChangesOnly s next row swapspace := by
  cases resets with
  | unmarked clear => exact (sameTables_clearNew newCb).maps.changesOnly
  | @cleared i resetRow resetAt marked isResetRow isResetAt =>
      have sameRow : resetRow = row := Fin.ext (by omega)
      have sameAt : resetAt = swapspace := Fin.ext (by omega)
      subst sameRow
      subst sameAt
      refine ChangesOnly.trans ?_ (sameTables_clearNew newCb).maps.changesOnly
      intro other at_ elsewhere
      refine ⟨?_, rfl⟩
      rcases eq_or_ne other resetRow with rfl | different
      · have away : at_ ≠ resetAt := fun same => elsewhere ⟨rfl, same⟩
        simp [setCbIndex, modifyRbh, setCb, away]
      · simp [setCbIndex, modifyRbh, setCb, different]

theorem Cleans.changesOnly {newCb : Option (Fin servers)}
    (cleans : Cleans s oldCb newCb round next) (isRow : round.replicaIndex = row.val)
    (isSwapspace : round.clientEvictRbIndex = swapspace.val) : ChangesOnly s next row swapspace := by
  cases cleans with
  | @cleaned middle src at_ block deleted resets isSrc isAt isBlock =>
      refine (resets.changesOnly isRow isSwapspace).trans (SameMaps.changesOnly ?_)
      split <;> exact ⟨rfl, rfl⟩

/-- The wait for `RESP_MIG_MAP` is over just when that message came. -/
theorem Receives.respMigMap {msg : Message} (receives : Receives s cb (.message msg) next)
    (before : (s.cbList cb).state ≠ .recvMigMap) (arrived : (next.cbList cb).state = .recvMigMap) :
    next = (s.setState cb .recvMigMap).modifyRbh cb
      fun rbh => rbh.valetMigrationBlockInit msg := by
  cases receives with
  | ignored error => exact absurd arrived before
  | refused reason =>
      rw [state_setState] at arrived
      cases arrived
  | migMap alive type => rfl
  | mrMap alive type inits =>
      cases inits with
      | nothing empty =>
          rw [state_setState] at arrived
          cases arrived
      | @mapped i row select first isRow isSelect =>
          have state : ((((s.setCbState cb .mapped).setState cb .recvMrMap).modifyRbh cb
              fun rbh => rbh.mapBlock msg i).cbList cb).state = .recvMrMap := by
            rw [state_modifyRbh, state_setState]
          cases state.symm.trans arrived
  | done alive type | evict alive type =>
      rw [state_modifyRbh, state_setState] at arrived
      cases arrived

/-- A round with a destination sets the entry of row 0, and then clears its own. -/
theorem migrateBlock_maps {evict reply : Message} {rb : Block} {writes : List (Nat × Nat)}
    {e : RoundEnd servers replicas} (alive : s.Alive oldCb) (isEvict : evict.type = .evict)
    (isRow : evict.replicaIndex = row.val) (isSwapspace : evict.sizeGb = swapspace.val)
    (ran : s.migrateBlock oldCb newCb evict reply rb writes = .ok e) :
    ∃ remapped : ValetSession servers replicas,
      SetsRow s remapped 0 swapspace reply.cbIndex reply.rbIndex ∧
        ChangesOnly remapped e.last row swapspace := by
  obtain ⟨evicted, received, ran⟩ := bind_eq_ok.mp ran
  obtain ⟨⟨round, taken⟩, took, ran⟩ := bind_eq_ok.mp ran
  obtain ⟨requested, request, ran⟩ := bind_eq_ok.mp ran
  obtain ⟨answered, answer, ran⟩ := bind_eq_ok.mp ran
  obtain ⟨dest, slot, ran⟩ := bind_eq_ok.mp ran
  obtain ⟨doned, done, ran⟩ := bind_eq_ok.mp ran
  obtain ⟨remapped, remap, ran⟩ := bind_eq_ok.mp ran
  obtain ⟨copied, copy, ran⟩ := bind_eq_ok.mp ran
  obtain ⟨last, clean, ran⟩ := bind_eq_ok.mp ran
  cases ran
  obtain ⟨change, rfl⟩ := requestMigMap_ok request
  obtain ⟨arrived, rfl⟩ := readSlot_ok slot
  have isEvicted := (receives_of_ok received).evicted alive isEvict
  have takes := takesEvict_of_ok took
  have isRound := (receives_of_ok received).takenRound alive isEvict takes
  subst isRound
  have asking : (((taken.queried newCb).modifySendBuf newCb change).cbList newCb).state ≠
      .recvMigMap := by
    simp [queried, modifySendBuf, setCb, setState]
  have isAnswered := (receives_of_ok answer).respMigMap asking arrived
  -- nothing changes the tables before the remap
  have start : SameMaps s evicted := by
    rw [isEvicted]
    exact ⟨rfl, rfl⟩
  have asked : SameMaps taken ((taken.queried newCb).modifySendBuf newCb change) :=
    sameMaps_queried.trans ⟨rfl, rfl⟩
  have replied : SameMaps ((taken.queried newCb).modifySendBuf newCb change) answered := by
    rw [isAnswered]
    exact ⟨rfl, rfl⟩
  have finished : SameMaps answered doned := by
    have recorded : SameMaps answered
        (answered.modifyRbh oldCb fun rbh => rbh.recordWrites rb writes) := ⟨rfl, rfl⟩
    exact recorded.trans ((receives_of_ok done).sameTables rfl).maps
  have before : SameMaps s doned :=
    start.trans (takes.sameMaps.trans (asked.trans (replied.trans finished)))
  have dest : (answered.rbh newCb).dest = ⟨reply.cbIndex, reply.rbIndex⟩ := by
    rw [isAnswered, rbh_modifyRbh]
    rfl
  have moved := (remaps_of_ok remap).sameTables isSwapspace
  rw [dest] at moved
  refine ⟨remapped, setsRow_set.between before moved.maps, ?_⟩
  -- afterwards only the clean-up does
  have sent : SameMaps remapped ((copied.sendDeleteRb oldCb).sendDone oldCb) :=
    (copies_of_ok copy).sameTables.maps.trans
      (sameTables_sendDeleteRb.maps.trans sameTables_sendDone.maps)
  exact sent.changesOnly.trans ((cleans_of_ok clean).changesOnly isRow isSwapspace)

/-- A round without a destination changes no entry but its own. -/
theorem dropBlock_maps {evict : Message} (alive : s.Alive oldCb) (isEvict : evict.type = .evict)
    (isRow : evict.replicaIndex = row.val) (isSwapspace : evict.sizeGb = swapspace.val)
    (ran : s.dropBlock oldCb evict = .ok next) : ChangesOnly s next row swapspace := by
  obtain ⟨evicted, received, ran⟩ := bind_eq_ok.mp ran
  obtain ⟨⟨round, taken⟩, took, clean⟩ := bind_eq_ok.mp ran
  have isEvicted := (receives_of_ok received).evicted alive isEvict
  have takes := takesEvict_of_ok took
  have isRound := (receives_of_ok received).takenRound alive isEvict takes
  subst isRound
  have start : SameMaps s evicted := by
    rw [isEvicted]
    exact ⟨rfl, rfl⟩
  have sent : SameMaps taken ((taken.sendDeleteRb oldCb).sendDone oldCb) :=
    sameTables_sendDeleteRb.maps.trans sameTables_sendDone.maps
  have before : SameMaps s ((taken.sendDeleteRb oldCb).sendDone oldCb) :=
    start.trans (takes.sameMaps.trans sent)
  exact before.changesOnly.trans ((cleans_of_ok clean).changesOnly isRow isSwapspace)

/-- A round changes no entry but its own exactly when it is for row 0, finds no destination, or
finds the one that row 0 has. -/
theorem migrationRound_changesOnly_iff {evict : Message} {found : Option (Fin servers × Message)}
    {rb : Block} {writes : List (Nat × Nat)} (alive : s.Alive oldCb)
    (isEvict : evict.type = .evict) (isRow : evict.replicaIndex = row.val)
    (isSwapspace : evict.sizeGb = swapspace.val)
    (ran : s.migrationRound oldCb evict found rb writes = .ok next) :
    ChangesOnly s next row swapspace ↔ row = 0 ∨ OffersFirst s swapspace found := by
  cases found with
  | none =>
      constructor
      · exact fun _ => Or.inr nofun
      · exact fun _ => dropBlock_maps alive isEvict isRow isSwapspace ran
  | some answer =>
      obtain ⟨newCb, reply⟩ := answer
      obtain ⟨e, migrated, same⟩ := bind_eq_ok.mp ran
      cases same
      obtain ⟨remapped, sets, rest⟩ := migrateBlock_maps alive isEvict isRow isSwapspace migrated
      constructor
      · intro only
        rcases eq_or_ne row 0 with first | other
        · exact Or.inl first
        · have elsewhere : ¬ ((0 : Fin (replicas + 1)) = row ∧ swapspace = swapspace) :=
            fun same => other same.1.symm
          obtain ⟨server, block⟩ := only 0 swapspace elsewhere
          obtain ⟨serverLater, blockLater⟩ := rest 0 swapspace elsewhere
          right
          rintro _ _ ⟨⟩
          rw [serverLater, sets.server, if_pos ⟨rfl, rfl⟩] at server
          rw [blockLater, sets.block, if_pos ⟨rfl, rfl⟩] at block
          exact ⟨server.symm, block.symm⟩
      · intro condition other at_ elsewhere
        obtain ⟨server, block⟩ := rest other at_ elsewhere
        rw [server, block, sets.server, sets.block]
        rcases condition with rfl | offers
        · rw [if_neg elsewhere, if_neg elsewhere]
          exact ⟨rfl, rfl⟩
        · obtain ⟨sameServer, sameBlock⟩ := offers newCb reply rfl
          split
          · rename_i here
            obtain ⟨rfl, rfl⟩ := here
            exact ⟨sameServer.symm, sameBlock.symm⟩
          · exact ⟨rfl, rfl⟩

/-- Two replicas of the first swapspace, on the first blocks of servers 0 and 1. -/
def twoReplicas : Option (ValetSession 3 1) :=
  (init.getCb firstSwapspace Fin.castSucc fun row =>
    { blockMessage .respMrMap row.val firstSwapspace firstBlock with
      replicaIndex := row.val }).toOption

/-- Server 1 evicts its block, which is the one of row 1. -/
def evictSecond : Message :=
  { blockMessage .evict 1 firstSwapspace firstBlock with replicaIndex := 1 }

/-- Server 2 has a block for it. -/
def offerThird : Fin 3 × Message :=
  (2, { blockMessage .respMigMap 2 firstSwapspace firstBlock with replicaIndex := 1 })

/-- The client before and after the round of `evictSecond`. -/
def roundOfSecond (found : Option (Fin 3 × Message)) :
    Option (ValetSession 3 1 × ValetSession 3 1) :=
  twoReplicas.bind fun s =>
    if s.Alive 1 then
      (s.migrationRound 1 evictSecond found firstBlock []).toOption.map fun next => (s, next)
    else
      none

theorem roundOfSecond_spec {found : Option (Fin 3 × Message)} {s next : ValetSession 3 1}
    (ends : roundOfSecond found = some (s, next)) :
    s.Alive 1 ∧ s.migrationRound 1 evictSecond found firstBlock [] = .ok next := by
  obtain ⟨first, _, rest⟩ := Option.bind_eq_some_iff.mp ends
  split at rest
  · rename_i alive
    obtain ⟨last, ended, same⟩ := Option.map_eq_some_iff.mp rest
    cases same
    exact ⟨alive, toOption_eq_some ended⟩
  · cases rest

theorem migrationRound_changesOnly_drop : ∃ s next : ValetSession 3 1,
    s.migrationRound 1 evictSecond none firstBlock [] = .ok next ∧
      ChangesOnly s next 1 firstSwapspace := by
  have ran : (roundOfSecond none).isSome = true := by
    decide +kernel
  obtain ⟨⟨s, next⟩, ends⟩ := Option.isSome_iff_exists.mp ran
  obtain ⟨alive, round⟩ := roundOfSecond_spec ends
  exact ⟨s, next, round,
    (migrationRound_changesOnly_iff alive rfl rfl rfl round).mpr (Or.inr nofun)⟩

/-- The round for row 1 points row 0 to the destination. -/
theorem secondRow_moves_first : ¬ ∀ (s next : ValetSession 3 1) (oldCb : Fin 3) (evict : Message)
    (found : Option (Fin 3 × Message)) (rb : Block) (writes : List (Nat × Nat)) (row : Fin 2)
    (swapspace : Swapspace), s.Alive oldCb → evict.type = .evict →
      evict.replicaIndex = row.val → evict.sizeGb = swapspace.val →
        s.migrationRound oldCb evict found rb writes = .ok next →
          ChangesOnly s next row swapspace := by
  intro claim
  have ran : (roundOfSecond (some offerThird)).map (fun states =>
      (states.1.cbIndexMap 0 firstSwapspace, states.2.cbIndexMap 0 firstSwapspace)) =
        some (0, 2) := by
    decide +kernel
  obtain ⟨⟨s, next⟩, ends, entries⟩ := Option.map_eq_some_iff.mp ran
  obtain ⟨alive, round⟩ := roundOfSecond_spec ends
  obtain ⟨before, after⟩ := Prod.mk.inj entries
  have same := (claim s next 1 evictSecond (some offerThird) firstBlock [] 1 firstSwapspace alive
    rfl rfl rfl round 0 firstSwapspace (by decide)).1
  dsimp only at before after
  rw [before, after] at same
  cases same

end ValetSession

end Valet.Bd
