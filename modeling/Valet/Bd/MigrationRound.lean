import Valet.Bd.Migration

/-!
# A migration round from its `EVICT` to its end

`reset_migration_info` unmaps the swapspace of the round in the row of its
`EVICT`, which the remap has just pointed to the new block.
-/

namespace Valet.Bd

open Valet.Wire Valet.Library

/-- Write completions for a block set the bits of their pages. -/
def RemoteBlockHandler.recordWrites (rbh : RemoteBlockHandler) (rb : Block)
    (writes : List (Nat × Nat)) : RemoteBlockHandler :=
  let record (bitmap : Nat → Bool) : Nat → Bool :=
    writes.foldl (fun bitmap write => Machine.bitmapGroupSet bitmap write.1 write.2) bitmap
  { rbh with
    remoteBlock := Function.update rbh.remoteBlock rb
      { rbh.remoteBlock rb with bitmapG := (rbh.remoteBlock rb).bitmapG.map record } }

/-- The destination that a round found, the client when `DONE_MIGRATION` arrives and at the
end. -/
structure RoundEnd (servers replicas : Nat) where
  dest : Dest
  atDone : ValetSession servers replicas
  last : ValetSession servers replicas

def doneMigration : Message := { Message.empty with type := .doneMigration }

namespace ValetSession

variable {servers replicas : Nat}

/-- A round of `migration_handler` that gets a destination: it takes up `evict`, `newCb` answers
`reply`, and writes to the block `rb` of the old server complete meanwhile. -/
def migrateBlock (s : ValetSession servers replicas) (oldCb newCb : Fin servers)
    (evict reply : Message) (rb : Block) (writes : List (Nat × Nat)) :
    Except Halt (RoundEnd servers replicas) := do
  let s ← s.recvDone oldCb (.message evict)
  let (round, s) ← s.takeEvict oldCb
  let s ← (s.queried newCb).requestMigMap oldCb newCb round
  let s ← s.recvDone newCb (.message reply)
  let dest ← s.readSlot newCb
  let atDone := s.modifyRbh oldCb fun rbh => rbh.recordWrites rb writes
  let s ← atDone.recvDone oldCb (.message doneMigration)
  let s ← s.remap oldCb newCb round dest
  let s ← s.copyBitmap oldCb newCb round dest
  let s ← ((s.sendDeleteRb oldCb).sendDone oldCb).cleanRound oldCb (some newCb) round
  return ⟨dest, atDone, s⟩

/-- Afterwards the row maps the swapspace to the new block, which has the bitmap of the source,
and the source is unmapped. -/
structure Moved (e : RoundEnd servers replicas) (row : Fin (replicas + 1))
    (swapspace : Swapspace) (oldCb newCb : Fin servers) (srcRb destRb : Block) : Prop where
  server : e.last.cbIndexMap row swapspace = newCb.val
  block : e.last.mappingSwapspaceToRb row swapspace = destRb.val
  bitmap : ((e.last.rbh newCb).remoteBlock destRb).bitmapG =
    ((e.atDone.rbh oldCb).remoteBlock srcRb).bitmapG
  released : (e.last.rbh oldCb).remoteMapped srcRb = false

variable {s next : ValetSession servers replicas} {oldCb newCb cb : Fin servers}

/-- The states between the pieces of a round. -/
inductive Migrates (s : ValetSession servers replicas) (oldCb newCb : Fin servers)
    (evict reply : Message) (rb : Block) (writes : List (Nat × Nat)) :
    RoundEnd servers replicas → Prop where
  | stages {evicted taken answered doned remapped copied last : ValetSession servers replicas}
      {round : Round} {change : Message → Message}
      (received : Receives s oldCb (.message evict) evicted)
      (takes : TakesEvict evicted oldCb round taken)
      (answer : Receives ((taken.queried newCb).modifySendBuf newCb change) newCb (.message reply)
        answered)
      (done : Receives (answered.modifyRbh oldCb fun rbh => rbh.recordWrites rb writes) oldCb
        (.message doneMigration) doned)
      (remaps : Remaps doned oldCb newCb round (answered.rbh newCb).dest remapped)
      (copies : Copies remapped oldCb newCb round (answered.rbh newCb).dest copied)
      (cleans : Cleans ((copied.sendDeleteRb oldCb).sendDone oldCb) oldCb (some newCb) round last) :
      Migrates s oldCb newCb evict reply rb writes
        ⟨(answered.rbh newCb).dest, answered.modifyRbh oldCb fun rbh => rbh.recordWrites rb writes,
          last⟩

theorem migrates_of_ok {evict reply : Message} {rb : Block} {writes : List (Nat × Nat)}
    {e : RoundEnd servers replicas}
    (ran : s.migrateBlock oldCb newCb evict reply rb writes = .ok e) :
    Migrates s oldCb newCb evict reply rb writes e := by
  obtain ⟨evicted, received, ran⟩ := bind_eq_ok.mp ran
  obtain ⟨⟨round, taken⟩, took, ran⟩ := bind_eq_ok.mp ran
  obtain ⟨requested, request, ran⟩ := bind_eq_ok.mp ran
  obtain ⟨answered, answer, ran⟩ := bind_eq_ok.mp ran
  obtain ⟨dest, slot, ran⟩ := bind_eq_ok.mp ran
  obtain ⟨doned, done, ran⟩ := bind_eq_ok.mp ran
  obtain ⟨remapped, remap, ran⟩ := bind_eq_ok.mp ran
  obtain ⟨copied, copy, ran⟩ := bind_eq_ok.mp ran
  obtain ⟨last, clean, ran⟩ := bind_eq_ok.mp ran
  cases ran
  obtain ⟨change, rfl⟩ := requestMigMap_ok request
  obtain ⟨_, rfl⟩ := readSlot_ok slot
  exact .stages (receives_of_ok received) (takesEvict_of_ok took) (receives_of_ok answer)
    (receives_of_ok done) (remaps_of_ok remap) (copies_of_ok copy) (cleans_of_ok clean)

/-- Some block of the server is marked for migration. -/
def Marked (s : ValetSession servers replicas) (cb : Fin servers) : Prop :=
  ∃ i, (s.rbh cb).migRbIdx i = true

theorem Marked.of_eq (marked : s.Marked cb) (same : (next.rbh cb).migRbIdx = (s.rbh cb).migRbIdx) :
    next.Marked cb := by
  obtain ⟨i, mark⟩ := marked
  exact ⟨i, by rw [same]; exact mark⟩

theorem migRbIdx_modifyRbh {change : RemoteBlockHandler → RemoteBlockHandler} (other : Fin servers)
    (keeps : ∀ rbh, (change rbh).migRbIdx = rbh.migRbIdx) :
    ((s.modifyRbh cb change).rbh other).migRbIdx = (s.rbh other).migRbIdx := by
  by_cases same : other = cb
  · subst same
    rw [rbh_modifyRbh, keeps]
  · rw [rbh_modifyRbh_of_ne _ same]

theorem TakesEvict.migRbIdx {round : Round} (takes : TakesEvict s oldCb round next) :
    (next.rbh cb).migRbIdx = (s.rbh cb).migRbIdx := by
  cases takes with
  | taken evict isSrc isSwapspace isRb => exact migRbIdx_modifyRbh cb fun _ => rfl

theorem Remaps.migRbIdx {round : Round} {dest : Dest} (remaps : Remaps s oldCb newCb round dest next) :
    (next.rbh cb).migRbIdx = (s.rbh cb).migRbIdx := by
  cases remaps with
  | moved done isSwapspace => exact migRbIdx_modifyRbh cb fun _ => rfl

theorem Copies.migRbIdx {round : Round} {dest : Dest} (copies : Copies s oldCb newCb round dest next) :
    (next.rbh cb).migRbIdx = (s.rbh cb).migRbIdx := by
  cases copies with
  | copied isDest isSrc source => exact migRbIdx_modifyRbh cb fun _ => rfl

theorem migRbIdx_sendDone : ((s.sendDone oldCb).rbh cb).migRbIdx = (s.rbh cb).migRbIdx := by
  unfold sendDone
  split
  · rfl
  · split
    · rw [rbh_setState]
    · split
      · exact migRbIdx_modifyRbh cb fun _ => rfl
      · rfl

/-- The clean-up of a round with a marked block unmaps the swapspace. -/
theorem Cleans.unmaps {newCb : Option (Fin servers)} {round : Round} {row : Fin (replicas + 1)}
    {swapspace : Swapspace} (cleans : Cleans s oldCb newCb round next) (marked : s.Marked oldCb)
    (isRow : round.replicaIndex = row.val)
    (isSwapspace : round.clientEvictRbIndex = swapspace.val) :
    next.cbIndexMap row swapspace = noCbMapped := by
  cases cleans with
  | @cleaned middle src at_ rb deleted resets isSrc isAt isRb =>
      have unmapped : middle.cbIndexMap row swapspace = noCbMapped := by
        cases resets with
        | unmarked clear =>
            obtain ⟨i, mark⟩ := marked
            rw [clear i] at mark
            cases mark
        | @cleared i resetRow resetSwapspace mark isResetRow isResetSwapspace =>
            have sameRow : resetRow = row := Fin.ext (by omega)
            have sameSwapspace : resetSwapspace = swapspace := Fin.ext (by omega)
            subst sameRow
            subst sameSwapspace
            cases newCb <;> simp [clearNew, modifyRbh, setCb, setCbIndex]
      split <;> exact unmapped

theorem Receives.evicted {msg : Message} (alive : s.Alive cb) (type : msg.type = .evict)
    (receives : Receives s cb (.message msg) next) :
    next = (s.setState cb .recvEvict).modifyRbh cb
      fun rbh => { rbh.evictHandlerPrep msg with cState := .evict } := by
  cases receives with
  | ignored error => exact absurd error alive.1
  | refused reason => exact absurd reason (alive.accepts (by rw [type]; rfl))
  | migMap _ other | mrMap _ other | done _ other =>
      rw [type] at other
      cases other
  | evict => rfl

/-- The round that a handler takes up after an `EVICT` is that of the `EVICT`. -/
theorem Receives.takenRound {evict : Message} {middle : ValetSession servers replicas}
    {round : Round} (alive : s.Alive cb) (isEvict : evict.type = .evict)
    (received : Receives s cb (.message evict) middle) (takes : TakesEvict middle cb round next) :
    round = Round.ofEvict evict := by
  cases takes with
  | taken =>
      rw [received.evicted alive isEvict, rbh_modifyRbh]
      rfl

theorem Receives.migMapped {msg : Message} (alive : s.Alive cb) (type : msg.type = .respMigMap)
    (receives : Receives s cb (.message msg) next) :
    next = (s.setState cb .recvMigMap).modifyRbh cb
      fun rbh => rbh.valetMigrationBlockInit msg := by
  cases receives with
  | ignored error => exact absurd error alive.1
  | refused reason => exact absurd reason (alive.accepts (by rw [type]; rfl))
  | migMap => rfl
  | mrMap _ other | done _ other | evict _ other =>
      rw [type] at other
      cases other

/-- `DONE_MIGRATION` leaves the marks alone. -/
theorem Receives.migRbIdx {msg : Message} (type : msg.type = .doneMigration)
    (receives : Receives s oldCb (.message msg) next) :
    (next.rbh cb).migRbIdx = (s.rbh cb).migRbIdx := by
  cases receives with
  | ignored => rfl
  | refused => rw [rbh_setState]
  | migMap _ other | mrMap _ other | evict _ other =>
      rw [type] at other
      cases other
  | done =>
      rw [migRbIdx_modifyRbh cb, rbh_setState]
      exact fun _ => rfl

/-- A server that was queried takes messages. -/
theorem alive_queried (change : Message → Message) :
    ((s.queried newCb).modifySendBuf newCb change).Alive newCb := by
  have state : (((s.queried newCb).modifySendBuf newCb change).cbList newCb).state =
      .recvQueryRepl := by
    simp [queried, modifySendBuf, setCb, setState]
  constructor
  · rw [state]
    rintro ⟨⟩
  · rw [state]
    rfl

/-- A round that gets a destination leaves its swapspace unmapped in the row of its `EVICT`. -/
theorem migrateBlock_unmaps {evict reply : Message} {rb : Block} {writes : List (Nat × Nat)}
    {e : RoundEnd servers replicas} {row : Fin (replicas + 1)} {swapspace : Swapspace}
    {srcRb destRb : Block} (alive : s.Alive oldCb) (isEvict : evict.type = .evict)
    (names : evict.rkey srcRb ≠ 0) (isRow : evict.replicaIndex = row.val)
    (isSwapspace : evict.sizeGb = swapspace.val) (isReply : reply.type = .respMigMap)
    (offers : reply.rkey destRb ≠ 0)
    (ran : s.migrateBlock oldCb newCb evict reply rb writes = .ok e) :
    e.last.cbIndexMap row swapspace = noCbMapped := by
  cases migrates_of_ok ran with
  | @stages evicted taken answered doned remapped copied last round change received takes answer
      done remaps copies cleans =>
      have isEvicted := received.evicted alive isEvict
      -- the `EVICT` marks its block and names the round
      have marked : evicted.Marked oldCb := by
        refine ⟨srcRb, ?_⟩
        rw [isEvicted, rbh_modifyRbh]
        simpa [RemoteBlockHandler.evictHandlerPrep] using names
      have isRound := received.takenRound alive isEvict takes
      have marked := marked.of_eq takes.migRbIdx
      -- the answer of the new server leaves a mark, even if that is the old server
      have isAnswered := answer.migMapped (alive_queried change) isReply
      have marked : answered.Marked oldCb := by
        by_cases same : oldCb = newCb
        · refine ⟨destRb, ?_⟩
          rw [isAnswered, same, rbh_modifyRbh]
          simpa [RemoteBlockHandler.valetMigrationBlockInit] using offers
        · apply marked.of_eq
          rw [isAnswered, rbh_modifyRbh_of_ne _ same, rbh_setState, rbh_modifySendBuf, rbh_queried]
      apply cleans.unmaps
      · apply marked.of_eq
        rw [migRbIdx_sendDone, rbh_sendDeleteRb, copies.migRbIdx, remaps.migRbIdx,
          done.migRbIdx rfl, migRbIdx_modifyRbh oldCb]
        exact fun _ => rfl
      · rw [isRound]
        exact isRow
      · rw [isRound]
        exact isSwapspace

/-- No round that gets a destination moves its swapspace there. -/
theorem migrateBlock_never_moves {evict reply : Message} {rb : Block} {writes : List (Nat × Nat)}
    {e : RoundEnd servers replicas} {row : Fin (replicas + 1)} {swapspace : Swapspace}
    {srcRb destRb : Block} (alive : s.Alive oldCb) (isEvict : evict.type = .evict)
    (names : evict.rkey srcRb ≠ 0) (isRow : evict.replicaIndex = row.val)
    (isSwapspace : evict.sizeGb = swapspace.val) (isReply : reply.type = .respMigMap)
    (offers : reply.rkey destRb ≠ 0)
    (ran : s.migrateBlock oldCb newCb evict reply rb writes = .ok e) :
    ¬ Moved e row swapspace oldCb newCb srcRb destRb := by
  intro moved
  have unmapped := migrateBlock_unmaps alive isEvict names isRow isSwapspace isReply offers ran
  have mapped := moved.server
  rw [unmapped] at mapped
  unfold noCbMapped at mapped
  omega

instance (s : ValetSession servers replicas) (cb : Fin servers) : Decidable (s.Alive cb) :=
  inferInstanceAs (Decidable (_ ∧ _))

end ValetSession

/-- A message about one block. -/
def blockMessage (type : MsgOpcode) (cbIndex : Int) (swapspace : Swapspace) (rb : Block) :
    Message where
  type := type
  sizeGb := swapspace.val
  rbIndex := rb.val
  cbIndex := cbIndex
  replicaIndex := 0
  buf := Function.update (fun _ => 0) rb 4096
  rkey := Function.update (fun _ => 0) rb 7

namespace ValetSession

/-- The first swapspace is mapped to the first block of server 0. -/
def oneMapping : Option (ValetSession 2 0) :=
  (((init.queried 0).requestMrMap 0 0 firstSwapspace).recvDone 0
    (.message (blockMessage .respMrMap 0 firstSwapspace firstBlock))).toOption

def evictFirst : Message := blockMessage .evict 0 firstSwapspace firstBlock

def offerFirst : Message := blockMessage .respMigMap 1 firstSwapspace firstBlock

theorem migrateBlock_ends : ∃ s e, oneMapping = some s ∧ s.Alive 0 ∧
    s.migrateBlock 0 1 evictFirst offerFirst firstBlock [(0, 4096)] = .ok e := by
  have ran : (oneMapping.bind fun s => if s.Alive 0 then
      (s.migrateBlock 0 1 evictFirst offerFirst firstBlock [(0, 4096)]).toOption.map fun e => (s, e)
      else none).isSome = true := by
    decide +kernel
  obtain ⟨⟨s, e⟩, ends⟩ := Option.isSome_iff_exists.mp ran
  obtain ⟨first, mapped, rest⟩ := Option.bind_eq_some_iff.mp ends
  split at rest
  · rename_i alive
    obtain ⟨last, ended, same⟩ := Option.map_eq_some_iff.mp rest
    cases same
    exact ⟨s, e, mapped, alive, toOption_eq_some ended⟩
  · cases rest

theorem migrateBlock_never_moves_first : ∃ (s : ValetSession 2 0) (e : RoundEnd 2 0),
    oneMapping = some s ∧
      s.migrateBlock 0 1 evictFirst offerFirst firstBlock [(0, 4096)] = .ok e ∧
        ¬ Moved e 0 firstSwapspace 0 1 firstBlock firstBlock := by
  obtain ⟨s, e, mapped, alive, ended⟩ := migrateBlock_ends
  exact ⟨s, e, mapped, ended,
    migrateBlock_never_moves alive rfl (by decide) rfl rfl rfl (by decide) ended⟩

/-- The round unmaps the swapspace that it was to move. -/
theorem migrateBlock_loses_mapping : ¬ ∀ (s : ValetSession 2 0) (evict reply : Message)
    (writes : List (Nat × Nat)) (e : RoundEnd 2 0), s.Alive 0 → evict.type = .evict →
      evict.rkey firstBlock ≠ 0 → evict.replicaIndex = 0 → evict.sizeGb = 0 →
        reply.type = .respMigMap → reply.rkey firstBlock ≠ 0 →
          s.migrateBlock 0 1 evict reply firstBlock writes = .ok e →
            Moved e 0 firstSwapspace 0 1 firstBlock firstBlock := by
  intro claim
  obtain ⟨s, e, _, alive, ended⟩ := migrateBlock_ends
  have moved := claim s evictFirst offerFirst [(0, 4096)] e alive rfl (by decide) rfl rfl rfl
    (by decide) ended
  have unmapped : e.last.cbIndexMap 0 firstSwapspace = noCbMapped :=
    migrateBlock_unmaps alive rfl (by decide : evictFirst.rkey firstBlock ≠ 0) rfl rfl rfl
      (by decide : offerFirst.rkey firstBlock ≠ 0) ended
  have mapped := moved.server
  rw [unmapped] at mapped
  exact absurd mapped (by decide)

end ValetSession

end Valet.Bd
