import Valet.Bd.ControlBlock
import Valet.Bd.Layout
import Valet.Library.Runs

/-!
# The copy of a block to another server

A server that evicts a block is asked by the new server to copy it, and tells the
client when that is done.  The client stops its writes to the block first, and
waits for those that are in flight after the new server has answered it.  The
three connections deliver in order, and nothing is said about the order between
them.

One migration is followed from the time when its block was mapped.  A write of
several pages goes page by page here.  The client waits for its writes as it is
meant to, and a new server is found.
-/

namespace Valet.Bd

open Valet.Wire Valet.Library

abbrev BlockPage := Fin swapspacePages

/-- Where `migration_handler` waits; `findDest` is before its request. -/
inductive MoveAt where
  | waitEvict
  | findDest
  | waitMigMap
  | waitWrites
  | waitDone
  | waitInFlight
  | waitDelete
  deriving DecidableEq

/-- The writes to the block have been waited for. -/
def MoveAt.drained : MoveAt → Bool
  | waitDone | waitInFlight | waitDelete => true
  | _ => false

/-- The rows lead to the new block. -/
def MoveAt.remapped : MoveAt → Bool
  | waitInFlight | waitDelete => true
  | _ => false

theorem MoveAt.drained_of_remapped {handler : MoveAt} (remapped : handler.remapped = true) :
    handler.drained = true := by
  cases handler with
  | waitInFlight | waitDelete => rfl
  | waitEvict | findDest | waitMigMap | waitWrites | waitDone => cases remapped

/-- The old server: it holds the block, has sent `EVICT`, has copied so many pages, or the copy is
complete. -/
inductive SourceAt where
  | holding
  | evicting
  | copying (pages : Nat)
  | copied
  deriving DecidableEq

def SourceAt.pages : SourceAt → Nat
  | holding | evicting => 0
  | copying pages => pages
  | copied => swapspacePages

/-- The old server has begun to copy. -/
def SourceAt.started : SourceAt → Bool
  | holding | evicting => false
  | copying _ | copied => true

theorem SourceAt.pages_of_not_started {source : SourceAt} (rests : source.started = false) :
    source.pages = 0 := by
  cases source with
  | holding => rfl
  | evicting => rfl
  | copying => cases rests
  | copied => cases rests

/-- The new server: it has answered `REQ_MIG_MAP`, and has sent `REQ_MIGRATION`. -/
inductive DestAt where
  | waiting
  | answered
  | requested
  deriving DecidableEq

/-- The client, the two servers and the messages on their way.  The channel holds the block of the
old server with the writes to it, and `lastWrite` the data that was last written to a page. -/
structure BlockCopy (Data : Type) where
  channel : Channel BlockPage Data (BlockPage × Data) Empty
  rbState : RemoteBlockState
  cState : RbhState
  handler : MoveAt
  bitmap : BlockPage → Bool
  lastWrite : BlockPage → Option Data
  source : SourceAt
  dest : DestAt
  destBlock : BlockPage → Data
  destBitmap : BlockPage → Bool
  sourceToClient : List MsgOpcode
  clientToDest : List MsgOpcode
  destToClient : List MsgOpcode
  destToSource : List MsgOpcode

inductive CopyLabel (Data : Type) where
  | write (page : BlockPage) (data : Data)
  | land
  | writeDone
  | sendEvict
  | recvSource
  | takeEvict
  | requestMap
  | recvRequest
  | requestMigration
  | recvReply
  | writesDone
  | doMigration
  | copy (count : Nat)
  | copyDone
  | remap
  | sendDelete

namespace BlockCopy

variable {Data : Type}

/-- No write to the block is in flight. -/
def idle (s : BlockCopy Data) : Bool := s.channel.posted.isEmpty && s.channel.landed.isEmpty

def step (s : BlockCopy Data) : CopyLabel Data → Option (BlockCopy Data)
  | .write page data =>
      if s.rbState = .active then
        some { s with channel := s.channel.post (.write [(page, data)] (page, data)) }
      else
        none
  | .land => s.channel.land.map fun channel => { s with channel := channel }
  | .writeDone =>
      -- `write_done_postwork`
      match s.channel.complete with
      | some (.wrote (page, data), channel) =>
          some { s with
            channel := channel
            bitmap := Function.update s.bitmap page true
            lastWrite := Function.update s.lastWrite page (some data) }
      | _ => none
  | .sendEvict =>
      if s.source = .holding then
        some { s with source := .evicting, sourceToClient := s.sourceToClient ++ [.evict] }
      else
        none
  | .recvSource =>
      match s.sourceToClient with
      | .evict :: rest => some { s with cState := .evict, sourceToClient := rest }
      | .doneMigration :: rest => some { s with cState := .migrationDone, sourceToClient := rest }
      | _ => none
  | .takeEvict =>
      if s.handler = .waitEvict ∧ s.cState = .evict then
        some { s with handler := .findDest, rbState := .readonly }
      else
        none
  | .requestMap =>
      if s.handler = .findDest then
        some { s with handler := .waitMigMap, clientToDest := s.clientToDest ++ [.reqMigMap] }
      else
        none
  | .recvRequest =>
      match s.clientToDest with
      | .reqMigMap :: rest =>
          some { s with
            dest := .answered
            clientToDest := rest
            destToClient := s.destToClient ++ [.respMigMap] }
      | _ => none
  | .requestMigration =>
      -- the answer is sent, and `do_migration_fn` wakes up
      if s.dest = .answered then
        some { s with dest := .requested, destToSource := s.destToSource ++ [.reqMigration] }
      else
        none
  | .recvReply =>
      match s.destToClient with
      | .respMigMap :: rest =>
          if s.handler = .waitMigMap then
            some { s with handler := .waitWrites, destToClient := rest }
          else
            none
      | _ => none
  | .writesDone =>
      if s.handler = .waitWrites ∧ s.idle = true then some { s with handler := .waitDone } else none
  | .doMigration =>
      match s.source, s.destToSource with
      | .evicting, .reqMigration :: rest =>
          some { s with source := .copying 0, destToSource := rest }
      | _, _ => none
  | .copy count =>
      match s.source with
      | .copying pages =>
          if pages + count ≤ swapspacePages then
            some { s with
              source := .copying (pages + count)
              destBlock := fun page =>
                if pages ≤ page.val ∧ page.val < pages + count then s.channel.memory page
                else s.destBlock page }
          else
            none
      | _ => none
  | .copyDone =>
      if s.source = .copying swapspacePages then
        some { s with
          source := .copied
          sourceToClient := s.sourceToClient ++ [.doneMigration] }
      else
        none
  | .remap =>
      if s.handler = .waitDone ∧ s.cState = .migrationDone then
        some { s with handler := .waitInFlight, destBitmap := s.bitmap }
      else
        none
  | .sendDelete =>
      if s.handler = .waitInFlight ∧ s.idle = true then
        some { s with handler := .waitDelete }
      else
        none

/-- The block was just mapped, and another server has memory for it. -/
def init (memory destBlock : BlockPage → Data) : BlockCopy Data where
  channel := ⟨memory, [], []⟩
  rbState := .active
  cState := .ready
  handler := .waitEvict
  bitmap := fun _ => false
  lastWrite := fun _ => none
  source := .holding
  dest := .waiting
  destBlock := destBlock
  destBitmap := fun _ => false
  sourceToClient := []
  clientToDest := []
  destToClient := []
  destToSource := []

/-- The new block has the last write of every page that its bitmap has. -/
def KeepsWrites (s : BlockCopy Data) : Prop :=
  ∀ page, s.destBitmap page = true → s.lastWrite page = some (s.destBlock page)

/-- A page that is copied has no write on its way that changes it. -/
def CopiesSettled (s : BlockCopy Data) : CopyLabel Data → Prop
  | .copy count => ∀ page : BlockPage, s.source.pages ≤ page.val →
      page.val < s.source.pages + count → s.channel.memory page = s.channel.settled page
  | _ => True

/-! ## The order of the steps -/

variable {s next : BlockCopy Data} {label : CopyLabel Data}

/-- Nothing is asked for before the writes are stopped, the rows are changed after the copy is
complete, and when they are, no write is in flight. -/
structure Ordered (s : BlockCopy Data) : Prop where
  stopped : s.handler ≠ .waitEvict → s.rbState = .readonly
  requested : .reqMigMap ∈ s.clientToDest → s.rbState = .readonly
  answered : s.dest ≠ .waiting → s.rbState = .readonly
  migrating : .reqMigration ∈ s.destToSource → s.rbState = .readonly
  started : s.source.started = true → s.rbState = .readonly
  copied : .doneMigration ∈ s.sourceToClient ∨ s.cState = .migrationDone ∨
    s.handler.remapped = true → s.source = .copied
  drained : s.handler.drained = true → s.idle = true
  moved : s.handler.remapped = true → s.destBitmap = s.bitmap

theorem idle_iff : s.idle = true ↔ s.channel.posted = [] ∧ s.channel.landed = [] := by
  rw [idle, Bool.and_eq_true, List.isEmpty_iff, List.isEmpty_iff]

theorem ordered_init (memory destBlock : BlockPage → Data) : (init memory destBlock).Ordered where
  stopped := fun apart => absurd rfl apart
  requested := nofun
  answered := fun apart => absurd rfl apart
  migrating := nofun
  started := nofun
  copied := by
    rintro (sent | received | remapped)
    · cases sent
    · cases received
    · cases remapped
  drained := fun drained => by cases drained
  moved := fun remapped => by cases remapped

/-- While writes are allowed, none of the parties has got anywhere. -/
theorem Ordered.active (ordered : s.Ordered) (active : s.rbState = .active) :
    s.handler = .waitEvict ∧ s.source.started = false := by
  constructor
  · by_contra apart
    rw [ordered.stopped apart] at active
    cases active
  · rw [← Bool.not_eq_true]
    intro started
    rw [ordered.started started] at active
    cases active

theorem Ordered.write {page : BlockPage} {data : Data} (ordered : s.Ordered)
    (edge : s.step (.write page data) = some next) : next.Ordered := by
  obtain ⟨active, built⟩ := Option.ite_none_right_eq_some.mp edge
  cases built
  refine { ordered with drained := fun drained => ?_ }
  rw [(ordered.active active).1] at drained
  cases drained

theorem Ordered.land (ordered : s.Ordered) (edge : s.step .land = some next) : next.Ordered := by
  obtain ⟨channel, landed, rfl⟩ := Option.map_eq_some_iff.mp edge
  refine { ordered with drained := fun drained => ?_ }
  -- nothing is left to land once the writes have been waited for
  have nothing := (idle_iff.mp (ordered.drained drained)).1
  rw [Channel.land, nothing] at landed
  cases landed

theorem step_writeDone (edge : s.step .writeDone = some next) :
    ∃ page data channel, s.channel.complete = some (.wrote (page, data), channel) ∧
      next = { s with
        channel := channel
        bitmap := Function.update s.bitmap page true
        lastWrite := Function.update s.lastWrite page (some data) } := by
  rw [step] at edge
  split at edge
  · rename_i page data channel completed
    cases edge
    exact ⟨page, data, channel, completed, rfl⟩
  · cases edge

theorem Ordered.writeDone (ordered : s.Ordered) (edge : s.step .writeDone = some next) :
    next.Ordered := by
  obtain ⟨page, data, channel, completed, rfl⟩ := step_writeDone edge
  have undrained : s.handler.drained ≠ true := by
    intro drained
    have nothing := (idle_iff.mp (ordered.drained drained)).2
    rw [Channel.complete, nothing] at completed
    cases completed
  exact { ordered with
    drained := fun drained => absurd drained undrained
    moved := fun remapped => absurd (MoveAt.drained_of_remapped remapped) undrained }

/-- The steps of the messages and of the handler. -/
theorem Ordered.step (ordered : s.Ordered) (edge : s.step label = some next) : next.Ordered := by
  cases label with
  | write page data => exact ordered.write edge
  | land => exact ordered.land edge
  | writeDone => exact ordered.writeDone edge
  | sendEvict =>
      obtain ⟨holding, built⟩ := Option.ite_none_right_eq_some.mp edge
      cases built
      have uncopied : s.source ≠ .copied := by
        rw [holding]
        nofun
      refine { ordered with started := nofun, copied := fun told => ?_ }
      rcases told with sent | rest
      · rcases List.mem_append.mp sent with before | new
        · exact absurd (ordered.copied (.inl before)) uncopied
        · cases List.mem_singleton.mp new
      · exact absurd (ordered.copied (.inr rest)) uncopied
  | recvSource =>
      rw [BlockCopy.step] at edge
      split at edge
      · rename_i rest messages
        cases edge
        refine { ordered with copied := fun told => ordered.copied ?_ }
        rcases told with sent | received | remapped
        · exact .inl (by rw [messages]; exact List.mem_cons_of_mem _ sent)
        · cases received
        · exact .inr (.inr remapped)
      · rename_i rest messages
        cases edge
        refine { ordered with copied := fun _ => ordered.copied (.inl ?_) }
        rw [messages]
        exact List.mem_cons_self
      · cases edge
  | takeEvict =>
      obtain ⟨taken, built⟩ := Option.ite_none_right_eq_some.mp edge
      cases built
      exact
        { stopped := fun _ => rfl
          requested := fun _ => rfl
          answered := fun _ => rfl
          migrating := fun _ => rfl
          started := fun _ => rfl
          copied := fun told => ordered.copied (told.imp_right fun later => later.imp_right nofun)
          drained := nofun
          moved := nofun }
  | requestMap =>
      obtain ⟨finds, built⟩ := Option.ite_none_right_eq_some.mp edge
      cases built
      have stopped : s.rbState = .readonly := ordered.stopped (by rw [finds]; nofun)
      exact { ordered with
        stopped := fun _ => stopped
        requested := fun _ => stopped
        copied := fun told => ordered.copied (told.imp_right fun later => later.imp_right nofun)
        drained := nofun
        moved := nofun }
  | recvRequest =>
      rw [BlockCopy.step] at edge
      split at edge
      · rename_i rest messages
        cases edge
        have requested : .reqMigMap ∈ s.clientToDest := by
          rw [messages]
          exact List.mem_cons_self
        exact { ordered with
          requested := fun _ => ordered.requested requested
          answered := fun _ => ordered.requested requested }
      · cases edge
  | requestMigration =>
      obtain ⟨answered, built⟩ := Option.ite_none_right_eq_some.mp edge
      cases built
      have stopped : s.rbState = .readonly := ordered.answered (by rw [answered]; nofun)
      exact { ordered with
        answered := fun _ => stopped
        migrating := fun _ => stopped }
  | recvReply =>
      rw [BlockCopy.step] at edge
      split at edge
      · obtain ⟨waits, built⟩ := Option.ite_none_right_eq_some.mp edge
        cases built
        exact { ordered with
          stopped := fun _ => ordered.stopped (by rw [waits]; nofun)
          copied := fun told => ordered.copied (told.imp_right fun later => later.imp_right nofun)
          drained := nofun
          moved := nofun }
      · cases edge
  | writesDone =>
      obtain ⟨⟨waits, idle⟩, built⟩ := Option.ite_none_right_eq_some.mp edge
      cases built
      exact { ordered with
        stopped := fun _ => ordered.stopped (by rw [waits]; nofun)
        copied := fun told => ordered.copied (told.imp_right fun later => later.imp_right nofun)
        drained := fun _ => idle
        moved := nofun }
  | doMigration =>
      rw [BlockCopy.step] at edge
      split at edge
      · rename_i rest evicting messages
        cases edge
        have requested : .reqMigration ∈ s.destToSource := by
          rw [messages]
          exact List.mem_cons_self
        refine { ordered with
          migrating := fun _ => ordered.migrating requested
          started := fun _ => ordered.migrating requested
          copied := fun told => ?_ }
        have complete := ordered.copied told
        rw [evicting] at complete
        cases complete
      · cases edge
  | copy count =>
      rw [BlockCopy.step] at edge
      split at edge
      · rename_i pages copying
        obtain ⟨room, built⟩ := Option.ite_none_right_eq_some.mp edge
        cases built
        refine { ordered with
          started := fun _ => ordered.started (by rw [copying]; rfl)
          copied := fun told => ?_ }
        have complete := ordered.copied told
        rw [copying] at complete
        cases complete
      · cases edge
  | copyDone =>
      obtain ⟨copying, built⟩ := Option.ite_none_right_eq_some.mp edge
      cases built
      exact { ordered with
        started := fun _ => ordered.started (by rw [copying]; rfl)
        copied := fun _ => rfl }
  | remap =>
      obtain ⟨⟨waits, done⟩, built⟩ := Option.ite_none_right_eq_some.mp edge
      cases built
      exact { ordered with
        stopped := fun _ => ordered.stopped (by rw [waits]; nofun)
        copied := fun _ => ordered.copied (.inr (.inl done))
        drained := fun _ => ordered.drained (by rw [waits]; rfl)
        moved := fun _ => rfl }
  | sendDelete =>
      obtain ⟨⟨waits, idle⟩, built⟩ := Option.ite_none_right_eq_some.mp edge
      cases built
      have remapped : s.handler.remapped = true := by
        rw [waits]
        rfl
      exact { ordered with
        stopped := fun _ => ordered.stopped (by rw [waits]; nofun)
        copied := fun _ => ordered.copied (.inr (.inr remapped))
        drained := fun _ => idle
        moved := fun _ => ordered.moved remapped }

/-! ## What is recorded -/

/-- The client notes a completion. -/
def note (lastWrite : BlockPage → Option Data) :
    Landed Data (BlockPage × Data) Empty → BlockPage → Option Data
  | .wrote (page, data) => Function.update lastWrite page (some data)
  | .fetched tag _ => nomatch tag

/-- The last write to a page that took effect. -/
def lastLanded (s : BlockCopy Data) : BlockPage → Option Data :=
  s.channel.landed.foldl note s.lastWrite

/-- Every write is of one page, the block has the last one that took effect, and a bit is set for
each page that has one. -/
structure Recorded (s : BlockCopy Data) : Prop where
  single : ∀ op ∈ s.channel.posted, ∃ cell, op = .write [cell] cell
  memory : ∀ page data, s.lastLanded page = some data → s.channel.memory page = data
  marked : ∀ page, s.bitmap page = true → (s.lastWrite page).isSome = true

theorem recorded_init (memory destBlock : BlockPage → Data) :
    (init memory destBlock).Recorded where
  single := nofun
  memory := nofun
  marked := nofun

theorem Recorded.same (recorded : s.Recorded) (channel : next.channel = s.channel)
    (bitmap : next.bitmap = s.bitmap) (lastWrite : next.lastWrite = s.lastWrite) :
    next.Recorded where
  single := by
    rw [channel]
    exact recorded.single
  memory := by
    rw [lastLanded, channel, lastWrite]
    exact recorded.memory
  marked := by
    rw [bitmap, lastWrite]
    exact recorded.marked

theorem Recorded.write {page : BlockPage} {data : Data} (recorded : s.Recorded)
    (edge : s.step (.write page data) = some next) : next.Recorded := by
  obtain ⟨active, built⟩ := Option.ite_none_right_eq_some.mp edge
  cases built
  refine { recorded with single := fun op member => ?_ }
  rcases List.mem_append.mp member with before | new
  · exact recorded.single op before
  · exact ⟨(page, data), List.mem_singleton.mp new⟩

theorem Recorded.land (recorded : s.Recorded) (edge : s.step .land = some next) :
    next.Recorded := by
  obtain ⟨channel, landed, rfl⟩ := Option.map_eq_some_iff.mp edge
  rw [Channel.land] at landed
  split at landed
  · cases landed
  · rename_i op rest posted
    obtain ⟨⟨page, data⟩, rfl⟩ := recorded.single op (by rw [posted]; exact List.mem_cons_self)
    cases landed
    constructor
    · intro later member
      exact recorded.single later (by rw [posted]; exact List.mem_cons_of_mem _ member)
    · intro other value last
      rw [lastLanded, List.foldl_append] at last
      have last : Function.update s.lastLanded page (some data) other = some value := last
      have stored : store s.channel.memory [(page, data)] other =
          Function.update s.channel.memory page data other := rfl
      refine stored.trans ?_
      rcases eq_or_ne other page with rfl | different
      · rw [Function.update_self] at last ⊢
        exact Option.some.inj last
      · rw [Function.update_of_ne different] at last ⊢
        exact recorded.memory other value last
    · exact recorded.marked

theorem Recorded.writeDone (recorded : s.Recorded) (edge : s.step .writeDone = some next) :
    next.Recorded := by
  obtain ⟨page, data, channel, completed, rfl⟩ := step_writeDone edge
  rw [Channel.complete] at completed
  split at completed
  · cases completed
  · rename_i first rest landed
    cases completed
    constructor
    · exact recorded.single
    · intro other value last
      apply recorded.memory other value
      rw [lastLanded, landed]
      exact last
    · intro other marked
      dsimp only at marked ⊢
      rcases eq_or_ne other page with rfl | different
      · rw [Function.update_self]
        rfl
      · rw [Function.update_of_ne different] at marked ⊢
        exact recorded.marked other marked

/-- The other steps do not touch the block of the old server or what the client has recorded. -/
theorem step_channel (edge : s.step label = some next) :
    (∃ page data, label = .write page data) ∨ label = .land ∨ label = .writeDone ∨
      (next.channel = s.channel ∧ next.bitmap = s.bitmap ∧ next.lastWrite = s.lastWrite) := by
  cases label with
  | write page data => exact .inl ⟨page, data, rfl⟩
  | land => exact .inr (.inl rfl)
  | writeDone => exact .inr (.inr (.inl rfl))
  | sendEvict | takeEvict | requestMap | requestMigration | writesDone | copyDone | remap
  | sendDelete =>
      obtain ⟨_, built⟩ := Option.ite_none_right_eq_some.mp edge
      cases built
      exact .inr (.inr (.inr ⟨rfl, rfl, rfl⟩))
  | recvSource =>
      rw [step] at edge
      split at edge
      · cases edge
        exact .inr (.inr (.inr ⟨rfl, rfl, rfl⟩))
      · cases edge
        exact .inr (.inr (.inr ⟨rfl, rfl, rfl⟩))
      · cases edge
  | recvRequest | doMigration =>
      rw [step] at edge
      split at edge
      · cases edge
        exact .inr (.inr (.inr ⟨rfl, rfl, rfl⟩))
      · cases edge
  | recvReply | copy =>
      rw [step] at edge
      split at edge
      · obtain ⟨_, built⟩ := Option.ite_none_right_eq_some.mp edge
        cases built
        exact .inr (.inr (.inr ⟨rfl, rfl, rfl⟩))
      · cases edge

theorem Recorded.step (recorded : s.Recorded) (edge : s.step label = some next) :
    next.Recorded := by
  rcases step_channel edge with ⟨page, data, rfl⟩ | rfl | rfl | ⟨channel, bitmap, lastWrite⟩
  · exact recorded.write edge
  · exact recorded.land edge
  · exact recorded.writeDone edge
  · exact recorded.same channel bitmap lastWrite

/-! ## The pages that were copied -/

/-- A step copies more pages, or leaves the new block as it is. -/
theorem step_copies (edge : s.step label = some next) :
    (∃ count, label = .copy count ∧ next.channel = s.channel ∧
        next.source.pages = s.source.pages + count ∧
          ∀ page, next.destBlock page =
            if s.source.pages ≤ page.val ∧ page.val < s.source.pages + count then
              s.channel.memory page
            else s.destBlock page) ∨
      ((∀ count, label ≠ .copy count) ∧ next.destBlock = s.destBlock ∧
        next.source.pages = s.source.pages) := by
  cases label with
  | write | takeEvict | requestMap | requestMigration | writesDone | remap | sendDelete =>
      obtain ⟨_, built⟩ := Option.ite_none_right_eq_some.mp edge
      cases built
      exact .inr ⟨fun _ => nofun, rfl, rfl⟩
  | land =>
      obtain ⟨channel, _, rfl⟩ := Option.map_eq_some_iff.mp edge
      exact .inr ⟨fun _ => nofun, rfl, rfl⟩
  | writeDone =>
      obtain ⟨page, data, channel, _, rfl⟩ := step_writeDone edge
      exact .inr ⟨fun _ => nofun, rfl, rfl⟩
  | sendEvict | copyDone =>
      obtain ⟨before, built⟩ := Option.ite_none_right_eq_some.mp edge
      cases built
      exact .inr ⟨fun _ => nofun, rfl, by rw [before]; rfl⟩
  | recvSource =>
      rw [step] at edge
      split at edge
      · cases edge
        exact .inr ⟨fun _ => nofun, rfl, rfl⟩
      · cases edge
        exact .inr ⟨fun _ => nofun, rfl, rfl⟩
      · cases edge
  | recvRequest =>
      rw [step] at edge
      split at edge
      · cases edge
        exact .inr ⟨fun _ => nofun, rfl, rfl⟩
      · cases edge
  | doMigration =>
      rw [step] at edge
      split at edge
      · rename_i rest evicting _
        cases edge
        exact .inr ⟨fun _ => nofun, rfl, by rw [evicting]; rfl⟩
      · cases edge
  | recvReply =>
      rw [step] at edge
      split at edge
      · obtain ⟨_, built⟩ := Option.ite_none_right_eq_some.mp edge
        cases built
        exact .inr ⟨fun _ => nofun, rfl, rfl⟩
      · cases edge
  | copy count =>
      rw [step] at edge
      split at edge
      · rename_i pages copying
        obtain ⟨_, built⟩ := Option.ite_none_right_eq_some.mp edge
        cases built
        refine .inl ⟨count, rfl, rfl, by rw [copying]; rfl, fun page => ?_⟩
        rw [copying]
        rfl
      · cases edge

/-- The page was written to: its bit is set, or the completion is to come. -/
def Written (s : BlockCopy Data) (page : BlockPage) : Prop :=
  s.bitmap page = true ∨ ∃ data, (page, data) ∈ s.channel.writes

/-- What holds in every run. -/
structure Sound (s : BlockCopy Data) : Prop extends Ordered s, Recorded s

theorem Sound.step (sound : s.Sound) (edge : s.step label = some next) : next.Sound :=
  { sound.toOrdered.step edge, sound.toRecorded.step edge with }

/-- The pages copied so far are as the block will be. -/
def CopiedSettled (s : BlockCopy Data) : Prop :=
  ∀ page : BlockPage, page.val < s.source.pages → s.destBlock page = s.channel.settled page

/-- A page that was written to was copied and will be different. -/
def Spoilt (s : BlockCopy Data) : Prop :=
  ∃ page : BlockPage, page.val < s.source.pages ∧ s.destBlock page ≠ s.channel.settled page ∧
    s.Written page

/-- Once pages have been copied, the block will be as it was going to be. -/
theorem Sound.settled_eq (sound : s.Sound) (edge : s.step label = some next)
    (begun : s.source.pages ≠ 0) : next.channel.settled = s.channel.settled := by
  rcases step_channel edge with ⟨page, data, rfl⟩ | rfl | rfl | ⟨channel, _, _⟩
  · obtain ⟨active, _⟩ := Option.ite_none_right_eq_some.mp edge
    exact absurd (SourceAt.pages_of_not_started (sound.active active).2) begun
  · obtain ⟨channel, landed, rfl⟩ := Option.map_eq_some_iff.mp edge
    exact Channel.settled_land landed
  · obtain ⟨page, data, channel, completed, rfl⟩ := step_writeDone edge
    exact Channel.settled_complete completed
  · rw [channel]

theorem Written.step {page : BlockPage} (written : s.Written page)
    (edge : s.step label = some next) : next.Written page := by
  rcases step_channel edge with ⟨other, data, rfl⟩ | rfl | rfl | ⟨channel, bitmap, _⟩
  · obtain ⟨_, built⟩ := Option.ite_none_right_eq_some.mp edge
    cases built
    refine written.imp_right fun ⟨value, member⟩ => ⟨value, ?_⟩
    rw [Channel.writes_post_write]
    exact List.mem_append_left _ member
  · obtain ⟨channel, landed, rfl⟩ := Option.map_eq_some_iff.mp edge
    refine written.imp_right fun ⟨value, member⟩ => ⟨value, ?_⟩
    rw [Channel.writes_land landed]
    exact member
  · obtain ⟨other, data, channel, completed, rfl⟩ := step_writeDone edge
    rcases eq_or_ne page other with rfl | different
    · exact .inl (Function.update_self _ _ _)
    · rcases written with marked | ⟨value, member⟩
      · exact .inl ((Function.update_of_ne different _ _).trans marked)
      · rw [Channel.writes_complete_wrote completed] at member
        rcases List.mem_cons.mp member with same | later
        · cases same
          exact absurd rfl different
        · exact .inr ⟨value, later⟩
  · rw [Written, channel, bitmap]
    exact written

theorem CopiedSettled.step (copied : s.CopiedSettled) (sound : s.Sound)
    (guard : s.CopiesSettled label) (edge : s.step label = some next) : next.CopiedSettled := by
  intro page less
  rcases step_copies edge with ⟨count, rfl, channel, pages, block⟩ | ⟨_, block, same⟩
  · rw [pages] at less
    rw [block, channel]
    split
    · rename_i inside
      exact guard page inside.1 inside.2
    · exact copied page (by omega)
  · rw [same] at less
    rw [block, sound.settled_eq edge (by omega)]
    exact copied page less

theorem Spoilt.step (spoilt : s.Spoilt) (sound : s.Sound) (edge : s.step label = some next) :
    next.Spoilt := by
  obtain ⟨page, less, differs, written⟩ := spoilt
  refine ⟨page, ?_, ?_, written.step edge⟩
  · rcases step_copies edge with ⟨count, _, _, pages, _⟩ | ⟨_, _, same⟩
    · omega
    · omega
  · rw [sound.settled_eq edge (by omega)]
    rcases step_copies edge with ⟨count, _, _, _, block⟩ | ⟨_, block, _⟩
    · rw [block, if_neg (by omega)]
      exact differs
    · rw [block]
      exact differs

/-- A page that a write on its way changes is spoilt when it is copied. -/
theorem Sound.spoilt (sound : s.Sound) (edge : s.step label = some next)
    (late : ¬ s.CopiesSettled label) : next.Spoilt := by
  rcases step_copies edge with ⟨count, rfl, channel, pages, block⟩ | ⟨other, _, _⟩
  · rw [CopiesSettled] at late
    push Not at late
    obtain ⟨page, past, less, differs⟩ := late
    refine ⟨page, by omega, ?_, .inr ?_⟩
    · rw [block, if_pos ⟨past, less⟩, channel]
      exact differs
    · rw [channel]
      by_contra unwritten
      apply differs
      -- no posted write is to this page, so that none will change it
      refine (settle_of_untouched fun op member memory => ?_).symm
      obtain ⟨cell, rfl⟩ := sound.single op member
      refine Function.update_of_ne ?_ _ _
      rintro rfl
      refine unwritten ⟨cell.2, List.mem_append_right _ ?_⟩
      exact List.mem_filterMap.mpr ⟨_, member, rfl⟩
  · cases label with
    | copy count => exact absurd rfl (other count)
    | _ => exact absurd trivial late

/-! ## What is on the new block in the end -/

/-- When `DELETE_RB` is sent, the copy is complete, nothing is in flight, and the bitmap is the one
of the old block. -/
theorem Sound.ended (sound : s.Sound) (sent : s.handler = .waitDelete) :
    s.source.pages = swapspacePages ∧ s.channel.posted = [] ∧ s.channel.landed = [] ∧
      s.destBitmap = s.bitmap := by
  have remapped : s.handler.remapped = true := by
    rw [sent]
    rfl
  have copied := sound.copied (.inr (.inr remapped))
  obtain ⟨posted, landed⟩ :=
    idle_iff.mp (sound.drained (MoveAt.drained_of_remapped remapped))
  exact ⟨by rw [copied]; rfl, posted, landed, sound.moved remapped⟩

theorem Sound.settled_memory (sound : s.Sound) (sent : s.handler = .waitDelete) :
    s.channel.settled = s.channel.memory := by
  rw [Channel.settled, (sound.ended sent).2.1]
  rfl

/-- The last write to a page is on the old block. -/
theorem Sound.memory_of_lastWrite (sound : s.Sound) (sent : s.handler = .waitDelete)
    {page : BlockPage} {data : Data} (last : s.lastWrite page = some data) :
    s.channel.memory page = data := by
  apply sound.memory
  rw [lastLanded, (sound.ended sent).2.2.1]
  exact last

theorem CopiedSettled.keepsWrites (copied : s.CopiedSettled) (sound : s.Sound)
    (sent : s.handler = .waitDelete) : s.KeepsWrites := by
  intro page marked
  obtain ⟨pages, _, _, moved⟩ := sound.ended sent
  rw [moved] at marked
  obtain ⟨data, last⟩ := Option.isSome_iff_exists.mp (sound.marked page marked)
  have same := copied page (by rw [pages]; exact page.isLt)
  rw [last, same, sound.settled_memory sent, sound.memory_of_lastWrite sent last]

theorem Spoilt.not_keepsWrites (spoilt : s.Spoilt) (sound : s.Sound)
    (sent : s.handler = .waitDelete) : ¬ s.KeepsWrites := by
  intro keeps
  obtain ⟨page, _, differs, written⟩ := spoilt
  obtain ⟨_, posted, landed, moved⟩ := sound.ended sent
  have marked : s.bitmap page = true := by
    rcases written with marked | ⟨data, member⟩
    · exact marked
    · rw [Channel.writes, posted, landed] at member
      cases member
  have last := keeps page (by rw [moved]; exact marked)
  apply differs
  rw [sound.settled_memory sent, sound.memory_of_lastWrite sent last]

theorem sound_init (memory destBlock : BlockPage → Data) : (init memory destBlock).Sound :=
  { ordered_init memory destBlock, recorded_init memory destBlock with }

theorem Spoilt.run {labels : List (CopyLabel Data)} (spoilt : s.Spoilt) (sound : s.Sound)
    (run : Run BlockCopy.step always s labels next) : next.Spoilt := by
  induction run with
  | refl => exact spoilt
  | head _ edge _ ih => exact ih (spoilt.step sound edge) (sound.step edge)

theorem Sound.run {labels : List (CopyLabel Data)} (sound : s.Sound)
    (run : Run BlockCopy.step always s labels next) : next.Sound :=
  run.preserves (fun sound _ edge => sound.step edge) sound

theorem CopiedSettled.run {labels : List (CopyLabel Data)} (copied : s.CopiedSettled)
    (sound : s.Sound) (run : Run BlockCopy.step CopiesSettled s labels next) :
    next.CopiedSettled := by
  induction run with
  | refl => exact copied
  | head guard edge _ ih => exact ih (copied.step sound guard edge) (sound.step edge)

/-- A run that loses no write in the end has copied no page too early. -/
theorem Sound.guarded {labels : List (CopyLabel Data)} (sound : s.Sound)
    (run : Run BlockCopy.step always s labels next) (sent : next.handler = .waitDelete)
    (keeps : next.KeepsWrites) : Run BlockCopy.step CopiesSettled s labels next := by
  induction run with
  | refl => exact .refl _
  | head _ edge tail ih =>
      have after := sound.step edge
      refine .head ?_ edge (ih after sent keeps)
      by_contra late
      exact ((sound.spoilt edge late).run after tail).not_keepsWrites (after.run tail) sent keeps

/-- In a run of a migration up to `DELETE_RB`, the new block has the last write of every page whose
bit is set exactly when no page was copied while a write on its way was to change it. -/
theorem migration_keeps_writes_iff {memory destBlock : BlockPage → Data}
    {labels : List (CopyLabel Data)} (run : Run step always (init memory destBlock) labels s)
    (sent : s.handler = .waitDelete) :
    s.KeepsWrites ↔ Run step CopiesSettled (init memory destBlock) labels s := by
  have start := sound_init memory destBlock
  constructor
  · exact start.guarded run sent
  · intro guarded
    have none : (init memory destBlock).CopiedSettled :=
      fun _ less => absurd less (Nat.not_lt_zero _)
    exact (none.run start guarded).keepsWrites (start.run run) sent

def firstPage : BlockPage := ⟨0, by decide⟩

/-- The eviction up to the message that asks the old server for the copy. -/
def evictionAsked : List (CopyLabel Nat) :=
  [.sendEvict, .recvSource, .takeEvict, .requestMap, .recvRequest, .requestMigration]

/-- The end of the migration, after the copy. -/
def migrationEnds : List (CopyLabel Nat) :=
  [.copyDone, .recvSource, .remap, .sendDelete]

/-- The write is complete before the eviction. -/
def writtenBefore : List (CopyLabel Nat) :=
  [.write firstPage 7, .land, .writeDone] ++ evictionAsked ++
    [.recvReply, .writesDone, .doMigration, .copy swapspacePages] ++ migrationEnds

theorem migration_keeps_writes_iff_before : ∃ s,
    Run step always (init (fun _ => 1) fun _ => 0) writtenBefore s ∧ s.handler = .waitDelete ∧
      (s.KeepsWrites ↔ Run step CopiesSettled (init (fun _ => 1) fun _ => 0) writtenBefore s) := by
  have ran : (exec step (init (fun _ => 1) fun _ => 0) writtenBefore).map
      (fun s => s.handler) = some .waitDelete := by
    decide +kernel
  obtain ⟨s, ended, sent⟩ := Option.map_eq_some_iff.mp ran
  exact ⟨s, run_of_exec ended, sent, migration_keeps_writes_iff (run_of_exec ended) sent⟩

/-- The write is posted before the eviction and takes effect after its page was copied. -/
def writtenLate : List (CopyLabel Nat) :=
  [.write firstPage 7] ++ evictionAsked ++
    [.doMigration, .copy swapspacePages, .land, .writeDone, .recvReply, .writesDone] ++
      migrationEnds

theorem lateWrite_lost : ¬ ∀ (memory destBlock : BlockPage → Nat) (labels : List (CopyLabel Nat))
    (s : BlockCopy Nat), Run step always (init memory destBlock) labels s →
      s.handler = .waitDelete → s.KeepsWrites := by
  intro claim
  have ran : (exec step (init (fun _ => 1) fun _ => 0) writtenLate).map
      (fun s => (s.handler, s.destBitmap firstPage, s.lastWrite firstPage,
        s.destBlock firstPage)) = some (.waitDelete, true, some 7, 1) := by
    decide +kernel
  obtain ⟨s, ended, found⟩ := Option.map_eq_some_iff.mp ran
  obtain ⟨sent, found⟩ := Prod.mk.inj found
  obtain ⟨marked, found⟩ := Prod.mk.inj found
  obtain ⟨last, copied⟩ := Prod.mk.inj found
  have keeps := claim _ _ _ s (run_of_exec ended) sent firstPage marked
  rw [last, copied] at keeps
  cases keeps

end BlockCopy

end Valet.Bd
