import Valet.Bd.Migration
import Valet.Library.Runs

/-!
# The client on its control connections

One thread at a time is in `get_cb`, which holds `cb_lock`, and every server has a
`migration_handler`.  A step is what one of these threads does between two
waits, a received message, or the completion of a send; no connection is lost.
The steps come in any order.  Beside the client stands which regions the
servers have handed out and were not asked to delete since.
-/

namespace Valet.Bd

open Valet.Wire Valet.Library

/-- Where the thread in `valet_remote_block_map` is: in `find_the_best_node`, or waiting for
the reply of a row. -/
inductive MapperPc (servers replicas : Nat) where
  | finding (selectIdx : Swapspace)
  | waiting (selectIdx : Swapspace) (replicaList : Fin (replicas + 1) → Fin servers)
      (row : Fin (replicas + 1))

/-- Where `migration_handler` is, with its local variables. -/
inductive HandlerPc (servers : Nat) where
  | waitEvict
  | findDest (round : Round)
  | waitMigMap (round : Round) (newCb : Fin servers)
  | waitDone (round : Round) (newCb : Fin servers) (dest : Dest)
  | copyBitmap (round : Round) (newCb : Fin servers) (dest : Dest)
  | sendDelete (round : Round) (newCb : Option (Fin servers))
  | waitDelete (round : Round) (newCb : Option (Fin servers))

/-- The round that the handler is in. -/
def HandlerPc.round {servers : Nat} : HandlerPc servers → Option Round
  | .waitEvict => none
  | .findDest round => some round
  | .waitMigMap round _ => some round
  | .waitDone round _ _ => some round
  | .copyBitmap round _ _ => some round
  | .sendDelete round _ => some round
  | .waitDelete round _ => some round

structure Control (servers replicas : Nat) where
  session : ValetSession servers replicas
  mapper : Option (MapperPc servers replicas)
  handler : Fin servers → HandlerPc servers
  handedOut : Fin servers → Block → Bool

inductive ControlLabel (servers replicas : Nat) where
  | ask (cb : Fin servers)
  | getCb (swapspace : Swapspace)
  | noNodes
  | chooseNodes (replicaList : Fin (replicas + 1) → Fin servers)
  | mapRow
  | recv (cb : Fin servers) (recv : Received)
  | sendDone (cb : Fin servers)
  | takeEvict (cb : Fin servers)
  | noDest (cb : Fin servers)
  | chooseDest (cb newCb : Fin servers)
  | readSlot (cb : Fin servers)
  | remap (cb : Fin servers)
  | copyBitmap (cb : Fin servers)
  | postDelete (cb : Fin servers)
  | clean (cb : Fin servers)

/-- The regions that a message hands out. -/
def Received.offers : Received → Block → Bool
  | .query _, _ => false
  | .message msg, i => (msg.type = .respMrMap ∨ msg.type = .respMigMap) && msg.rkey i != 0

namespace Control

variable {servers replicas : Nat} (m : Control servers replicas)

/-- The handler of a server goes on. -/
def goOn (cb : Fin servers) (pc : HandlerPc servers) (session : ValetSession servers replicas) :
    Control servers replicas :=
  { m with session := session, handler := Function.update m.handler cb pc }

@[simp] theorem session_goOn (cb : Fin servers) (pc : HandlerPc servers)
    (session : ValetSession servers replicas) : (m.goOn cb pc session).session = session := rfl

@[simp] theorem handler_goOn (cb : Fin servers) (pc : HandlerPc servers)
    (session : ValetSession servers replicas) : (m.goOn cb pc session).handler cb = pc :=
  Function.update_self ..

theorem handler_goOn_of_ne {cb other : Fin servers} (different : other ≠ cb)
    (pc : HandlerPc servers) (session : ValetSession servers replicas) :
    (m.goOn cb pc session).handler other = m.handler other :=
  Function.update_of_ne different ..

def isSearching : Bool :=
  (match m.mapper with
    | some (.finding _) => true
    | _ => false) ||
  (List.finRange servers).any fun cb =>
    match m.handler cb with
    | .findDest _ => true
    | _ => false

/-- `find_the_best_node` picks the servers, and the first of them is asked for a block. -/
def chooseNodes (selectIdx : Swapspace) (replicaList : Fin (replicas + 1) → Fin servers) :
    Control servers replicas :=
  let queried := (List.ofFn replicaList).foldl ValetSession.queried m.session
  { m with
    session := queried.requestMrMap (replicaList 0) 0 selectIdx
    mapper := some (.waiting selectIdx replicaList 0) }

/-- The wait of `valet_remote_block_map` for a row is over. -/
def mapRow (selectIdx : Swapspace) (replicaList : Fin (replicas + 1) → Fin servers)
    (row : Fin (replicas + 1)) : Control servers replicas :=
  let session := { m.session with rdmaOn := true }
  if more : row.val + 1 < replicas + 1 then
    let next : Fin (replicas + 1) := ⟨row.val + 1, more⟩
    { m with
      session := session.requestMrMap (replicaList next) next selectIdx
      mapper := some (.waiting selectIdx replicaList next) }
  else
    { m with session := session, mapper := none }

theorem handler_mapRow {m : Control servers replicas} {selectIdx : Swapspace}
    {replicaList : Fin (replicas + 1) → Fin servers} {row : Fin (replicas + 1)} :
    (m.mapRow selectIdx replicaList row).handler = m.handler := by
  unfold mapRow
  dsimp only
  split
  · rfl
  · rfl

def step (m : Control servers replicas) :
    ControlLabel servers replicas → Option (Control servers replicas)
  | .ask cb => if m.isSearching then some { m with session := m.session.queried cb } else none
  | .getCb swapspace =>
      if m.mapper.isSome then
        none
      else if m.session.cbIndexMap 0 swapspace = noCbMapped then
        some { m with mapper := some (.finding swapspace) }
      else
        some m
  | .noNodes =>
      match m.mapper with
      | some (.finding _) => some { m with mapper := none }
      | _ => none
  | .chooseNodes replicaList =>
      match m.mapper with
      | some (.finding selectIdx) =>
          if Function.Injective replicaList then some (m.chooseNodes selectIdx replicaList) else none
      | _ => none
  | .mapRow =>
      match m.mapper with
      | some (.waiting selectIdx replicaList row) =>
          if (m.session.cbList (replicaList row)).state = .recvMrMap then
            some (m.mapRow selectIdx replicaList row)
          else
            none
      | _ => none
  | .recv cb recv =>
      (m.session.recvDone cb recv).toOption.map fun session =>
        { m with
          session := session
          handedOut := Function.update m.handedOut cb fun i =>
            recv.offers i || m.handedOut cb i }
  | .sendDone cb => some { m with session := m.session.sendDone cb }
  | .takeEvict cb =>
      match m.handler cb with
      | .waitEvict => (m.session.takeEvict cb).toOption.map fun (round, session) =>
          m.goOn cb (.findDest round) session
      | _ => none
  | .noDest cb =>
      match m.handler cb with
      | .findDest round => some (m.goOn cb (.sendDelete round none) m.session)
      | _ => none
  | .chooseDest cb newCb =>
      match m.handler cb with
      | .findDest round =>
          ((m.session.queried newCb).requestMigMap cb newCb round).toOption.map
            (m.goOn cb (.waitMigMap round newCb))
      | _ => none
  | .readSlot cb =>
      match m.handler cb with
      | .waitMigMap round newCb => (m.session.readSlot newCb).toOption.map fun dest =>
          m.goOn cb (.waitDone round newCb dest) m.session
      | _ => none
  | .remap cb =>
      match m.handler cb with
      | .waitDone round newCb dest => (m.session.remap cb newCb round dest).toOption.map
          (m.goOn cb (.copyBitmap round newCb dest))
      | _ => none
  | .copyBitmap cb =>
      match m.handler cb with
      | .copyBitmap round newCb dest => (m.session.copyBitmap cb newCb round dest).toOption.map
          (m.goOn cb (.sendDelete round (some newCb)))
      | _ => none
  | .postDelete cb =>
      match m.handler cb with
      | .sendDelete round newCb =>
          some { m.goOn cb (.waitDelete round newCb) (m.session.sendDeleteRb cb) with
            handedOut := Function.update m.handedOut cb fun i =>
              m.handedOut cb i && !(m.session.rbh cb).migRbIdx i }
      | _ => none
  | .clean cb =>
      match m.handler cb with
      | .waitDelete round newCb => (m.session.cleanRound cb newCb round).toOption.map
          (m.goOn cb .waitEvict)
      | _ => none

/-- What `get_cb` returns with in a step: the swapspace for which it answers a server. -/
def returns (m : Control servers replicas) : ControlLabel servers replicas → Option Swapspace
  | .getCb swapspace =>
      if m.session.cbIndexMap 0 swapspace = noCbMapped then none else some swapspace
  | .mapRow =>
      match m.mapper with
      | some (.waiting selectIdx _ row) => if row.val = replicas then some selectIdx else none
      | _ => none
  | _ => none

/-- What a step does. -/
inductive Moves (m : Control servers replicas) :
    ControlLabel servers replicas → Control servers replicas → Prop where
  | ask {cb : Fin servers} : Moves m (.ask cb) { m with session := m.session.queried cb }
  | getFinding {swapspace : Swapspace} (idle : m.mapper = none)
      (unmapped : m.session.cbIndexMap 0 swapspace = noCbMapped) :
      Moves m (.getCb swapspace) { m with mapper := some (.finding swapspace) }
  | getMapped {swapspace : Swapspace} (idle : m.mapper = none)
      (mapped : m.session.cbIndexMap 0 swapspace ≠ noCbMapped) : Moves m (.getCb swapspace) m
  | noNodes {selectIdx : Swapspace} (finding : m.mapper = some (.finding selectIdx)) :
      Moves m .noNodes { m with mapper := none }
  | chooseNodes {selectIdx : Swapspace} {replicaList : Fin (replicas + 1) → Fin servers}
      (finding : m.mapper = some (.finding selectIdx))
      (distinct : Function.Injective replicaList) :
      Moves m (.chooseNodes replicaList) (m.chooseNodes selectIdx replicaList)
  | mapRow {selectIdx : Swapspace} {replicaList : Fin (replicas + 1) → Fin servers}
      {row : Fin (replicas + 1)} (waiting : m.mapper = some (.waiting selectIdx replicaList row))
      (arrived : (m.session.cbList (replicaList row)).state = .recvMrMap) :
      Moves m .mapRow (m.mapRow selectIdx replicaList row)
  | recv {cb : Fin servers} {recv : Received} {session : ValetSession servers replicas}
      (receives : ValetSession.Receives m.session cb recv session) :
      Moves m (.recv cb recv)
        { m with
          session := session
          handedOut := Function.update m.handedOut cb fun i =>
            recv.offers i || m.handedOut cb i }
  | sendDone {cb : Fin servers} :
      Moves m (.sendDone cb) { m with session := m.session.sendDone cb }
  | takeEvict {cb : Fin servers} {round : Round} {session : ValetSession servers replicas}
      (waits : m.handler cb = .waitEvict)
      (takes : ValetSession.TakesEvict m.session cb round session) :
      Moves m (.takeEvict cb) (m.goOn cb (.findDest round) session)
  | noDest {cb : Fin servers} {round : Round} (finding : m.handler cb = .findDest round) :
      Moves m (.noDest cb) (m.goOn cb (.sendDelete round none) m.session)
  | chooseDest {cb newCb : Fin servers} {round : Round} {change : Message → Message}
      (finding : m.handler cb = .findDest round) :
      Moves m (.chooseDest cb newCb) (m.goOn cb (.waitMigMap round newCb)
        ((m.session.queried newCb).modifySendBuf newCb change))
  | readSlot {cb newCb : Fin servers} {round : Round}
      (waits : m.handler cb = .waitMigMap round newCb)
      (arrived : (m.session.cbList newCb).state = .recvMigMap) :
      Moves m (.readSlot cb) (m.goOn cb (.waitDone round newCb (m.session.rbh newCb).dest) m.session)
  | remap {cb newCb : Fin servers} {round : Round} {dest : Dest}
      {session : ValetSession servers replicas} (waits : m.handler cb = .waitDone round newCb dest)
      (remaps : ValetSession.Remaps m.session cb newCb round dest session) :
      Moves m (.remap cb) (m.goOn cb (.copyBitmap round newCb dest) session)
  | copyBitmap {cb newCb : Fin servers} {round : Round} {dest : Dest}
      {session : ValetSession servers replicas}
      (remapped : m.handler cb = .copyBitmap round newCb dest)
      (copies : ValetSession.Copies m.session cb newCb round dest session) :
      Moves m (.copyBitmap cb) (m.goOn cb (.sendDelete round (some newCb)) session)
  | postDelete {cb : Fin servers} {round : Round} {newCb : Option (Fin servers)}
      (sends : m.handler cb = .sendDelete round newCb) :
      Moves m (.postDelete cb)
        { m.goOn cb (.waitDelete round newCb) (m.session.sendDeleteRb cb) with
          handedOut := Function.update m.handedOut cb fun i =>
            m.handedOut cb i && !(m.session.rbh cb).migRbIdx i }
  | clean {cb : Fin servers} {round : Round} {newCb : Option (Fin servers)}
      {session : ValetSession servers replicas} (waits : m.handler cb = .waitDelete round newCb)
      (cleans : ValetSession.Cleans m.session cb newCb round session) :
      Moves m (.clean cb) (m.goOn cb .waitEvict session)

variable {m} {next : Control servers replicas} {label : ControlLabel servers replicas}

/-- A step that attempts something and goes on with its result. -/
theorem ok_of_map {α : Type} {attempt : Except Halt α} {rest : α → Control servers replicas}
    (edge : attempt.toOption.map rest = some next) :
    ∃ result, attempt = .ok result ∧ rest result = next := by
  obtain ⟨result, ran, same⟩ := Option.map_eq_some_iff.mp edge
  exact ⟨result, toOption_eq_some ran, same⟩

theorem moves_of_step (edge : m.step label = some next) : Moves m label next := by
  cases label with
  | ask cb =>
      simp only [step] at edge
      split at edge
      · cases edge
        exact .ask
      · cases edge
  | getCb swapspace =>
      simp only [step] at edge
      split at edge
      · cases edge
      · rename_i busy
        have idle : m.mapper = none := by simpa using busy
        split at edge
        · rename_i unmapped
          cases edge
          exact .getFinding idle unmapped
        · rename_i mapped
          cases edge
          exact .getMapped idle mapped
  | noNodes =>
      simp only [step] at edge
      split at edge
      · rename_i selectIdx finding
        cases edge
        exact .noNodes finding
      · cases edge
  | chooseNodes replicaList =>
      simp only [step] at edge
      split at edge
      · rename_i selectIdx finding
        split at edge
        · rename_i distinct
          cases edge
          exact .chooseNodes finding distinct
        · cases edge
      · cases edge
  | mapRow =>
      simp only [step] at edge
      split at edge
      · rename_i selectIdx replicaList row waiting
        split at edge
        · rename_i arrived
          cases edge
          exact .mapRow waiting arrived
        · cases edge
      · cases edge
  | recv cb recv =>
      obtain ⟨session, ran, rfl⟩ := ok_of_map edge
      exact .recv (ValetSession.receives_of_ok ran)
  | sendDone cb =>
      cases edge
      exact .sendDone
  | takeEvict cb =>
      simp only [step] at edge
      split at edge
      · rename_i waits
        obtain ⟨⟨round, session⟩, ran, rfl⟩ := ok_of_map edge
        exact .takeEvict waits (ValetSession.takesEvict_of_ok ran)
      · cases edge
  | noDest cb =>
      simp only [step] at edge
      split at edge
      · rename_i round finding
        cases edge
        exact .noDest finding
      · cases edge
  | chooseDest cb newCb =>
      simp only [step] at edge
      split at edge
      · rename_i round finding
        obtain ⟨session, ran, rfl⟩ := ok_of_map edge
        obtain ⟨change, rfl⟩ := ValetSession.requestMigMap_ok ran
        exact .chooseDest finding
      · cases edge
  | readSlot cb =>
      simp only [step] at edge
      split at edge
      · rename_i round newCb waits
        obtain ⟨dest, ran, rfl⟩ := ok_of_map edge
        obtain ⟨arrived, rfl⟩ := ValetSession.readSlot_ok ran
        exact .readSlot waits arrived
      · cases edge
  | remap cb =>
      simp only [step] at edge
      split at edge
      · rename_i round newCb dest waits
        obtain ⟨session, ran, rfl⟩ := ok_of_map edge
        exact .remap waits (ValetSession.remaps_of_ok ran)
      · cases edge
  | copyBitmap cb =>
      simp only [step] at edge
      split at edge
      · rename_i round newCb dest remapped
        obtain ⟨session, ran, rfl⟩ := ok_of_map edge
        exact .copyBitmap remapped (ValetSession.copies_of_ok ran)
      · cases edge
  | postDelete cb =>
      simp only [step] at edge
      split at edge
      · rename_i round newCb sends
        cases edge
        exact .postDelete sends
      · cases edge
  | clean cb =>
      simp only [step] at edge
      split at edge
      · rename_i round newCb waits
        obtain ⟨session, ran, rfl⟩ := ok_of_map edge
        exact .clean waits (ValetSession.cleans_of_ok ran)
      · cases edge

def init : Control servers replicas where
  session := .init
  mapper := none
  handler := fun _ => .waitEvict
  handedOut := fun _ _ => false

end Control

end Valet.Bd
