import Valet.Bd.Control

/-!
# The states of the servers

`cb_state_list` tells which servers are connected, have blocks of the client, or
are being migrated from.  The search for servers reads it, and a server that is
picked while it is only connected gets a thread for its migrations.  Here the
control machine is run with the candidates that each search has found, the
server that it is connecting, and the threads that were started.  Searches run
side by side, so that two of them can connect one server.
-/

namespace Valet.Bd

open Valet.Wire Valet.Library

/-- `state < CB_MIGRATING`. -/
def CbState.belowMigrating : CbState → Bool
  | idle | connected | mapped => true
  | _ => false

/-- The destination that a round has. -/
def HandlerPc.newCb {servers : Nat} : HandlerPc servers → Option (Fin servers)
  | .waitEvict => none
  | .findDest _ => none
  | .waitMigMap _ newCb => some newCb
  | .waitDone _ newCb _ => some newCb
  | .copyBitmap _ newCb _ => some newCb
  | .sendDelete _ newCb => newCb
  | .waitDelete _ newCb => newCb

namespace ValetSession

variable {servers replicas : Nat} (s : ValetSession servers replicas)

/-- `control_block_init`; the free memory is left as it is. -/
def controlBlockInit (cb : Fin servers) : ValetSession servers replicas :=
  (s.modifyRbh cb fun rbh =>
    { rbh with
      blockSizeGb := 0
      remoteBlock := RemoteBlockHandler.init.remoteBlock
      remoteMapped := RemoteBlockHandler.init.remoteMapped
      rbIdxMap := RemoteBlockHandler.init.rbIdxMap
      migRbIdx := RemoteBlockHandler.init.migRbIdx
      cState := .idle }).setState cb .idle

end ValetSession

/-- The client with the candidates of the search for a mapping and of the searches for
destinations, the servers that these are connecting, and the number of `migration_handler` threads
of each server.  In `connecting` the search for a mapping is `none`. -/
structure ServerChoice (servers replicas : Nat) where
  control : Control servers replicas
  nodeCandidates : Option (Fin servers → Bool)
  destCandidates : Fin servers → Option (Fin servers → Bool)
  connecting : Option (Fin servers) → Option (Fin servers)
  threads : Fin servers → Nat

/-- The first loop of `find_the_best_node` is a step of its own.  So is what a search does for a
server that is `CB_IDLE` before and after it waits. -/
inductive ChoiceLabel (servers replicas : Nat) where
  | scanNodes
  | scanDest (cb : Fin servers)
  | connect (search : Option (Fin servers)) (cb : Fin servers)
  | established (cb : Fin servers)
  | connected (search : Option (Fin servers))
  | control (label : ControlLabel servers replicas)

namespace ServerChoice

variable {servers replicas : Nat}

/-- The servers that `find_the_best_node` considers. -/
def scan (s : ServerChoice servers replicas) (cb : Fin servers) : Bool :=
  (s.control.session.cbStateList cb).belowMigrating

/-- A server that a search is considering. -/
def IsCandidate (candidates : Option (Fin servers → Bool)) (cb : Fin servers) : Prop :=
  ∃ list, candidates = some list ∧ list cb = true

instance (candidates : Option (Fin servers → Bool)) (cb : Fin servers) :
    Decidable (IsCandidate candidates cb) :=
  match candidates with
  | none => isFalse fun ⟨_, bad, _⟩ => nomatch bad
  | some list => decidable_of_iff (list cb = true)
      ⟨fun member => ⟨list, rfl, member⟩, fun ⟨_, same, member⟩ => Option.some.inj same ▸ member⟩

def candidates (s : ServerChoice servers replicas) :
    Option (Fin servers) → Option (Fin servers → Bool)
  | none => s.nodeCandidates
  | some cb => s.destCandidates cb

/-- The search is at this server. -/
def Considers (s : ServerChoice servers replicas) (search : Option (Fin servers))
    (cb : Fin servers) : Prop :=
  s.connecting search = none ∧ IsCandidate (s.candidates search) cb

instance (s : ServerChoice servers replicas) (search : Option (Fin servers)) (cb : Fin servers) :
    Decidable (s.Considers search cb) :=
  inferInstanceAs (Decidable (_ ∧ _))

/-- `state > CB_IDLE`. -/
def Used (s : ServerChoice servers replicas) (cb : Fin servers) : Prop :=
  s.control.session.cbStateList cb ≠ .idle

instance (s : ServerChoice servers replicas) (cb : Fin servers) : Decidable (s.Used cb) :=
  inferInstanceAs (Decidable (_ ≠ _))

/-- What the searches and the threads allow the client to do. -/
def Allows (s : ServerChoice servers replicas) : ControlLabel servers replicas → Prop
  | .ask cb => s.Used cb ∧ (s.Considers none cb ∨ ∃ old, s.Considers (some old) cb)
  | .noNodes => s.nodeCandidates.isSome = true ∧ s.connecting none = none
  | .chooseNodes replicaList =>
      ∀ row, s.Used (replicaList row) ∧ s.Considers none (replicaList row)
  | .noDest cb => (s.destCandidates cb).isSome = true ∧ s.connecting (some cb) = none
  | .chooseDest cb newCb => s.Used newCb ∧ s.Considers (some cb) newCb
  | .takeEvict cb => 0 < s.threads cb
  | _ => True

instance (s : ServerChoice servers replicas) (label : ControlLabel servers replicas) :
    Decidable (s.Allows label) := by
  apply @ControlLabel.casesOn _ _ (fun label => Decidable (s.Allows label)) label <;> intros <;>
    unfold Allows <;> infer_instance

/-- The server for which the step may call `post_setup_connection`. -/
def picks (s : ServerChoice servers replicas) :
    ControlLabel servers replicas → Option (Fin servers)
  | .chooseNodes replicaList => some (replicaList 0)
  | .mapRow =>
      match s.control.mapper with
      | some (.waiting _ replicaList row) =>
          if more : row.val + 1 < replicas + 1 then some (replicaList ⟨row.val + 1, more⟩) else none
      | _ => none
  | .chooseDest _ newCb => some newCb
  | _ => none

/-- `post_setup_connection` starts a thread for a server that is only connected. -/
def postSetupConnection (threads : Fin servers → Nat) (session : ValetSession servers replicas) :
    Option (Fin servers) → Fin servers → Nat
  | none => threads
  | some cb =>
      if session.cbStateList cb = .connected then Function.update threads cb (threads cb + 1)
      else threads

/-- A search ends with its choice. -/
def nodesAfter (s : ServerChoice servers replicas) :
    ControlLabel servers replicas → Option (Fin servers → Bool)
  | .noNodes | .chooseNodes _ => none
  | _ => s.nodeCandidates

def destsAfter (s : ServerChoice servers replicas) :
    ControlLabel servers replicas → Fin servers → Option (Fin servers → Bool)
  | .noDest cb | .chooseDest cb _ => Function.update s.destCandidates cb none
  | _ => s.destCandidates

/-- Some search is connecting the server. -/
def IsConnecting (s : ServerChoice servers replicas) (cb : Fin servers) : Prop :=
  s.connecting none = some cb ∨ ∃ old, s.connecting (some old) = some cb

instance (s : ServerChoice servers replicas) (cb : Fin servers) : Decidable (s.IsConnecting cb) :=
  inferInstanceAs (Decidable (_ ∨ _))

def withSession (s : ServerChoice servers replicas) (session : ValetSession servers replicas) :
    ServerChoice servers replicas :=
  { s with control := { s.control with session := session } }

def step (s : ServerChoice servers replicas) :
    ChoiceLabel servers replicas → Option (ServerChoice servers replicas)
  | .scanNodes =>
      match s.control.mapper, s.nodeCandidates with
      | some (.finding _), none => some { s with nodeCandidates := some s.scan }
      | _, _ => none
  | .scanDest cb =>
      match s.control.handler cb, s.destCandidates cb with
      | .findDest _, none =>
          some { s with destCandidates := Function.update s.destCandidates cb (some s.scan) }
      | _, _ => none
  | .connect search cb =>
      if s.Considers search cb ∧ s.control.session.cbStateList cb = .idle then
        some { s.withSession (s.control.session.controlBlockInit cb) with
          connecting := Function.update s.connecting search (some cb) }
      else
        none
  | .established cb =>
      -- `RDMA_CM_EVENT_ESTABLISHED`; up to here the connection takes no message
      if s.IsConnecting cb then some (s.withSession (s.control.session.setState cb .connected))
      else none
  | .connected search =>
      match s.connecting search with
      | some cb =>
          if (s.control.session.cbList cb).state = .recvQueryRepl then
            some { s.withSession (s.control.session.setCbState cb .connected) with
              connecting := Function.update s.connecting search none }
          else
            none
      | none => none
  | .control label =>
      if s.Allows label then
        (s.control.step label).map fun control =>
          { control := control
            nodeCandidates := s.nodesAfter label
            destCandidates := s.destsAfter label
            connecting := s.connecting
            threads := postSetupConnection s.threads control.session (s.picks label) }
      else
        none

def init : ServerChoice servers replicas where
  control := .init
  nodeCandidates := none
  destCandidates := fun _ => none
  connecting := fun _ => none
  threads := fun _ => 0

/-- A server is `CB_MIGRATING` just during its rounds, and `find_the_best_node` considers it at all
other times; no round has its own server for destination; a server that is only connected has no
mapped block; and no server has two threads. -/
structure TellsTruth (s : ServerChoice servers replicas) : Prop where
  migrating : ∀ cb, s.control.session.cbStateList cb = .migrating ↔
    (s.control.handler cb).round.isSome = true
  considered : ∀ cb, s.scan cb = true ↔ (s.control.handler cb).round = none
  destination : ∀ cb, (s.control.handler cb).newCb ≠ some cb
  unmapped : ∀ cb, s.control.session.cbStateList cb = .connected →
    ∀ i, (s.control.session.rbh cb).remoteMapped i = false
  oneThread : ∀ cb, s.threads cb ≤ 1

end ServerChoice

end Valet.Bd
