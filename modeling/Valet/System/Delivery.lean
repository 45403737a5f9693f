import Valet.System.Agreement

/-!
# Messages that arrive

The places that a request to map names come back in its reply, and a client
gives back what it has only.  So no message of a client stops a server, and no
message of a server stops a client.
-/

namespace Valet.Bd

open Valet.Wire Valet.Library Valet.Daemon

/-- The message names a row and a swapspace. -/
structure Places (replicas : Nat) (msg : Message) : Prop where
  row : ∃ row : Fin (replicas + 1), msg.replicaIndex = row.val
  swapspace : ∃ swapspace : Swapspace, msg.sizeGb = swapspace.val

/-- The requests of a client. -/
def Request.Valid (replicas : Nat) : Request → Prop
  | .connect => True
  | .message msg => (msg.type = .reqQuery ∨ msg.type = .reqMrMap ∨ msg.type = .reqMigMap ∨
      msg.type = .deleteRb) ∧ (msg.type = .reqMrMap → Places replicas msg)

def Received.Valid (replicas : Nat) : Received → Prop
  | .query _ => True
  | .message msg => msg.type = .respMrMap → Places replicas msg

theorem Request.valid_of_type {replicas : Nat} {msg : Message}
    (asks : msg.type = .reqQuery ∨ msg.type = .reqMigMap ∨ msg.type = .deleteRb) :
    (Request.message msg).Valid replicas := by
  refine ⟨by tauto, fun map => ?_⟩
  rw [map] at asks
  rcases asks with ⟨⟨⟩⟩ | ⟨⟨⟩⟩ | ⟨⟨⟩⟩

namespace ValetSession

variable {servers replicas : Nat} (s : ValetSession servers replicas)

theorem valid_query (cb : Fin servers) : (s.query cb).Valid replicas := by
  unfold query
  split
  · exact trivial
  · rename_i connected
    have type : ((s.queried cb).cbList cb).sendBuf.type = .reqQuery := by
      simp [queried, connected, modifySendBuf, setCb, setState]
    exact Request.valid_of_type (Or.inl type)

theorem valid_requestMrMap (cb : Fin servers) (row : Fin (replicas + 1)) (selectIdx : Swapspace) :
    (Request.message ((s.requestMrMap cb row selectIdx).cbList cb).sendBuf).Valid replicas := by
  have type := type_requestMrMap s cb row selectIdx
  refine ⟨Or.inr (Or.inl type), fun _ => ⟨⟨row, ?_⟩, ⟨selectIdx, ?_⟩⟩⟩
  · simp [requestMrMap, modifySendBuf, setCb]
  · simp [requestMrMap, modifySendBuf, setCb]

/-- A message that names its places is taken in. -/
theorem recvDone_ok {cb : Fin servers} {recv : Received} (valid : recv.Valid replicas) :
    ∃ next, s.recvDone cb recv = .ok next := by
  unfold recvDone
  split
  · exact ⟨s, rfl⟩
  · have handled : ∃ result, s.recvMsgHandler cb recv = .ok result := by
      unfold recvMsgHandler
      split
      · exact ⟨none, rfl⟩
      · cases recv with
        | query qmsg => exact ⟨_, rfl⟩
        | message msg =>
            cases type : msg.type with
            | respMrMap =>
                obtain ⟨⟨row, isRow⟩, ⟨swapspace, isSwapspace⟩⟩ := valid type
                dsimp only
                rw [type]
                unfold valetRemoteBlockInit
                cases msg.firstRkey with
                | none => exact ⟨_, rfl⟩
                | some i =>
                    dsimp only
                    rw [index_eq_ok.mpr isRow, index_eq_ok.mpr isSwapspace]
                    exact ⟨_, rfl⟩
            | done | respMigMap | reqQuery | respQuery | evict | reqMrMap | reqMigMap
            | reqMigration | doneMigration | deleteRb =>
                dsimp only
                rw [type]
                exact ⟨_, rfl⟩
    obtain ⟨result, ran⟩ := handled
    rw [ran]
    cases result with
    | none => exact ⟨_, rfl⟩
    | some next => exact ⟨_, rfl⟩

end ValetSession

namespace Control

open ValetSession

variable {servers replicas : Nat} {m next : Control servers replicas}

/-- What a client posts names its places. -/
theorem posts_valid {label : ControlLabel servers replicas} (edge : m.step label = some next) :
    ∀ post ∈ m.posts next label, post.2.Valid replicas := by
  intro post member
  cases moves_of_step edge with
  | @ask at_ =>
      rw [List.mem_singleton.mp member]
      exact valid_query m.session at_
  | @chooseNodes selectIdx replicaList finding distinct =>
      rcases List.mem_append.mp member with queries | last
      · obtain ⟨to_, _, rfl⟩ := List.mem_map.mp queries
        exact valid_query m.session to_
      · rw [List.mem_singleton.mp last]
        exact valid_requestMrMap _ _ _ _
  | @mapRow selectIdx replicaList row waiting arrived =>
      by_cases more : row.val + 1 < replicas + 1
      · simp only [Control.posts, Control.mapRow, dif_pos more] at member
        rw [List.mem_singleton.mp member]
        exact valid_requestMrMap _ _ _ _
      · simp only [Control.posts, Control.mapRow, dif_neg more] at member
        cases member
  | @chooseDest at_ newCb round change finding =>
      rcases List.mem_cons.mp member with first | last
      · rw [first]
        exact valid_query m.session newCb
      · rw [List.mem_singleton.mp last]
        exact Request.valid_of_type (Or.inr (Or.inl (type_chooseDest edge)))
  | @postDelete at_ round newCb sends =>
      rw [List.mem_singleton.mp member]
      have type : ((m.session.sendDeleteRb at_).cbList at_).sendBuf.type = .deleteRb := by
        simp [sendDeleteRb, modifySendBuf, setCb]
      apply Request.valid_of_type
      dsimp only
      rw [session_goOn]
      exact Or.inr (Or.inr type)
  | getFinding | getMapped | noNodes | recv | sendDone | takeEvict | noDest | readSlot | remap
  | copyBitmap | clean => cases member

end Control

end Valet.Bd

namespace Valet.Daemon.Session

open Valet.Wire Valet.Library

variable {s : Session} {client : Nat} {msg : Message}

/-- A request of a client that deletes only what it has is answered. -/
theorem handleRecv_ok (lends : s.Lends) (mr : IbvMr) (stamps : Region → Timeval)
    (asks : msg.type = .reqQuery ∨ msg.type = .reqMrMap ∨ msg.type = .reqMigMap ∨
      msg.type = .deleteRb)
    (own : msg.type = .deleteRb → ∀ i, msg.firstRkey = some i → s.mrh.cbIndexMap i = some client) :
    ∃ next, s.handleRecv client msg mr stamps = .ok next := by
  unfold handleRecv
  cases type : msg.type with
  | deleteRb =>
      dsimp only
      unfold recvDeleteRb
      cases first : msg.firstRkey with
      | none => exact ⟨_, rfl⟩
      | some i =>
          have has := (lends.owners client i).mp (own type i first)
          dsimp only
          rw [has]
          exact ⟨_, rfl⟩
  | done | respMrMap | respMigMap | reqQuery | respQuery | evict | reqMrMap | reqMigMap
  | doneMigration => exact ⟨_, rfl⟩
  | reqMigration =>
      rw [type] at asks
      rcases asks with ⟨⟨⟩⟩ | ⟨⟨⟩⟩ | ⟨⟨⟩⟩ | ⟨⟨⟩⟩

end Valet.Daemon.Session

namespace Valet.System

open Valet.Wire Valet.Library Valet.Bd Valet.Daemon

namespace Cluster

variable {clients servers replicas : Nat} {slot : Fin servers → Fin clients ↪ Nat}
  {weigh : Int → Int → Int} {s next : Cluster clients servers replicas}

/-- The messages on their way name their places. -/
structure Valid (s : Cluster clients servers replicas) : Prop where
  replies : ∀ c cb, ∀ recv ∈ s.toClient c cb, recv.Valid replicas
  requests : ∀ c cb, ∀ request ∈ s.toDaemon c cb, request.Valid replicas

/-- A server answers with what it was asked for. -/
theorem Valid.serves (slot : Fin servers → Fin clients ↪ Nat) {cb : Fin servers}
    {label : ServerLabel} {posts : List (Nat × Post)} {moved : Session}
    (rest : Fin clients → List Request) (valid : s.Valid)
    (serves : Session.Serves (s.daemon cb) label moved posts)
    (asked : ∀ c msg mr stamps, label = .daemon (.recv (slot cb c) msg mr stamps) →
      .message msg ∈ s.toDaemon c cb)
    (fewer : ∀ c, ∀ request ∈ rest c, request ∈ s.toDaemon c cb)
    (isNext : next = { s with
      toDaemon := fun c => Function.update (s.toDaemon c) cb (rest c) }.moveDaemon slot cb moved) :
    next.Valid := by
  have posted : moved.sent.drop (s.daemon cb).sent.length = posts := by
    rw [serves.sent, List.drop_left]
  refine ⟨fun c cb' recv member => ?_, fun c cb' request member => ?_⟩
  · rw [isNext] at member
    unfold moveDaemon at member
    dsimp only at member
    rw [posted] at member
    rcases eq_or_ne cb' cb with rfl | elsewhere
    · rw [Function.update_self] at member
      rcases List.mem_append.mp member with before | new
      · exact valid.replies c cb' recv before
      · obtain ⟨post, isPost, made⟩ := List.mem_filterMap.mp new
        cases post with
        | message reply =>
            cases made
            intro type
            obtain ⟨msg, mr, stamps, isLabel, map, size, replica⟩ :=
              serves.echoes _ reply (mem_addressed.mp isPost) type
            have places := (valid.requests c cb' _ (asked c msg mr stamps isLabel)).2 map
            exact ⟨replica ▸ places.row, size ▸ places.swapspace⟩
        | query qmsg =>
            cases made
            exact trivial
        | write rkey addr localRbIndex => cases made
    · rw [Function.update_of_ne elsewhere] at member
      exact valid.replies c cb' recv member
  · rw [isNext] at member
    unfold moveDaemon at member
    dsimp only at member
    rcases eq_or_ne cb' cb with rfl | elsewhere
    · rw [Function.update_self] at member
      exact valid.requests c cb' request (fewer c request member)
    · rw [Function.update_of_ne elsewhere] at member
      exact valid.requests c cb' request member

theorem Valid.step {label : ClusterLabel clients servers replicas} (valid : s.Valid)
    (sound : s.Sound slot) (registers : Registers s label)
    (edge : Cluster.step slot weigh s label = some next) : next.Valid := by
  cases label with
  | act c label =>
      simp only [Cluster.step] at edge
      split at edge
      · cases edge
      · obtain ⟨moved, ran, rfl⟩ := Option.map_eq_some_iff.mp edge
        refine ⟨valid.replies, fun other cb request member => ?_⟩
        unfold moveClient at member
        dsimp only at member
        rcases eq_or_ne other c with rfl | different
        · rw [Function.update_self] at member
          rcases List.mem_append.mp member with before | new
          · exact valid.requests other cb request before
          · exact Control.posts_valid ran _ (mem_addressed.mp new)
        · rw [Function.update_of_ne different] at member
          exact valid.requests other cb request member
  | deliver c cb =>
      simp only [Cluster.step] at edge
      split at edge
      · cases edge
      · rename_i recv rest first
        obtain ⟨moved, ran, rfl⟩ := Option.map_eq_some_iff.mp edge
        refine ⟨fun c' cb' other member => ?_, valid.requests⟩
        dsimp only at member
        rcases eq_or_ne c' c with rfl | different
        · rw [Function.update_self] at member
          rcases eq_or_ne cb' cb with rfl | elsewhere
          · rw [Function.update_self] at member
            apply valid.replies c' cb'
            rw [first]
            exact List.mem_cons_of_mem _ member
          · rw [Function.update_of_ne elsewhere] at member
            exact valid.replies c' cb' other member
        · rw [Function.update_of_ne different] at member
          exact valid.replies c' cb' other member
  | serve c cb mr stamps =>
      simp only [Cluster.step] at edge
      split at edge
      · cases edge
      · rename_i request rest first
        obtain ⟨moved, ran, isNext⟩ := Option.map_eq_some_iff.mp edge
        have fresh : (handle (slot cb c) mr stamps request).Registers := by
          cases request with
          | connect => exact trivial
          | message msg => exact registers
        obtain ⟨posts, serves⟩ := (sound.lends cb).serves fresh ran
        refine Valid.serves slot (fun other => if other = c then rest else s.toDaemon other cb) valid
          serves ?_ (fun other request' member => ?_) ?_
        · intro other msg key ages isLabel
          cases request with
          | connect => cases isLabel
          | message asked =>
              have same := isLabel
              simp only [handle, ServerLabel.daemon.injEq, DaemonLabel.recv.injEq] at same
              have here : c = other := (slot cb).injective same.1
              subst here
              rw [first, same.2.1]
              exact List.mem_cons_self
        · rcases eq_or_ne other c with rfl | different
          · rw [if_pos rfl] at member
            rw [first]
            exact List.mem_cons_of_mem _ member
          · rw [if_neg different] at member
            exact member
        · rw [← isNext]
          congr
          funext other
          rcases eq_or_ne other c with rfl | different
          · rw [Function.update_self, if_pos rfl]
          · rw [Function.update_of_ne different, if_neg different, Function.update_eq_self]
  | turn cb label =>
      simp only [Cluster.step] at edge
      split at edge
      · rename_i outside
        obtain ⟨moved, ran, isNext⟩ := Option.map_eq_some_iff.mp edge
        obtain ⟨posts, serves⟩ := (sound.lends cb).serves registers ran
        refine Valid.serves slot (fun c => s.toDaemon c cb) valid serves ?_ (fun _ _ => id) ?_
        · rintro c msg mr stamps rfl
          exact absurd rfl (outside (slot cb c) rfl c)
        · rw [← isNext]
          simp only [Function.update_eq_self]
      · cases edge

/-- Every message on its way is one that its receiver has a branch for; the places that a reply
names are in the tables, a region that is given back is mapped to its sender, and no message stops
its receiver. -/
structure Delivers (slot : Fin servers → Fin clients ↪ Nat) (weigh : Int → Int → Int)
    (s : Cluster clients servers replicas) : Prop where
  replies : ∀ c cb msg, .message msg ∈ s.toClient c cb → ValetSession.known msg.type = true ∧
    (msg.type = .respMrMap → Places replicas msg)
  requests : ∀ c cb msg, .message msg ∈ s.toDaemon c cb →
    (msg.type = .reqQuery ∨ msg.type = .reqMrMap ∨ msg.type = .reqMigMap ∨ msg.type = .deleteRb) ∧
      (msg.type = .deleteRb → ∀ i, msg.firstRkey = some i →
        (s.daemon cb).mrh.cbIndexMap i = some (slot cb c))
  toClient : ∀ c cb, s.toClient c cb ≠ [] → ∃ next,
    Cluster.step slot weigh s (.deliver c cb) = some next
  toDaemon : ∀ c cb mr stamps, s.toDaemon c cb ≠ [] → ∃ next,
    Cluster.step slot weigh s (.serve c cb mr stamps) = some next

theorem Sound.delivers (sound : s.Sound slot) (valid : s.Valid) : s.Delivers slot weigh where
  replies := by
    intro c cb msg member
    have clear : Daemon.Clear msg := sound.clear c cb (.message msg) member
    refine ⟨?_, valid.replies c cb (.message msg) member⟩
    rcases clear.spoken with type | type | type | type
    · rw [type]
      rfl
    · rw [type]
      rfl
    · rw [type]
      rfl
    · rw [type]
      rfl
  requests := by
    intro c cb msg member
    refine ⟨(valid.requests c cb (.message msg) member).1, fun type i named => ?_⟩
    exact (sound.agrees.returned c cb msg i member type named).2
  toClient := by
    intro c cb some_
    obtain ⟨recv, rest, first⟩ := List.exists_cons_of_ne_nil some_
    have names := valid.replies c cb recv (by rw [first]; exact List.mem_cons_self)
    obtain ⟨session, ran⟩ := (s.client c).session.recvDone_ok names
    simp only [Cluster.step, first, Control.step]
    rw [ran]
    exact ⟨_, rfl⟩
  toDaemon := by
    intro c cb mr stamps some_
    obtain ⟨request, rest, first⟩ := List.exists_cons_of_ne_nil some_
    have here : request ∈ s.toDaemon c cb := by
      rw [first]
      exact List.mem_cons_self
    simp only [Cluster.step, first]
    cases request with
    | connect => exact ⟨_, rfl⟩
    | message msg =>
        obtain ⟨next, ran⟩ := Session.handleRecv_ok (sound.lends cb) mr stamps
          (valid.requests c cb _ here).1 fun type i named =>
            (sound.agrees.returned c cb msg i here type named).2
        simp only [handle, Session.serverStep, Session.step]
        rw [ran]
        exact ⟨_, rfl⟩

variable {mrList : Fin servers → Region → IbvMr} {freeMemG lastFreeMemG : Fin servers → Int}
  {labels : List (ClusterLabel clients servers replicas)}

/-- What every state of every run is. -/
structure Steady (slot : Fin servers → Fin clients ↪ Nat)
    (s : Cluster clients servers replicas) : Prop where
  sound : s.Sound slot
  valid : s.Valid

theorem Steady.step {label : ClusterLabel clients servers replicas} (steady : s.Steady slot)
    (registers : Registers s label) (edge : Cluster.step slot weigh s label = some next) :
    next.Steady slot where
  sound := (steady.sound.step registers edge).1
  valid := steady.valid.step steady.sound registers edge

theorem steady_init (mrList : Fin servers → Region → IbvMr)
    (freeMemG lastFreeMemG : Fin servers → Int) :
    (init mrList freeMemG lastFreeMemG : Cluster clients servers replicas).Steady slot where
  sound := sound_init mrList freeMemG lastFreeMemG
  valid := ⟨fun _ _ _ member => absurd member List.not_mem_nil,
    fun _ _ _ member => absurd member List.not_mem_nil⟩

/-- In every order of steps, no message stops the one it goes to. -/
theorem delivers_of_run
    (run : Run (Cluster.step slot weigh) Registers (init mrList freeMemG lastFreeMemG) labels s) :
    s.Delivers slot weigh := by
  have steady : s.Steady slot := run.preserves (fun steady registers edge =>
    Steady.step steady registers edge) (steady_init mrList freeMemG lastFreeMemG)
  exact steady.sound.delivers steady.valid

/-- Until the first reply to the second client. -/
theorem delivers_of_run_relending : ∃ last : Cluster 2 2 0,
    exec (Cluster.step numbered Session.weighInt) twoServers (relending.take 11) = some last ∧
      last.toClient 1 0 ≠ [] ∧ last.Delivers numbered Session.weighInt := by
  have ran : ((exec (guardedStep (Cluster.step numbered Session.weighInt) Registers) twoServers
      (relending.take 11)).map fun last => (last.toClient 1 0).isEmpty) = some false := by
    decide +kernel
  obtain ⟨last, guarded, waiting⟩ := Option.map_eq_some_iff.mp ran
  have run := run_of_guarded guarded
  exact ⟨last, run.exec_eq, List.isEmpty_eq_false_iff.mp waiting, delivers_of_run run⟩

end Cluster

end Valet.System
