import Valet.Bd.ServerChoice
import Valet.Bd.Aliasing

/-!
# When the states of the servers tell the truth

The state of a server is wrong after a round without a destination, when a map
reply comes during a round of its server, when a server that is only connected
is given a block by a migration, and when a search stores `CB_CONNECTED` for a
server that another search has put to use since the first found it idle.  A
server that is only connected gets a second thread when it is picked again.  In
the runs without these steps, and in no others, the states tell the truth
throughout.
-/

namespace Valet.Bd

open Valet.Wire Valet.Library

variable {servers replicas : Nat}

namespace ValetSession

variable {s middle next : ValetSession servers replicas} {cb other : Fin servers}

/-- The server keeps its state and gets no block. -/
structure Calm (s next : ValetSession servers replicas) (cb : Fin servers) : Prop where
  mapped : ∀ i, (next.rbh cb).remoteMapped i = true → (s.rbh cb).remoteMapped i = true
  state : next.cbStateList cb = s.cbStateList cb

theorem Calm.refl : Calm s s cb := ⟨fun _ => id, rfl⟩

theorem Calm.trans (first : Calm s middle cb) (second : Calm middle next cb) : Calm s next cb :=
  ⟨fun i mapped => first.mapped i (second.mapped i mapped), second.state.trans first.state⟩

/-- Changes that the states of the servers do not show. -/
theorem calm_of_same (states : next.cbStateList = s.cbStateList)
    (mapped : (next.rbh cb).remoteMapped = (s.rbh cb).remoteMapped) : Calm s next cb :=
  ⟨fun i => by rw [mapped]; exact id, by rw [states]⟩

theorem remoteMapped_modifyRbh {change : RemoteBlockHandler → RemoteBlockHandler}
    (keeps : (change (s.rbh cb)).remoteMapped = (s.rbh cb).remoteMapped) :
    ((s.modifyRbh cb change).rbh other).remoteMapped = (s.rbh other).remoteMapped := by
  rcases eq_or_ne other cb with rfl | different
  · rw [rbh_modifyRbh, keeps]
  · rw [rbh_modifyRbh_of_ne _ different]

theorem calm_modifyRbh {change : RemoteBlockHandler → RemoteBlockHandler}
    (keeps : (change (s.rbh cb)).remoteMapped = (s.rbh cb).remoteMapped) :
    Calm s (s.modifyRbh cb change) other :=
  calm_of_same rfl (remoteMapped_modifyRbh keeps)

theorem calm_setState {state : TestState} : Calm s (s.setState cb state) other :=
  calm_of_same rfl (by rw [rbh_setState])

theorem calm_modifySendBuf {change : Message → Message} :
    Calm s (s.modifySendBuf cb change) other :=
  calm_of_same rfl (by rw [rbh_modifySendBuf])

/-- The entries of the other servers stay. -/
theorem calm_setCbState_of_ne {state : CbState} (different : other ≠ cb) :
    Calm s (s.setCbState cb state) other :=
  ⟨fun _ => id, Function.update_of_ne different _ _⟩

theorem calm_controlBlockInit : Calm s (s.controlBlockInit cb) other := by
  unfold controlBlockInit
  refine Calm.trans ?_ calm_setState
  refine ⟨fun i => ?_, rfl⟩
  rcases eq_or_ne other cb with rfl | different
  · rw [rbh_modifyRbh]
    rintro ⟨⟩
  · rw [rbh_modifyRbh_of_ne _ different]
    exact id

theorem calm_sendDeleteRb : Calm s (s.sendDeleteRb cb) other := by
  unfold sendDeleteRb
  exact calm_modifySendBuf

theorem calm_queried (used : s.cbStateList cb ≠ .idle) : Calm s (s.queried cb) other :=
  calm_of_same (cbStateList_queried s used) (by rw [rbh_queried])

theorem calm_foldl_queried {cbs : List (Fin servers)}
    (used : ∀ cb ∈ cbs, s.cbStateList cb ≠ .idle) : Calm s (cbs.foldl queried s) other := by
  induction cbs generalizing s with
  | nil => exact .refl
  | cons first rest ih =>
      have usedFirst := used first List.mem_cons_self
      refine (calm_queried usedFirst).trans (ih fun cb member => ?_)
      rw [cbStateList_queried s usedFirst]
      exact used cb (List.mem_cons_of_mem _ member)

theorem calm_requestMrMap {row : Fin (replicas + 1)} {selectIdx : Swapspace} :
    Calm s (s.requestMrMap cb row selectIdx) other := by
  have counted : Calm s { s with mappedCbNum := s.mappedCbNum + 1 } other := ⟨fun _ => id, rfl⟩
  exact counted.trans calm_modifySendBuf

theorem calm_sendDone : Calm s (s.sendDone cb) other := by
  unfold sendDone
  split
  · exact .refl
  · split
    · exact calm_setState
    · split
      · exact calm_modifyRbh rfl
      · exact .refl

/-! ## The pieces of a round -/

variable {oldCb newCb : Fin servers} {round : Round} {dest : Dest}

theorem Remaps.calm (remaps : Remaps s oldCb newCb round dest next) : Calm s next other := by
  cases remaps with
  | @moved swapspace done isSwapspace =>
      have maps : Calm s ((s.setCbIndex 0 swapspace dest.cbIndex).setRb 0 swapspace dest.rbIndex)
          other := calm_of_same rfl rfl
      exact maps.trans (calm_modifyRbh rfl)

theorem Copies.calm (copies : Copies s oldCb newCb round dest next) : Calm s next other := by
  cases copies with
  | copied => exact calm_modifyRbh rfl

theorem TakesEvict.calm {src : Fin servers} (takes : TakesEvict s oldCb round next)
    (isSrc : (s.rbh oldCb).srcCbIndex = src.val) :
    next.cbStateList src = .migrating ∧ (∀ other, other ≠ src → Calm s next other) ∧
      ∀ other i, (next.rbh other).remoteMapped i = (s.rbh other).remoteMapped i := by
  cases takes with
  | @taken named swapspace rb evict isNamed isSwapspace isRb =>
      have same : named = src := Fin.ext (Int.ofNat.inj (isNamed.symm.trans isSrc))
      subst same
      refine ⟨Function.update_self .., ?_, ?_⟩
      · intro other different
        exact (calm_setCbState_of_ne different).trans (calm_modifyRbh rfl)
      · intro other i
        rw [remoteMapped_modifyRbh rfl]
        rfl

theorem calm_clearNew {newCb : Option (Fin servers)} : Calm s (s.clearNew newCb) other := by
  cases newCb with
  | none => exact .refl
  | some newCb =>
      unfold clearNew
      exact calm_modifyRbh rfl

theorem Resets.calm {newCb : Option (Fin servers)} {replicaIndex clientEvictRbIndex : Int}
    (resets : Resets s oldCb newCb replicaIndex clientEvictRbIndex next) : Calm s next other := by
  cases resets with
  | unmarked => exact calm_clearNew
  | @cleared i row swapspace marked isRow isSwapspace =>
      have clears : Calm s (s.modifyRbh oldCb RemoteBlockHandler.clearMarked) other := by
        refine ⟨fun i => ?_, rfl⟩
        rcases eq_or_ne other oldCb with rfl | different
        · rw [rbh_modifyRbh]
          intro mapped
          exact (Bool.and_eq_true_iff.mp mapped).1
        · rw [rbh_modifyRbh_of_ne _ different]
          exact id
      have unmaps : Calm (s.modifyRbh oldCb RemoteBlockHandler.clearMarked)
          ((s.modifyRbh oldCb RemoteBlockHandler.clearMarked).setCbIndex row swapspace
            noCbMapped) other := calm_of_same rfl rfl
      exact (clears.trans unmaps).trans calm_clearNew

/-- The end of a round: with a destination the source has its state again. -/
theorem Cleans.calm {newCb : Option (Fin servers)} {src : Fin servers}
    (cleans : Cleans s oldCb newCb round next) (isSrc : round.srcCbIndex = src.val) :
    (newCb = none → ∀ other, Calm s next other) ∧
      (newCb ≠ none → next.cbStateList src = .mapped ∧ ∀ other, other ≠ src → Calm s next other) := by
  cases cleans with
  | @cleaned middle named swapspace rb deleted resets isNamed isSwapspace isRb =>
      have same : named = src := Fin.ext (Int.ofNat.inj (isNamed.symm.trans isSrc))
      subst same
      cases newCb with
      | none => exact ⟨fun _ other => resets.calm.trans (calm_modifyRbh rfl), fun bad => absurd rfl bad⟩
      | some new =>
          refine ⟨nofun, fun _ => ⟨Function.update_self .., ?_⟩⟩
          intro other different
          exact resets.calm.trans ((calm_setCbState_of_ne different).trans (calm_modifyRbh rfl))

/-- What a message does to the states of the servers. -/
inductive Serves (s : ValetSession servers replicas) (cb : Fin servers) :
    Received → ValetSession servers replicas → Prop where
  | calm {recv : Received} {next : ValetSession servers replicas}
      (all : ∀ other, Calm s next other) : Serves s cb recv next
  | mapped {msg : Message} {next : ValetSession servers replicas} (alive : s.Alive cb)
      (type : msg.type = .respMrMap) (state : next.cbStateList cb = .mapped)
      (others : ∀ other, other ≠ cb → Calm s next other) : Serves s cb (.message msg) next
  | migMapped {msg : Message} {next : ValetSession servers replicas} (alive : s.Alive cb)
      (type : msg.type = .respMigMap) (state : next.cbStateList cb = s.cbStateList cb)
      (blocks : ∀ i, (next.rbh cb).remoteMapped i =
        (msg.rkey i != 0 || (s.rbh cb).remoteMapped i))
      (others : ∀ other, other ≠ cb → Calm s next other) : Serves s cb (.message msg) next

theorem Receives.serves {recv : Received} (receives : Receives s cb recv next) :
    Serves s cb recv next := by
  cases receives with
  | ignored => exact .calm fun _ => .refl
  | refused => exact .calm fun _ => calm_setState
  | @query qmsg alive =>
      refine .calm fun other => ?_
      have table : Calm s (s.modifyRbh cb fun rbh =>
          { rbh with targetSizeGb := qmsg.sizeGb, sum := qmsg.sum }) other := calm_modifyRbh rfl
      exact table.trans calm_setState
  | migMap alive type =>
      refine .migMapped alive type rfl ?_ ?_
      · intro i
        rw [rbh_modifyRbh, rbh_setState]
        rfl
      · intro other different
        have answers : Calm s (s.setState cb .recvMigMap) other := calm_setState
        refine answers.trans (calm_of_same rfl ?_)
        rw [rbh_modifyRbh_of_ne _ different]
  | @mrMap msg next alive type inits =>
      have answers (other : Fin servers) (different : other ≠ cb) :
          Calm s ((s.setCbState cb .mapped).setState cb .recvMrMap) other :=
        (calm_setCbState_of_ne different).trans calm_setState
      cases inits with
      | nothing => exact .mapped alive type (Function.update_self ..) answers
      | @mapped i row select first isRow isSelect =>
          refine .mapped alive type (Function.update_self ..) ?_
          intro other different
          refine (answers other different).trans ?_
          refine calm_of_same rfl ?_
          rw [rbh_setCbIndex, rbh_setRb, rbh_modifyRbh_of_ne _ different]
  | done alive type =>
      exact .calm fun other => calm_setState.trans (calm_modifyRbh rfl)
  | evict alive type =>
      exact .calm fun other => calm_setState.trans (calm_modifyRbh rfl)

/-- What a reply that is taken does to its server. -/
theorem Receives.answered {msg : Message} (receives : Receives s cb (.message msg) next)
    (alive : s.Alive cb) :
    (msg.type = .respMrMap → next.cbStateList cb = .mapped) ∧
      (msg.type = .respMigMap → next.cbStateList cb = s.cbStateList cb ∧
        ∀ i, msg.rkey i ≠ 0 → (next.rbh cb).remoteMapped i = true) := by
  cases receives with
  | ignored error => exact absurd error alive.1
  | refused reason =>
      exact ⟨fun type => absurd reason (alive.accepts (by rw [type]; rfl)),
        fun type => absurd reason (alive.accepts (by rw [type]; rfl))⟩
  | migMap _ type =>
      refine ⟨fun other => (nomatch type.symm.trans other), fun _ => ⟨rfl, ?_⟩⟩
      intro i key
      rw [rbh_modifyRbh, rbh_setState]
      exact Bool.or_eq_true_iff.mpr (Or.inl (bne_iff_ne.mpr key))
  | mrMap _ type inits =>
      refine ⟨fun _ => ?_, fun other => (nomatch type.symm.trans other)⟩
      cases inits with
      | nothing => exact Function.update_self ..
      | mapped => exact Function.update_self ..
  | done _ type =>
      exact ⟨fun other => (nomatch type.symm.trans other),
        fun other => (nomatch type.symm.trans other)⟩
  | evict _ type =>
      exact ⟨fun other => (nomatch type.symm.trans other),
        fun other => (nomatch type.symm.trans other)⟩

end ValetSession

namespace Control

variable {m : Control servers replicas} {cb : Fin servers}

theorem calm_chooseNodes {selectIdx : Swapspace} {replicaList : Fin (replicas + 1) → Fin servers}
    (used : ∀ row, m.session.cbStateList (replicaList row) ≠ .idle) :
    m.session.Calm (m.chooseNodes selectIdx replicaList).session cb := by
  refine (ValetSession.calm_foldl_queried fun picked member => ?_).trans
    ValetSession.calm_requestMrMap
  obtain ⟨row, rfl⟩ := (List.mem_ofFn' replicaList picked).mp member
  exact used row

theorem calm_mapRow {selectIdx : Swapspace} {replicaList : Fin (replicas + 1) → Fin servers}
    {row : Fin (replicas + 1)} : m.session.Calm (m.mapRow selectIdx replicaList row).session cb := by
  have on : m.session.Calm { m.session with rdmaOn := true } cb := ⟨fun _ => id, rfl⟩
  unfold mapRow
  dsimp only
  split
  · exact on.trans ValetSession.calm_requestMrMap
  · exact on

theorem calm_chooseDest {newCb : Fin servers} {change : Message → Message}
    (used : m.session.cbStateList newCb ≠ .idle) :
    m.session.Calm ((m.session.queried newCb).modifySendBuf newCb change) cb :=
  (ValetSession.calm_queried used).trans ValetSession.calm_modifySendBuf

end Control

namespace ServerChoice

/-- A map reply does not come during a round of its server, and a server that is only connected
gets no block by a migration. -/
def RepliesFit (s : ServerChoice servers replicas) (cb : Fin servers) (recv : Received) : Prop :=
  ∀ msg, recv = .message msg → s.control.session.Alive cb →
    (msg.type = .respMrMap → (s.control.handler cb).round = none) ∧
      (msg.type = .respMigMap → (∃ i, msg.rkey i ≠ 0) →
        s.control.session.cbStateList cb ≠ .connected)

/-- A server that is only connected is picked once. -/
def PicksFresh (s : ServerChoice servers replicas) (label : ControlLabel servers replicas) :
    Prop :=
  ∀ cb, s.picks label = some cb → s.control.session.cbStateList cb = .connected →
    s.threads cb = 0

/-- A search that has connected a server finds it as it was, without a block and outside rounds. -/
def ConnectsUnused (s : ServerChoice servers replicas) (search : Option (Fin servers)) : Prop :=
  ∀ cb, s.connecting search = some cb → (s.control.handler cb).round = none ∧
    ∀ i, (s.control.session.rbh cb).remoteMapped i = false

/-- Replies, picks and connections are as above, an `EVICT` that is taken up names its server, and
a round ends with a destination. -/
def Orderly (s : ServerChoice servers replicas) : ChoiceLabel servers replicas → Prop
  | .connected search => s.ConnectsUnused search
  | .control (.recv cb recv) => s.RepliesFit cb recv
  | .control (.takeEvict cb) => (s.control.session.rbh cb).srcCbIndex = cb.val
  | .control (.clean cb) => (s.control.handler cb).newCb ≠ none
  | .control label => s.PicksFresh label
  | _ => True

/-- What is known of a server: `state` and `threads` are its entries, `pc` is where its handler is,
and `candidates` the search of its round. -/
structure Known (cb : Fin servers) (state : CbState) (pc : HandlerPc servers)
    (mapped : Block → Bool) (threads : Nat) (candidates : Option (Fin servers → Bool)) : Prop where
  usual : state ≠ .evicting ∧ state ≠ .fail
  migrating : state = .migrating ↔ pc.round.isSome = true
  destination : pc.newCb ≠ some cb
  unmapped : state = .connected → ∀ i, mapped i = false
  oneThread : threads ≤ 1
  named : ∀ round, pc.round = some round → round.srcCbIndex = cb.val
  scanned : ∀ list, candidates = some list → list cb = false ∧ ∃ round, pc = .findDest round

def Knows (s : ServerChoice servers replicas) : Prop :=
  ∀ cb, Known cb (s.control.session.cbStateList cb) (s.control.handler cb)
    (s.control.session.rbh cb).remoteMapped (s.threads cb) (s.destCandidates cb)

variable {s next : ServerChoice servers replicas}

theorem Knows.tellsTruth (knows : s.Knows) : s.TellsTruth where
  migrating := fun cb => (knows cb).migrating
  considered := by
    intro cb
    have migrating := (knows cb).migrating
    have usual := (knows cb).usual
    rw [← Option.not_isSome_iff_eq_none, ← migrating, scan]
    cases state : s.control.session.cbStateList cb with
    | idle | connected | mapped | migrating => simp [CbState.belowMigrating]
    | evicting => exact absurd state usual.1
    | fail => exact absurd state usual.2
  destination := fun cb => (knows cb).destination
  unmapped := fun cb => (knows cb).unmapped
  oneThread := fun cb => (knows cb).oneThread

theorem knows_init : (init : ServerChoice servers replicas).Knows :=
  fun _ => ⟨⟨nofun, nofun⟩, ⟨nofun, nofun⟩, nofun, nofun, Nat.zero_le 1, nofun, nofun⟩

section Known

variable {cb : Fin servers} {state : CbState} {pc : HandlerPc servers} {mapped : Block → Bool}
  {threads : Nat} {candidates : Option (Fin servers → Bool)}

theorem Known.calm {session after : ValetSession servers replicas}
    (known : Known cb (session.cbStateList cb) pc (session.rbh cb).remoteMapped threads candidates)
    (calm : session.Calm after cb) :
    Known cb (after.cbStateList cb) pc (after.rbh cb).remoteMapped threads candidates := by
  rw [calm.state]
  refine ⟨known.usual, known.migrating, known.destination, ?_, known.oneThread, known.named,
    known.scanned⟩
  intro connected i
  rw [← Bool.not_eq_true]
  intro mapped
  have before := calm.mapped i mapped
  rw [known.unmapped connected i] at before
  cases before

/-- A server that has blocks or is being migrated from. -/
theorem Known.used (isUsed : state = .mapped ∨ state = .migrating)
    (migrating : state = .migrating ↔ pc.round.isSome = true) (destination : pc.newCb ≠ some cb)
    (oneThread : threads ≤ 1) (named : ∀ round, pc.round = some round → round.srcCbIndex = cb.val)
    (scanned : ∀ list, candidates = some list → list cb = false ∧ ∃ round, pc = .findDest round) :
    Known cb state pc mapped threads candidates := by
  have different : state ≠ .evicting ∧ state ≠ .fail ∧ state ≠ .connected := by
    rcases isUsed with rfl | rfl
    · exact ⟨nofun, nofun, nofun⟩
    · exact ⟨nofun, nofun, nofun⟩
  obtain ⟨notEvicting, notFail, notConnected⟩ := different
  exact ⟨⟨notEvicting, notFail⟩, migrating, destination,
    fun connected => absurd connected notConnected, oneThread, named, scanned⟩

/-- The handler goes on in its round. -/
theorem Known.goOn {later : HandlerPc servers}
    (known : Known cb state pc mapped threads candidates) (round : later.round = pc.round)
    (destination : later.newCb ≠ some cb) : Known cb state later mapped threads none :=
  ⟨known.usual, by rw [round]; exact known.migrating, destination, known.unmapped,
    known.oneThread, by rw [round]; exact known.named, nofun⟩

theorem Known.noCandidates (known : Known cb state pc mapped threads candidates)
    (elsewhere : ∀ round, pc ≠ .findDest round) : candidates = none := by
  cases found : candidates with
  | none => rfl
  | some list =>
      obtain ⟨_, round, finding⟩ := known.scanned list found
      exact absurd finding (elsewhere round)

/-- The server is picked and gets its thread. -/
theorem Known.pick (known : Known cb .connected pc mapped threads candidates)
    (fresh : threads = 0) : Known cb .connected pc mapped (threads + 1) candidates :=
  ⟨known.usual, known.migrating, known.destination, known.unmapped, by omega, known.named,
    known.scanned⟩

/-- A search stores `CB_CONNECTED`. -/
theorem Known.connected (known : Known cb state pc mapped threads candidates)
    (outside : pc.round = none) (unmapped : ∀ i, mapped i = false) :
    Known cb .connected pc mapped threads candidates := by
  refine ⟨⟨nofun, nofun⟩, ?_, known.destination, fun _ => unmapped, known.oneThread, known.named,
    known.scanned⟩
  rw [outside]
  exact ⟨nofun, nofun⟩

end Known

/-- The handler of one server goes on, which the others do not notice. -/
theorem Knows.goOn {cb : Fin servers} {pc : HandlerPc servers}
    {session : ValetSession servers replicas}
    {candidates : Fin servers → Option (Fin servers → Bool)} (knows : s.Knows)
    (mine : Known cb (session.cbStateList cb) pc (session.rbh cb).remoteMapped
      (s.threads cb) (candidates cb))
    (calm : ∀ other, other ≠ cb → s.control.session.Calm session other)
    (same : ∀ other, other ≠ cb → candidates other = s.destCandidates other) (other : Fin servers) :
    Known other (session.cbStateList other) ((s.control.goOn cb pc session).handler other)
      (session.rbh other).remoteMapped (s.threads other)
      (candidates other) := by
  rcases eq_or_ne other cb with rfl | different
  · rw [Control.handler_goOn]
    exact mine
  · rw [Control.handler_goOn_of_ne _ different, same other different]
    exact (knows other).calm (calm other different)

/-- The handler of a server goes on in a round that has chosen. -/
theorem Knows.onward {cb : Fin servers} {pc later : HandlerPc servers}
    {session : ValetSession servers replicas} (knows : s.Knows) (at_ : s.control.handler cb = pc)
    (round : later.round = pc.round) (newCb : later.newCb = pc.newCb)
    (elsewhere : ∀ round, pc ≠ .findDest round)
    (calm : ∀ other, s.control.session.Calm session other) (other : Fin servers) :
    Known other (session.cbStateList other) ((s.control.goOn cb later session).handler other)
      (session.rbh other).remoteMapped (s.threads other)
      (s.destCandidates other) := by
  have known := knows cb
  rw [at_] at known
  have none_ := known.noCandidates elsewhere
  refine knows.goOn ?_ (fun other _ => calm other) (fun _ _ => rfl) other
  rw [none_]
  exact (known.goOn round (newCb ▸ known.destination)).calm (calm cb)

/-- A thread is started for a server that is picked while it is only connected. -/
theorem Known.picked {cb : Fin servers} {pc : HandlerPc servers} {pick : Option (Fin servers)}
    {session : ValetSession servers replicas} {candidates : Option (Fin servers → Bool)}
    (known : Known cb (session.cbStateList cb) pc (session.rbh cb).remoteMapped
      (s.threads cb) candidates)
    (fresh : pick = some cb → session.cbStateList cb = .connected → s.threads cb = 0) :
    Known cb (session.cbStateList cb) pc (session.rbh cb).remoteMapped
      (postSetupConnection s.threads session pick cb) candidates := by
  cases pick with
  | none => exact known
  | some picked =>
      unfold postSetupConnection
      dsimp only
      split
      · rename_i connected
        rcases eq_or_ne cb picked with rfl | different
        · rw [Function.update_self]
          have zero := fresh rfl connected
          rw [connected] at known ⊢
          exact known.pick zero
        · rw [Function.update_of_ne different]
          exact known
      · exact known

/-- A step that picks a server but moves no handler. -/
theorem Knows.picks {control : Control servers replicas} {label : ControlLabel servers replicas}
    (knows : s.Knows) (fresh : s.PicksFresh label) (handler : control.handler = s.control.handler)
    (calm : ∀ cb, s.control.session.Calm control.session cb) (cb : Fin servers) :
    Known cb (control.session.cbStateList cb) (control.handler cb)
      (control.session.rbh cb).remoteMapped
      (postSetupConnection s.threads control.session (s.picks label) cb)
      (s.destCandidates cb) := by
  rw [handler]
  exact ((knows cb).calm (calm cb)).picked fun picked connected =>
    fresh cb picked ((calm cb).state.symm.trans connected)

theorem Knows.scanDest {cb : Fin servers} {round : Round} (knows : s.Knows)
    (finding : s.control.handler cb = .findDest round) :
    Knows { s with destCandidates := Function.update s.destCandidates cb (some s.scan) } := by
  intro other
  rcases eq_or_ne other cb with rfl | different
  · have known := knows other
    have migrating := known.migrating
    rw [finding] at migrating
    have outside : s.scan other = false := by
      rw [scan, migrating.mpr rfl]
      rfl
    refine ⟨known.usual, known.migrating, known.destination, known.unmapped, known.oneThread,
      known.named, ?_⟩
    intro list same
    dsimp only at same
    rw [Function.update_self] at same
    cases same
    exact ⟨outside, round, finding⟩
  · have same : Function.update s.destCandidates cb (some s.scan) other = s.destCandidates other :=
      Function.update_of_ne different _ _
    dsimp only
    rw [same]
    exact knows other

/-- What a step of the client does. -/
theorem control_of_step {label : ControlLabel servers replicas}
    (edge : s.step (.control label) = some next) :
    s.Allows label ∧ Control.Moves s.control label next.control ∧
      next.threads = postSetupConnection s.threads next.control.session (s.picks label) ∧
      next.destCandidates = s.destsAfter label := by
  obtain ⟨allows, ran⟩ := Option.ite_none_right_eq_some.mp edge
  obtain ⟨control, moved, rfl⟩ := Option.map_eq_some_iff.mp ran
  exact ⟨allows, Control.moves_of_step moved, rfl, rfl⟩

theorem Knows.control {label : ControlLabel servers replicas} (knows : s.Knows)
    (orderly : s.Orderly (.control label)) (edge : s.step (.control label) = some next) :
    next.Knows := by
  obtain ⟨allows, moves, threads, candidates⟩ := control_of_step edge
  unfold Knows
  rw [threads, candidates]
  generalize next.control = control at moves ⊢
  cases moves with
  | ask => exact knows.picks orderly rfl fun _ => ValetSession.calm_queried allows.1
  | getFinding | getMapped | noNodes => exact knows.picks orderly rfl fun _ => .refl
  | chooseNodes finding distinct =>
      exact knows.picks orderly rfl fun _ => Control.calm_chooseNodes fun row => (allows row).1
  | mapRow waiting arrived =>
      exact knows.picks orderly Control.handler_mapRow fun _ => Control.calm_mapRow
  | @recv cb recv session receives =>
      have none_ : s.PicksFresh (.recv cb recv) := by
        rintro _ ⟨⟩
      cases receives.serves with
      | calm all => exact knows.picks none_ rfl all
      | @mapped msg next alive type state others =>
          intro other
          rcases eq_or_ne other cb with rfl | different
          · have known := knows other
            have idle := (orderly msg rfl alive).1 type
            refine .used (Or.inl state) ?_ known.destination known.oneThread known.named
              known.scanned
            dsimp only
            rw [state, idle]
            constructor
            · rintro ⟨⟩
            · rintro ⟨⟩
          · exact (knows other).calm (others other different)
      | @migMapped msg next alive type state blocks others =>
          intro other
          rcases eq_or_ne other cb with rfl | different
          · have known := knows other
            have free := (orderly msg rfl alive).2 type
            dsimp only
            rw [state]
            refine ⟨known.usual, known.migrating, known.destination, ?_, known.oneThread,
              known.named, known.scanned⟩
            intro connected i
            have noKey : msg.rkey i = 0 := by
              by_contra key
              exact free ⟨i, key⟩ connected
            rw [blocks, known.unmapped connected i, noKey]
            rfl
          · exact (knows other).calm (others other different)
  | sendDone => exact knows.picks orderly rfl fun _ => ValetSession.calm_sendDone
  | @takeEvict cb round session waits takes =>
      have known := knows cb
      have source : round.srcCbIndex = cb.val := by
        cases takes
        exact orderly
      obtain ⟨migrates, others, same⟩ := takes.calm orderly
      rw [waits] at known
      refine knows.goOn ?_ others (fun _ _ => rfl)
      have none_ : s.destCandidates cb = none := by
        refine known.noCandidates ?_
        rintro _ ⟨⟩
      refine .used (Or.inr migrates) ⟨fun _ => rfl, fun _ => migrates⟩ ?_ known.oneThread ?_ ?_
      · rintro ⟨⟩
      · rintro _ ⟨⟩
        exact source
      · intro list found
        cases none_.symm.trans found
  | @noDest cb round finding =>
      have known := knows cb
      rw [finding] at known
      refine knows.goOn ?_ (fun _ _ => .refl) fun other different =>
        Function.update_of_ne different _ _
      have cleared : s.destsAfter (.noDest cb) cb = none := Function.update_self ..
      rw [cleared]
      refine known.goOn rfl ?_
      rintro ⟨⟩
  | @chooseDest cb newCb round change finding =>
      have known := knows cb
      rw [finding] at known
      have calm (other : Fin servers) : s.control.session.Calm
          ((s.control.session.queried newCb).modifySendBuf newCb change) other :=
        Control.calm_chooseDest allows.1
      have other : newCb ≠ cb := by
        rintro rfl
        obtain ⟨-, -, list, found, member⟩ := allows
        rw [(known.scanned list found).1] at member
        cases member
      intro at_
      have cleared : s.destsAfter (.chooseDest cb newCb) cb = none := Function.update_self ..
      have chosen : Known cb _ (HandlerPc.waitMigMap round newCb) _ _ none :=
        known.goOn rfl fun same => other (Option.some.inj same)
      rw [← cleared] at chosen
      have moved := knows.goOn (chosen.calm (calm cb)) (fun other _ => calm other)
        (fun other different => Function.update_of_ne different _ _) at_
      exact moved.picked fun picked connected =>
        orderly at_ picked ((calm at_).state.symm.trans connected)
  | readSlot waits arrived =>
      refine knows.onward waits rfl rfl ?_ fun _ => .refl
      rintro _ ⟨⟩
  | remap waits remaps =>
      refine knows.onward waits rfl rfl ?_ fun _ => remaps.calm
      rintro _ ⟨⟩
  | copyBitmap remapped copies =>
      refine knows.onward remapped rfl rfl ?_ fun _ => copies.calm
      rintro _ ⟨⟩
  | postDelete sends =>
      refine knows.onward sends rfl rfl ?_ fun _ => ValetSession.calm_sendDeleteRb
      rintro _ ⟨⟩
  | @clean cb round newCb session waits cleans =>
      have known := knows cb
      rw [waits] at known
      have found : newCb ≠ none := by
        have ends : (s.control.handler cb).newCb ≠ none := orderly
        rw [waits] at ends
        exact ends
      obtain ⟨state, others⟩ := (cleans.calm (known.named round rfl)).2 found
      have none_ : s.destCandidates cb = none := by
        refine known.noCandidates ?_
        rintro _ ⟨⟩
      refine knows.goOn ?_ others (fun _ _ => rfl)
      refine .used (Or.inl state) ⟨?_, ?_⟩ ?_ known.oneThread ?_ ?_
      · intro bad
        cases state.symm.trans bad
      · rintro ⟨⟩
      · rintro ⟨⟩
      · rintro _ ⟨⟩
      · intro list same
        cases none_.symm.trans same

/-- A search that has waited stores `CB_CONNECTED`. -/
theorem connects_of_step {search : Option (Fin servers)}
    (edge : s.step (.connected search) = some next) : ∃ cb, s.connecting search = some cb ∧
      next = { s.withSession (s.control.session.setCbState cb .connected) with
        connecting := Function.update s.connecting search none } := by
  simp only [ServerChoice.step] at edge
  split at edge
  · rename_i cb isCb
    obtain ⟨-, same⟩ := Option.ite_none_right_eq_some.mp edge
    exact ⟨cb, isCb, (Option.some.inj same).symm⟩
  · cases edge

theorem Knows.step {label : ChoiceLabel servers replicas} (knows : s.Knows)
    (orderly : s.Orderly label) (edge : s.step label = some next) : next.Knows := by
  cases label with
  | scanNodes =>
      simp only [ServerChoice.step] at edge
      split at edge
      · cases edge
        exact knows
      · cases edge
  | scanDest cb =>
      simp only [ServerChoice.step] at edge
      split at edge
      · rename_i round finding _
        cases edge
        exact knows.scanDest finding
      · cases edge
  | connect search cb =>
      obtain ⟨-, rfl⟩ := Option.ite_none_right_eq_some.mp edge |>.imp id Option.some.inj
      exact fun other => (knows other).calm ValetSession.calm_controlBlockInit
  | established cb =>
      obtain ⟨-, rfl⟩ := Option.ite_none_right_eq_some.mp edge |>.imp id Option.some.inj
      exact fun other => (knows other).calm ValetSession.calm_setState
  | connected search =>
      obtain ⟨cb, isCb, rfl⟩ := connects_of_step edge
      obtain ⟨outside, unmapped⟩ := orderly cb isCb
      intro other
      rcases eq_or_ne other cb with rfl | different
      · have state : (s.control.session.setCbState other .connected).cbStateList other =
            .connected := Function.update_self ..
        dsimp only [withSession]
        rw [state]
        exact (knows other).connected outside unmapped
      · exact (knows other).calm (ValetSession.calm_setCbState_of_ne different)
  | control label => exact knows.control orderly edge

/-! ## The steps after which a state does not tell the truth -/

theorem repliesFit_of_truth {cb : Fin servers} {recv : Received}
    (edge : s.step (.control (.recv cb recv)) = some next) (truth : next.TellsTruth) :
    s.RepliesFit cb recv := by
  obtain ⟨_, moves, _, _⟩ := control_of_step edge
  rintro msg rfl alive
  have migrating := truth.migrating cb
  have unmapped := truth.unmapped cb
  generalize next.control = control at moves migrating unmapped
  cases moves with
  | recv receives =>
      obtain ⟨mapped, migMapped⟩ := receives.answered alive
      refine ⟨fun type => ?_, fun type => ?_⟩
      · rw [← Option.not_isSome_iff_eq_none, ← migrating]
        exact fun bad => nomatch (mapped type).symm.trans bad
      · rintro ⟨i, key⟩ connected
        obtain ⟨state, blocks⟩ := migMapped type
        have clear := unmapped (state.trans connected) i
        rw [blocks i key] at clear
        cases clear

theorem calm_of_picked {label : ControlLabel servers replicas} {control : Control servers replicas}
    {cb other : Fin servers} (allows : s.Allows label)
    (moves : Control.Moves s.control label control) (picked : s.picks label = some cb) :
    s.control.session.Calm control.session other := by
  cases moves with
  | chooseNodes => exact Control.calm_chooseNodes fun row => (allows row).1
  | mapRow => exact Control.calm_mapRow
  | chooseDest => exact Control.calm_chooseDest allows.1
  | _ => cases picked

theorem picksFresh_of_truth {label : ControlLabel servers replicas}
    (edge : s.step (.control label) = some next) (truth : next.TellsTruth) :
    s.PicksFresh label := by
  obtain ⟨allows, moves, threads, _⟩ := control_of_step edge
  intro cb picked connected
  have still : next.control.session.cbStateList cb = .connected :=
    (calm_of_picked allows moves picked).state.trans connected
  have more := truth.oneThread cb
  rw [threads, picked, postSetupConnection, if_pos still, Function.update_self] at more
  omega

theorem Knows.namesItself {cb : Fin servers} (knows : s.Knows)
    (edge : s.step (.control (.takeEvict cb)) = some next) (truth : next.TellsTruth) :
    (s.control.session.rbh cb).srcCbIndex = cb.val := by
  obtain ⟨_, moves, _, _⟩ := control_of_step edge
  have migrating := truth.migrating cb
  generalize next.control = control at moves migrating
  cases moves with
  | @takeEvict _ round session waits takes =>
      have before := (knows cb).migrating
      rw [waits] at before
      rw [Control.handler_goOn, Control.session_goOn] at migrating
      obtain ⟨src, isSrc⟩ : ∃ src : Fin servers,
          (s.control.session.rbh cb).srcCbIndex = src.val := by
        cases takes with
        | taken _ isSrc _ _ => exact ⟨_, isSrc⟩
      rcases eq_or_ne cb src with rfl | different
      · exact isSrc
      · -- another server is set `CB_MIGRATING`, and this one keeps its state
        have now := migrating.mpr rfl
        rw [((takes.calm isSrc).2.1 cb different).state] at now
        exact nomatch before.mp now

theorem Knows.findsDest {cb : Fin servers} (knows : s.Knows)
    (edge : s.step (.control (.clean cb)) = some next) (truth : next.TellsTruth) :
    (s.control.handler cb).newCb ≠ none := by
  obtain ⟨_, moves, _, _⟩ := control_of_step edge
  have migrating := truth.migrating cb
  generalize next.control = control at moves migrating
  cases moves with
  | @clean _ round newCb session waits cleans =>
      have known := knows cb
      rw [waits] at known
      rw [waits]
      rintro (rfl : newCb = none)
      rw [Control.handler_goOn, Control.session_goOn] at migrating
      have before := known.migrating.mpr rfl
      have calm := (cleans.calm (known.named round rfl)).1 rfl cb
      exact nomatch migrating.mp (calm.state.trans before)

theorem connectsUnused_of_truth {search : Option (Fin servers)}
    (edge : s.step (.connected search) = some next) (truth : next.TellsTruth) :
    s.ConnectsUnused search := by
  obtain ⟨cb, isCb, rfl⟩ := connects_of_step edge
  intro other isOther
  obtain rfl := Option.some.inj (isCb.symm.trans isOther)
  have state : (s.control.session.setCbState cb .connected).cbStateList cb = .connected :=
    Function.update_self ..
  refine ⟨?_, truth.unmapped cb state⟩
  rw [← Option.not_isSome_iff_eq_none]
  intro inRound
  have migrating := (truth.migrating cb).mpr inRound
  dsimp only [withSession] at migrating
  rw [state] at migrating
  cases migrating

/-- A step after which the states tell the truth is orderly. -/
theorem Knows.orderly {label : ChoiceLabel servers replicas} (knows : s.Knows)
    (edge : s.step label = some next) (truth : next.TellsTruth) : s.Orderly label := by
  cases label with
  | scanNodes => trivial
  | scanDest cb => trivial
  | connect search cb => trivial
  | established cb => trivial
  | connected search => exact connectsUnused_of_truth edge truth
  | control label =>
      cases label with
      | recv cb recv => exact repliesFit_of_truth edge truth
      | takeEvict cb => exact knows.namesItself edge truth
      | clean cb => exact knows.findsDest edge truth
      | _ => exact picksFresh_of_truth edge truth

/-- The states tell the truth all along a run just when each of its steps is orderly. -/
theorem tells_truth_iff {labels : List (ChoiceLabel servers replicas)}
    {last : ServerChoice servers replicas} (run : Run step always init labels last) :
    (∀ count middle, exec step (init : ServerChoice servers replicas) (labels.take count) =
        some middle → middle.TellsTruth) ↔
      Run step Orderly init labels last :=
  guarded_iff (fun knows orderly edge => knows.step orderly edge) (fun knows => knows.tellsTruth)
    (fun knows edge truth => knows.orderly edge truth) knows_init run

instance (s : ServerChoice servers replicas) (cb : Fin servers) (recv : Received) :
    Decidable (s.RepliesFit cb recv) :=
  match recv with
  | .query _ => isTrue nofun
  | .message msg => decidable_of_iff (s.control.session.Alive cb →
      (msg.type = .respMrMap → (s.control.handler cb).round = none) ∧
        (msg.type = .respMigMap → (∃ i, msg.rkey i ≠ 0) →
          s.control.session.cbStateList cb ≠ .connected))
      ⟨fun fits _ same => (Received.message.inj same) ▸ fits, fun fits => fits msg rfl⟩

instance (s : ServerChoice servers replicas) (label : ControlLabel servers replicas) :
    Decidable (s.PicksFresh label) := by
  unfold PicksFresh
  infer_instance

instance (s : ServerChoice servers replicas) (search : Option (Fin servers)) :
    Decidable (s.ConnectsUnused search) := by
  unfold ConnectsUnused
  infer_instance

instance (s : ServerChoice servers replicas) (label : ChoiceLabel servers replicas) :
    Decidable (s.Orderly label) :=
  match label with
  | .scanNodes | .scanDest _ | .connect .. | .established _ => isTrue trivial
  | .connected search => inferInstanceAs (Decidable (s.ConnectsUnused search))
  | .control label => by
      apply @ControlLabel.casesOn _ _ (fun label => Decidable (s.Orderly (.control label))) label <;>
        intros <;> unfold Orderly <;> infer_instance

/-- A search connects a server, which answers that it has regions. -/
def connectTo (search : Option (Fin 2)) (cb : Fin 2) : List (ChoiceLabel 2 0) :=
  [.connect search cb, .established cb, .control (.recv cb (.query ⟨1, 1⟩)), .connected search]

/-- The search for a mapping connects both servers. -/
def firstSearch : List (ChoiceLabel 2 0) := connectTo none 0 ++ connectTo none 1

/-- A search asks servers that are in use. -/
def laterSearch (cbs : List (Fin 2)) : List (ChoiceLabel 2 0) := cbs.map fun cb => .control (.ask cb)

/-- A swapspace is mapped to a block of a server. -/
def mapOn (searching : List (ChoiceLabel 2 0)) (swapspace : Swapspace) (cb : Fin 2) (rb : Block) :
    List (ChoiceLabel 2 0) :=
  [.control (.getCb swapspace), .scanNodes] ++ searching ++
    [.control (.chooseNodes fun _ => cb),
      .control (.recv cb (.message (blockMessage .respMrMap 0 swapspace rb))), .control .mapRow]

/-- The first server evicts its block, and the handler asks the other. -/
def evictionStarts : List (ChoiceLabel 2 0) :=
  [.control (.recv 0 (.message (blockMessage .evict 0 firstSwapspace firstBlock))),
    .control (.takeEvict 0), .scanDest 0] ++ laterSearch [1]

/-- The handler asks for the block to be deleted and cleans up. -/
def roundEnds : List (ChoiceLabel 2 0) :=
  [.control (.postDelete 0), .control (.sendDone 0), .control (.clean 0)]

/-- Both servers have a block, and the first migrates its own to the second. -/
def migrationBetweenUsed : List (ChoiceLabel 2 0) :=
  mapOn firstSearch firstSwapspace 0 firstBlock ++
    mapOn (laterSearch [0, 1]) Control.secondSwapspace 1 firstBlock ++ evictionStarts ++
      [.control (.chooseDest 0 1),
        .control (.recv 1 (.message (blockMessage .respMigMap 1 firstSwapspace
          Control.secondBlock))),
        .control (.readSlot 0), .control (.recv 0 (.message doneMigration)), .control (.remap 0),
        .control (.copyBitmap 0)] ++ roundEnds

theorem tells_truth_migration : ∃ last : ServerChoice 2 0,
    exec step init migrationBetweenUsed = some last ∧
      ∀ count middle, exec step (init : ServerChoice 2 0) (migrationBetweenUsed.take count) =
        some middle → middle.TellsTruth := by
  have ran : (exec (guardedStep step Orderly) (init : ServerChoice 2 0)
      migrationBetweenUsed).isSome = true := by
    decide +kernel
  obtain ⟨last, guarded⟩ := Option.isSome_iff_exists.mp ran
  have orderly := run_of_guarded guarded
  have run := orderly.mono fun _ _ _ => trivial
  exact ⟨last, orderly.exec_eq, (tells_truth_iff run).mpr orderly⟩

/-- The round finds no destination, and the server is `CB_MIGRATING` for good. -/
theorem noDest_stays_migrating : ¬ ∀ (labels : List (ChoiceLabel 2 0)) (last : ServerChoice 2 0),
    Run step always init labels last → last.TellsTruth := by
  intro claim
  have stuck : ((exec step (init : ServerChoice 2 0)
      (mapOn firstSearch firstSwapspace 0 firstBlock ++ evictionStarts ++
        [.control (.noDest 0)] ++ roundEnds)).map fun s =>
          (s.control.session.cbStateList 0, (s.control.handler 0).round.isSome)) =
      some (.migrating, false) := by
    decide +kernel
  obtain ⟨last, ran, ends⟩ := Option.map_eq_some_iff.mp stuck
  obtain ⟨migrating, ended⟩ := Prod.mk.inj ends
  have inRound := ((claim _ last (run_of_exec ran)).migrating 0).mp migrating
  rw [ended] at inRound
  cases inRound

end ServerChoice

end Valet.Bd
