import Valet.Bd.Aliasing

/-!
# The slots of an eviction

`c_state`, the marks and the parameters of an `EVICT` are single slots that the
receive handler, the handlers of other servers and send completions write.  A
record beside the client keeps which `EVICT`s a server sent and which rounds its
handler took up.
-/

namespace Valet.Bd

open Valet.Wire Valet.Library

/-- The `c_state` that a handler waits for now or next. -/
def HandlerPc.awaited {servers : Nat} : HandlerPc servers → Option RbhState
  | .waitEvict => some .evict
  | .findDest _ => some .migrationDone
  | .waitMigMap _ _ => some .migrationDone
  | .waitDone _ _ _ => some .migrationDone
  | .copyBitmap _ _ _ => none
  | .sendDelete _ _ => none
  | .waitDelete _ _ => some .deleteRb

/-- The client and, for one server, the `EVICT`s received from it, the rounds taken up, the
`EVICT` of the round, the number of `DELETE_RB`s sent, and whether the round has seen
`DONE_MIGRATION` and the completion of `DELETE_RB`. -/
structure Watched (servers replicas : Nat) where
  control : Control servers replicas
  evicts : List Message
  taken : List Round
  current : Option Message
  deletes : Nat
  doneSeen : Bool
  deleteSeen : Bool

namespace Watched

open ValetSession

variable {servers replicas : Nat}

/-- The table of the server. -/
def rbh (w : Watched servers replicas) (cb : Fin servers) : RemoteBlockHandler :=
  w.control.session.rbh cb

/-- The record of a step of the client that leads to `next`. -/
def record (cb : Fin servers) (w : Watched servers replicas) (next : Control servers replicas) :
    ControlLabel servers replicas → Watched servers replicas
  | .recv at_ (.message msg) =>
      if at_ = cb ∧ msg.type = .evict then
        { w with control := next, evicts := w.evicts ++ [msg] }
      else if at_ = cb ∧ msg.type = .doneMigration then
        { w with control := next, doneSeen := true }
      else
        { w with control := next }
  | .sendDone at_ =>
      if at_ = cb ∧ (w.control.session.cbList cb).sendBuf.type = .deleteRb then
        { w with control := next, deleteSeen := true }
      else
        { w with control := next }
  | .takeEvict at_ =>
      if at_ = cb then
        { w with
          control := next
          taken := w.taken ++ [(w.rbh cb).round]
          current := w.evicts[w.taken.length]?
          doneSeen := false }
      else
        { w with control := next }
  | .postDelete at_ =>
      if at_ = cb then
        { w with control := next, deletes := w.deletes + 1, deleteSeen := false }
      else
        { w with control := next }
  | _ => { w with control := next }

def step (cb : Fin servers) (w : Watched servers replicas)
    (label : ControlLabel servers replicas) : Option (Watched servers replicas) :=
  (w.control.step label).map fun next => w.record cb next label

def init : Watched servers replicas := ⟨.init, [], [], none, 0, false, false⟩

/-- Every `EVICT` is taken up once and in order, the last one perhaps not yet, and what the
handler waits for is still in `c_state` if it was there. -/
structure Kept (cb : Fin servers) (w : Watched servers replicas) : Prop where
  taken : w.evicts.map Round.ofEvict = w.taken ∨ ∃ earlier evict, w.evicts = earlier ++ [evict] ∧
    earlier.map Round.ofEvict = w.taken ∧ (w.rbh cb).cState = .evict ∧
      (w.rbh cb).round = Round.ofEvict evict
  done : ∀ round newCb dest, w.control.handler cb = .waitDone round newCb dest →
    w.doneSeen = true → (w.rbh cb).cState = .migrationDone
  deleted : ∀ round newCb, w.control.handler cb = .waitDelete round newCb →
    w.deleteSeen = true → (w.rbh cb).cState = .deleteRb

/-- A step clears at most the blocks with a key in the `EVICT`, and the mapping that it names. -/
structure ClearsNamed (cb : Fin servers) (evict : Message) (w next : Watched servers replicas) :
    Prop where
  key : ∀ i, evict.rkey i = 0 →
    ((next.rbh cb).remoteBlock i).remoteRkey = ((w.rbh cb).remoteBlock i).remoteRkey
  addr : ∀ i, evict.rkey i = 0 →
    ((next.rbh cb).remoteBlock i).remoteAddr = ((w.rbh cb).remoteBlock i).remoteAddr
  bitmap : ∀ i, evict.rkey i = 0 →
    ((next.rbh cb).remoteBlock i).bitmapG = ((w.rbh cb).remoteBlock i).bitmapG
  mapped : ∀ i, evict.rkey i = 0 → (next.rbh cb).remoteMapped i = (w.rbh cb).remoteMapped i
  inverse : ∀ i, evict.rkey i = 0 → (next.rbh cb).rbIdxMap i = (w.rbh cb).rbIdxMap i
  forward : ∀ (row : Fin (replicas + 1)) (swapspace : Swapspace),
    (evict.replicaIndex, evict.sizeGb) ≠ ((row.val : Int), (swapspace.val : Int)) →
      next.control.session.cbIndexMap row swapspace = w.control.session.cbIndexMap row swapspace

/-- The messages that the connection of the server carries; it sends an `EVICT` only after it
got the `DELETE_RB` of the one before. -/
def EvictsInTurn (cb : Fin servers) (w : Watched servers replicas) :
    ControlLabel servers replicas → Prop
  | .recv at_ recv => at_ = cb → w.control.session.Alive cb ∧
      match recv with
      | .query _ => True
      | .message msg => known msg.type = true ∧ (msg.type = .evict → w.evicts.length ≤ w.deletes)
  | .sendDone at_ => at_ = cb → w.control.session.Alive cb
  | _ => True

/-- The handler is between two rounds. -/
def Between (cb : Fin servers) (w : Watched servers replicas) : Prop :=
  (w.control.handler cb).round = none

/-- An `EVICT` is there that the handler has not taken up. -/
def Pending (cb : Fin servers) (w : Watched servers replicas) : Prop :=
  w.Between cb ∧ (w.rbh cb).cState = .evict

/-- `c_state` holds a value that the handler has yet to see. -/
def Unseen (cb : Fin servers) (w : Watched servers replicas) : Prop :=
  (w.control.handler cb).awaited = some (w.rbh cb).cState

/-- `EVICT`s arrive between two rounds and no value in `c_state` that the handler has yet to
see is overwritten; no destination arrives on the server while an `EVICT` is pending, and none
with a key within a round. -/
def Undisturbed (cb : Fin servers) (w : Watched servers replicas) :
    ControlLabel servers replicas → Prop
  | .recv at_ (.message msg) => at_ = cb →
      match msg.type with
      | .evict => w.Between cb ∧ ¬ w.Unseen cb
      | .respMigMap => ¬ w.Pending cb ∧ (msg.firstRkey.isSome = true → w.Between cb)
      | .respMrMap => msg.firstRkey.isSome = true → ¬ w.Unseen cb
      | .doneMigration => w.Unseen cb → (w.rbh cb).cState = .migrationDone
      | _ => True
  | .sendDone at_ => at_ = cb → (w.control.session.cbList cb).sendBuf.type = .deleteRb →
      w.Unseen cb → (w.rbh cb).cState = .deleteRb
  | .remap at_ => at_ ≠ cb →
      match w.control.handler at_ with
      | .waitDone _ newCb _ => newCb = cb → ¬ w.Unseen cb
      | _ => True
  | _ => True

structure UndisturbedStep (cb : Fin servers) (w : Watched servers replicas)
    (label : ControlLabel servers replicas) : Prop where
  turn : EvictsInTurn cb w label
  undisturbed : Undisturbed cb w label

/-- The marks are blocks with a key in the `EVICT`. -/
def MarksNamed (rbh : RemoteBlockHandler) (evict : Message) : Prop :=
  ∀ i, rbh.migRbIdx i = true → evict.rkey i ≠ 0

structure Tracked (cb : Fin servers) (w : Watched servers replicas) : Prop where
  log : (¬ w.Pending cb ∧ w.evicts.map Round.ofEvict = w.taken) ∨
    (w.Pending cb ∧ ∃ earlier evict, w.evicts = earlier ++ [evict] ∧
      earlier.map Round.ofEvict = w.taken ∧ (w.rbh cb).round = Round.ofEvict evict ∧
        MarksNamed (w.rbh cb) evict)
  current : ∀ round, (w.control.handler cb).round = some round → ∃ evict,
    w.current = some evict ∧ round = Round.ofEvict evict ∧ MarksNamed (w.rbh cb) evict
  done : (w.control.handler cb).awaited = some .migrationDone → w.doneSeen = true →
    (w.rbh cb).cState = .migrationDone
  deleted : (w.control.handler cb).awaited = some .deleteRb → w.deleteSeen = true →
    (w.rbh cb).cState = .deleteRb

variable {cb : Fin servers} {w next : Watched servers replicas} {c : Control servers replicas}

theorem Between.handler (between : w.Between cb) : w.control.handler cb = .waitEvict := by
  unfold Between at between
  cases at_ : w.control.handler cb with
  | waitEvict => rfl
  | findDest | waitMigMap | waitDone | copyBitmap | sendDelete | waitDelete =>
      rw [at_] at between
      cases between

theorem Pending.unseen (pending : w.Pending cb) : w.Unseen cb := by
  rw [Unseen, pending.1.handler, pending.2]
  rfl

theorem Tracked.kept (tracked : Tracked cb w) : Kept cb w where
  taken := by
    rcases tracked.log with ⟨_, all⟩ | ⟨pending, earlier, evict, received, taken, round, _⟩
    · exact Or.inl all
    · exact Or.inr ⟨earlier, evict, received, taken, pending.2, round⟩
  done := fun round newCb dest waits seen => tracked.done (by rw [waits]; rfl) seen
  deleted := fun round newCb waits seen => tracked.deleted (by rw [waits]; rfl) seen

/-- A step that leaves the handler where it is, and what it has not seen in the slots. -/
theorem Tracked.frame (tracked : Tracked cb w) (pc : c.handler cb = w.control.handler cb)
    (state : (c.session.rbh cb).cState = (w.rbh cb).cState ∨
      (¬ w.Unseen cb ∧ (c.session.rbh cb).cState ≠ .evict))
    (round : (c.session.rbh cb).round = (w.rbh cb).round ∨ ¬ w.Pending cb)
    (marks : (∀ i, (c.session.rbh cb).migRbIdx i = true → (w.rbh cb).migRbIdx i = true) ∨
      (w.Between cb ∧ ¬ w.Pending cb)) : Tracked cb { w with control := c } where
  log := by
    rcases tracked.log with ⟨free, all⟩ | ⟨pending, earlier, evict, received, taken, named, blocks⟩
    · left
      refine ⟨?_, all⟩
      rintro ⟨between, evict⟩
      rcases state with same | ⟨_, other⟩
      · refine free ⟨?_, same ▸ evict⟩
        rw [Between] at between ⊢
        rwa [← pc]
      · exact other evict
    · right
      have still : (c.session.rbh cb).cState = (w.rbh cb).cState :=
        state.resolve_right fun disturbed => disturbed.1 pending.unseen
      refine ⟨⟨?_, still.trans pending.2⟩, earlier, evict, received, taken, ?_, ?_⟩
      · rw [Between]
        exact (congrArg HandlerPc.round pc).trans pending.1
      · exact (round.resolve_right fun free => free pending).trans named
      · intro i mark
        exact blocks i (marks.resolve_right (fun free => free.2 pending) i mark)
  current := by
    intro round' inRound
    have before : (w.control.handler cb).round = some round' :=
      (congrArg HandlerPc.round pc).symm.trans inRound
    obtain ⟨evict, current, named, blocks⟩ := tracked.current round' before
    refine ⟨evict, current, named, fun i mark => blocks i (marks.resolve_right ?_ i mark)⟩
    rintro ⟨between, _⟩
    rw [Between, before] at between
    cases between
  done := by
    intro awaits seen
    have before : (w.control.handler cb).awaited = some .migrationDone :=
      (congrArg HandlerPc.awaited pc).symm.trans awaits
    have here := tracked.done before seen
    have still := state.resolve_right fun disturbed =>
      disturbed.1 (by rw [Unseen, before, here])
    exact still.trans here
  deleted := by
    intro awaits seen
    have before : (w.control.handler cb).awaited = some .deleteRb :=
      (congrArg HandlerPc.awaited pc).symm.trans awaits
    have here := tracked.deleted before seen
    have still := state.resolve_right fun disturbed =>
      disturbed.1 (by rw [Unseen, before, here])
    exact still.trans here

end Watched

/-- The slots of an eviction. -/
def RemoteBlockHandler.slots (rbh : RemoteBlockHandler) : RbhState × Round × (Block → Bool) :=
  (rbh.cState, rbh.round, rbh.migRbIdx)

theorem ValetSession.slots_modifyRbh {servers replicas : Nat} {s : ValetSession servers replicas}
    {cb other : Fin servers} {change : RemoteBlockHandler → RemoteBlockHandler}
    (keeps : ∀ rbh, (change rbh).slots = rbh.slots) :
    ((s.modifyRbh cb change).rbh other).slots = (s.rbh other).slots := by
  rcases eq_or_ne other cb with rfl | different
  · rw [rbh_modifyRbh, keeps]
  · rw [rbh_modifyRbh_of_ne _ different]

namespace Watched

open ValetSession

variable {servers replicas : Nat} {cb : Fin servers} {w next : Watched servers replicas}
  {c : Control servers replicas}

theorem Tracked.same (tracked : Tracked cb w) (pc : c.handler cb = w.control.handler cb)
    (slots : (c.session.rbh cb).slots = (w.rbh cb).slots) :
    Tracked cb { w with control := c } := by
  obtain ⟨state, round, marks⟩ : (c.session.rbh cb).cState = (w.rbh cb).cState ∧
      (c.session.rbh cb).round = (w.rbh cb).round ∧
        (c.session.rbh cb).migRbIdx = (w.rbh cb).migRbIdx := by
    simpa [RemoteBlockHandler.slots] using slots
  exact tracked.frame pc (Or.inl state) (Or.inl round) (Or.inl fun i mark => marks ▸ mark)

/-- The handler goes on within its round. -/
theorem Tracked.goOn {pc : HandlerPc servers} {round : Round}
    {session : ValetSession servers replicas} (tracked : Tracked cb w)
    (before : (w.control.handler cb).round = some round) (after : pc.round = some round)
    (marks : (session.rbh cb).migRbIdx = (w.rbh cb).migRbIdx)
    (done : pc.awaited = some .migrationDone →
      (w.control.handler cb).awaited = some .migrationDone ∧
        (session.rbh cb).cState = (w.rbh cb).cState)
    (deleted : pc.awaited ≠ some .deleteRb) :
    Tracked cb { w with control := w.control.goOn cb pc session } where
  log := by
    have notPending : ¬ w.Pending cb := by
      rintro ⟨between, _⟩
      rw [Between, before] at between
      cases between
    left
    refine ⟨?_, (tracked.log.resolve_right fun bad => notPending bad.1).2⟩
    rintro ⟨between, _⟩
    rw [Between, Control.handler_goOn, after] at between
    cases between
  current := by
    intro other inRound
    rw [Control.handler_goOn, after] at inRound
    cases inRound
    obtain ⟨evict, current, named, blocks⟩ := tracked.current round before
    refine ⟨evict, current, named, fun i mark => blocks i ?_⟩
    rw [← marks]
    exact mark
  done := by
    intro awaits seen
    rw [Control.handler_goOn] at awaits
    obtain ⟨awaited, same⟩ := done awaits
    exact same.trans (tracked.done awaited seen)
  deleted := by
    intro awaits
    rw [Control.handler_goOn] at awaits
    exact absurd awaits deleted

theorem Tracked.other {at_ : Fin servers} {pc : HandlerPc servers}
    {session : ValetSession servers replicas} (tracked : Tracked cb w) (different : at_ ≠ cb)
    (slots : (session.rbh cb).slots = (w.rbh cb).slots) :
    Tracked cb { w with control := w.control.goOn at_ pc session } :=
  tracked.same (Control.handler_goOn_of_ne _ different.symm pc session) slots

/-- A value other than `RBH_EVICT` is written to `c_state`. -/
theorem Tracked.wrote {value : RbhState} {doneSeen deleteSeen : Bool} (tracked : Tracked cb w)
    (pc : c.handler cb = w.control.handler cb) (state : (c.session.rbh cb).cState = value)
    (other : value ≠ .evict)
    (marks : (c.session.rbh cb).migRbIdx = (w.rbh cb).migRbIdx)
    (safe : w.Unseen cb → (w.rbh cb).cState = value)
    (done : doneSeen = w.doneSeen ∨ value = .migrationDone)
    (deleted : deleteSeen = w.deleteSeen ∨ value = .deleteRb) :
    Tracked cb { w with control := c, doneSeen := doneSeen, deleteSeen := deleteSeen } where
  log := by
    have free : ¬ w.Pending cb := fun pending =>
      other ((safe pending.unseen).symm.trans pending.2)
    left
    refine ⟨fun pending => other (state.symm.trans pending.2), ?_⟩
    exact (tracked.log.resolve_right fun bad => free bad.1).2
  current := by
    intro round' inRound
    obtain ⟨evict, current, named, blocks⟩ :=
      tracked.current round' ((congrArg HandlerPc.round pc).symm.trans inRound)
    exact ⟨evict, current, named, fun i mark => blocks i (marks ▸ mark)⟩
  done := by
    intro awaits seen
    refine state.trans (done.elim ?_ id)
    intro same
    have before := (congrArg HandlerPc.awaited pc).symm.trans awaits
    have here := tracked.done before (same.symm.trans seen)
    exact (safe (by rw [Unseen, before, here])).symm.trans here
  deleted := by
    intro awaits seen
    refine state.trans (deleted.elim ?_ id)
    intro same
    have before := (congrArg HandlerPc.awaited pc).symm.trans awaits
    have here := tracked.deleted before (same.symm.trans seen)
    exact (safe (by rw [Unseen, before, here])).symm.trans here

/-- An `EVICT` arrives between two rounds. -/
theorem Tracked.evict {msg : Message} (tracked : Tracked cb w)
    (pc : c.handler cb = w.control.handler cb) (between : w.Between cb) (seen : ¬ w.Unseen cb)
    (state : (c.session.rbh cb).cState = .evict)
    (round : (c.session.rbh cb).round = Round.ofEvict msg)
    (marks : ∀ i, (c.session.rbh cb).migRbIdx i = true → msg.rkey i ≠ 0) :
    Tracked cb { w with control := c, evicts := w.evicts ++ [msg] } where
  log := by
    have free : ¬ w.Pending cb := fun pending => seen pending.unseen
    have all := (tracked.log.resolve_right fun bad => free bad.1).2
    exact Or.inr ⟨⟨(congrArg HandlerPc.round pc).trans between, state⟩, w.evicts, msg, rfl, all,
      round, marks⟩
  current := by
    intro round' inRound
    have before := (congrArg HandlerPc.round pc).symm.trans inRound
    rw [Between] at between
    rw [between] at before
    cases before
  done := by
    intro awaits
    have before := (congrArg HandlerPc.awaited pc).symm.trans awaits
    rw [between.handler] at before
    cases before
  deleted := by
    intro awaits
    have before := (congrArg HandlerPc.awaited pc).symm.trans awaits
    rw [between.handler] at before
    cases before

theorem Tracked.recv {recv : Received} {session : ValetSession servers replicas}
    {handedOut : Fin servers → Block → Bool} (tracked : Tracked cb w)
    (guard : UndisturbedStep cb w (.recv cb recv))
    (receives : Receives w.control.session cb recv session) :
    Tracked cb (w.record cb { w.control with session := session, handedOut := handedOut }
      (.recv cb recv)) := by
  obtain ⟨turn, undisturbed⟩ := guard
  obtain ⟨alive, carried⟩ := turn rfl
  cases receives with
  | ignored error => exact absurd error alive.1
  | refused reason =>
      rcases reason with unconnected | ⟨msg, rfl, unknown⟩
      · rw [alive.2] at unconnected
        cases unconnected
      · have wellKnown : known msg.type = true := carried.1
        rw [unknown] at wellKnown
        cases wellKnown
  | query =>
      refine tracked.same rfl ?_
      rw [rbh_setState]
      exact slots_modifyRbh fun _ => rfl
  | @migMap msg _ type =>
      have disturbs := undisturbed rfl
      simp only [type] at disturbs
      obtain ⟨free, between⟩ := disturbs
      rw [record, if_neg (by simp [type]), if_neg (by simp [type])]
      refine tracked.frame rfl ?_ (Or.inr free) ?_
      · dsimp only
        rw [rbh_modifyRbh, rbh_setState]
        cases keyed : msg.firstRkey.isSome with
        | true =>
            right
            refine ⟨?_, by simp [RemoteBlockHandler.valetMigrationBlockInit, keyed]⟩
            intro unseen
            rw [Unseen, (between keyed).handler] at unseen
            exact free ⟨between keyed, (Option.some.inj unseen).symm⟩
        | false =>
            left
            simp [RemoteBlockHandler.valetMigrationBlockInit, keyed, rbh]
      · dsimp only
        rw [rbh_modifyRbh, rbh_setState]
        cases keyed : msg.firstRkey with
        | some i => exact Or.inr ⟨between (by rw [keyed]; rfl), free⟩
        | none =>
            left
            intro i mark
            have keyless := Message.firstRkey_eq_none.mp keyed i
            simp [RemoteBlockHandler.valetMigrationBlockInit, keyless] at mark
  | @mrMap msg _ _ type inits =>
      have disturbs := undisturbed rfl
      simp only [type] at disturbs
      rw [record, if_neg (by simp [type]), if_neg (by simp [type])]
      cases inits with
      | nothing empty =>
          refine tracked.same rfl ?_
          dsimp only
          rw [rbh_setState, rbh_setCbState]
          rfl
      | @mapped i row select first isRow isSelect =>
          refine tracked.frame rfl (Or.inr ⟨disturbs (by rw [first]; rfl), ?_⟩) (Or.inl ?_)
            (Or.inl ?_)
          · dsimp only
            rw [rbh_setCbIndex, rbh_setRb, rbh_modifyRbh]
            simp [RemoteBlockHandler.mapBlock]
          · dsimp only
            rw [rbh_setCbIndex, rbh_setRb, rbh_modifyRbh, rbh_setState, rbh_setCbState]
            rfl
          · dsimp only
            rw [rbh_setCbIndex, rbh_setRb, rbh_modifyRbh, rbh_setState, rbh_setCbState]
            exact fun _ mark => mark
  | @done msg _ type =>
      have disturbs := undisturbed rfl
      simp only [type] at disturbs
      rw [record, if_neg (by simp [type]), if_pos ⟨rfl, type⟩]
      refine tracked.wrote rfl ?_ (by decide) ?_ disturbs (Or.inr rfl) (Or.inl rfl)
      · dsimp only
        rw [rbh_modifyRbh]
      · dsimp only
        rw [rbh_modifyRbh, rbh_setState]
        rfl
  | @evict msg _ type =>
      have disturbs := undisturbed rfl
      simp only [type] at disturbs
      rw [record, if_pos ⟨rfl, type⟩]
      refine tracked.evict rfl disturbs.1 disturbs.2 ?_ ?_ ?_
      · dsimp only
        rw [rbh_modifyRbh]
      · dsimp only
        rw [rbh_modifyRbh]
        rfl
      · dsimp only
        rw [rbh_modifyRbh]
        intro i mark
        simpa [RemoteBlockHandler.evictHandlerPrep] using mark

theorem slots_sendDone_of_ne {at_ : Fin servers} {s : ValetSession servers replicas}
    (different : cb ≠ at_) : ((s.sendDone at_).rbh cb).slots = (s.rbh cb).slots := by
  unfold sendDone
  split
  · rfl
  · split
    · rw [rbh_setState]
    · split
      · rw [rbh_modifyRbh_of_ne _ different]
      · rfl

theorem Tracked.sendDone {at_ : Fin servers} (tracked : Tracked cb w)
    (guard : UndisturbedStep cb w (.sendDone at_)) :
    Tracked cb (w.record cb { w.control with session := w.control.session.sendDone at_ }
      (.sendDone at_)) := by
  rcases eq_or_ne at_ cb with rfl | different
  · have alive := guard.turn rfl
    have disturbs := guard.undisturbed rfl
    cases type : decide ((w.control.session.cbList at_).sendBuf.type = .deleteRb) with
    | true =>
        have isDelete := of_decide_eq_true type
        have done : w.control.session.sendDone at_ =
            w.control.session.modifyRbh at_ fun rbh => { rbh with cState := .deleteRb } := by
          rw [ValetSession.sendDone, if_neg alive.1, if_neg (by rw [alive.2]; exact Bool.false_ne_true),
            if_pos isDelete]
        rw [record, if_pos ⟨rfl, isDelete⟩]
        refine tracked.wrote rfl ?_ (by decide) ?_ (disturbs isDelete) (Or.inl rfl) (Or.inr rfl)
        · dsimp only
          rw [done, rbh_modifyRbh]
        · dsimp only
          rw [done, rbh_modifyRbh]
          rfl
    | false =>
        have other := of_decide_eq_false type
        have done : w.control.session.sendDone at_ = w.control.session := by
          rw [ValetSession.sendDone, if_neg alive.1, if_neg (by rw [alive.2]; exact Bool.false_ne_true),
            if_neg other]
        rw [record, if_neg fun both => other both.2]
        exact tracked.same rfl (by dsimp only; rw [done]; rfl)
  · rw [record, if_neg fun both => different both.1]
    exact tracked.same rfl (slots_sendDone_of_ne different.symm)

/-- The handler takes up an `EVICT`. -/
theorem Tracked.takeEvict {round : Round} {session : ValetSession servers replicas}
    (tracked : Tracked cb w) (waits : w.control.handler cb = .waitEvict)
    (takes : TakesEvict w.control.session cb round session) :
    Tracked cb (w.record cb (w.control.goOn cb (.findDest round) session) (.takeEvict cb)) := by
  rw [record, if_pos rfl]
  cases takes with
  | @taken src swapspace rb evict isSrc isSwapspace isRb =>
      have between : w.Between cb := by
        rw [Between, waits]
        rfl
      rcases tracked.log with free | ⟨_, earlier, msg, received, taken, named, blocks⟩
      · exact absurd ⟨between, evict⟩ free.1
      have slots : ((((w.control.session.setCbState src .migrating).modifyRbh cb
          fun rbh => rbh.withRbState rb .readonly)).rbh cb).slots = (w.rbh cb).slots :=
        slots_modifyRbh fun _ => rfl
      have marks := (Prod.mk.inj (Prod.mk.inj slots).2).2
      exact
        { log := by
            left
            constructor
            · rintro ⟨still, _⟩
              rw [Between, Control.handler_goOn] at still
              cases still
            · rw [received, List.map_append, ← taken, named]
              rfl
          current := by
            intro other inRound
            rw [Control.handler_goOn] at inRound
            cases inRound
            refine ⟨msg, ?_, named, ?_⟩
            · dsimp only
              rw [received, ← taken, List.length_map, List.getElem?_append_right le_rfl,
                Nat.sub_self]
              rfl
            · intro i mark
              exact blocks i (by rw [← marks]; exact mark)
          done := fun _ seen => nomatch seen
          deleted := by
            intro awaits
            rw [Control.handler_goOn] at awaits
            cases awaits }

end Watched

/-- What a block has that a clean-up clears. -/
def RemoteBlockHandler.holding (rbh : RemoteBlockHandler) (i : Block) :
    UInt32 × UInt64 × Option (Nat → Bool) × Bool × Int :=
  ((rbh.remoteBlock i).remoteRkey, (rbh.remoteBlock i).remoteAddr, (rbh.remoteBlock i).bitmapG,
    rbh.remoteMapped i, rbh.rbIdxMap i)

namespace RemoteBlockHandler

theorem holding_withRbState (rbh : RemoteBlockHandler) (rb i : Block) (state : RemoteBlockState) :
    (rbh.withRbState rb state).holding i = rbh.holding i := by
  rcases eq_or_ne i rb with rfl | different
  · simp [withRbState, holding]
  · simp [withRbState, holding, different]

theorem holding_clearMarked {rbh : RemoteBlockHandler} {i : Block}
    (unmarked : rbh.migRbIdx i = false) : rbh.clearMarked.holding i = rbh.holding i := by
  simp [clearMarked, holding, unmarked]

end RemoteBlockHandler

namespace ValetSession

variable {servers replicas : Nat} {s next : ValetSession servers replicas}
  {oldCb other : Fin servers} {newCb : Option (Fin servers)} {round : Round}

/-- Clearing the marks of the new server. -/
theorem rbh_clearNew (s : ValetSession servers replicas) (newCb : Option (Fin servers))
    (cb : Fin servers) : (s.clearNew newCb).rbh cb = s.rbh cb ∨
      (s.clearNew newCb).rbh cb = { s.rbh cb with migRbIdx := fun _ => false } := by
  cases newCb with
  | none => exact Or.inl rfl
  | some newCb =>
      rcases eq_or_ne cb newCb with rfl | different
      · right
        rw [clearNew, rbh_modifyRbh]
      · left
        rw [clearNew, rbh_modifyRbh_of_ne _ different]

theorem Resets.rbh_other {replicaIndex clientEvictRbIndex : Int}
    (resets : Resets s oldCb newCb replicaIndex clientEvictRbIndex next)
    (different : other ≠ oldCb) : next.rbh other = s.rbh other ∨
      next.rbh other = { s.rbh other with migRbIdx := fun _ => false } := by
  cases resets with
  | unmarked clear => exact rbh_clearNew s newCb other
  | @cleared i row swapspace marked isRow isSwapspace =>
      have same : ((s.modifyRbh oldCb RemoteBlockHandler.clearMarked).setCbIndex row swapspace
          noCbMapped).rbh other = s.rbh other := by
        rw [rbh_setCbIndex, rbh_modifyRbh_of_ne _ different]
      rw [← same]
      exact rbh_clearNew _ newCb other

/-- The end of a round changes at most the marks of other servers. -/
theorem Cleans.rbh_other (cleans : Cleans s oldCb newCb round next)
    (different : other ≠ oldCb) : next.rbh other = s.rbh other ∨
      next.rbh other = { s.rbh other with migRbIdx := fun _ => false } := by
  cases cleans with
  | @cleaned middle src swapspace rb deleted resets isSrc isSwapspace isRb =>
      rw [rbh_modifyRbh_of_ne _ different]
      split
      · rw [rbh_setCbState]
        exact resets.rbh_other different
      · exact resets.rbh_other different

/-- What the end of a round makes of the table of the old server. -/
theorem Cleans.rbh_old (cleans : Cleans s oldCb newCb round next) :
    ∃ middle rb, Resets s oldCb newCb round.replicaIndex round.clientEvictRbIndex middle ∧
      next.rbh oldCb = (middle.rbh oldCb).withRbState rb .inactive := by
  cases cleans with
  | @cleaned middle src swapspace rb deleted resets isSrc isSwapspace isRb =>
      refine ⟨middle, rb, resets, ?_⟩
      rw [rbh_modifyRbh]
      split
      · rw [rbh_setCbState]
      · rfl

theorem Cleans.cState (cleans : Cleans s oldCb newCb round next) :
    (next.rbh oldCb).cState = .deleteRb ∨ (next.rbh oldCb).cState = .idle := by
  have deleted : (s.rbh oldCb).cState = .deleteRb := by
    cases cleans with
    | cleaned deleted => exact deleted
  obtain ⟨middle, rb, resets, same⟩ := cleans.rbh_old
  rw [same]
  cases resets with
  | unmarked clear =>
      left
      rcases rbh_clearNew s newCb oldCb with same | same
      · rw [same]
        exact deleted
      · rw [same]
        exact deleted
  | @cleared i row swapspace marked isRow isSwapspace =>
      right
      have some : (List.finRange maxMrSizeGb).any (s.rbh oldCb).migRbIdx = true :=
        List.any_eq_true.mpr ⟨i, List.mem_finRange i, marked⟩
      have idle : (((s.modifyRbh oldCb RemoteBlockHandler.clearMarked).setCbIndex row swapspace
          noCbMapped).rbh oldCb).cState = .idle := by
        rw [rbh_setCbIndex, rbh_modifyRbh]
        simp only [RemoteBlockHandler.clearMarked, some, if_true]
      rcases rbh_clearNew ((s.modifyRbh oldCb RemoteBlockHandler.clearMarked).setCbIndex row
        swapspace noCbMapped) newCb oldCb with same | same
      · rw [same]
        exact idle
      · rw [same]
        exact idle

/-- A block that is not marked keeps what it holds. -/
theorem Cleans.holding {i : Block} (cleans : Cleans s oldCb newCb round next)
    (unmarked : (s.rbh oldCb).migRbIdx i = false) :
    (next.rbh oldCb).holding i = (s.rbh oldCb).holding i := by
  obtain ⟨middle, rb, resets, same⟩ := cleans.rbh_old
  rw [same, RemoteBlockHandler.holding_withRbState]
  cases resets with
  | unmarked clear =>
      rcases rbh_clearNew s newCb oldCb with same | same
      · rw [same]
      · rw [same]
        rfl
  | @cleared j row swapspace marked isRow isSwapspace =>
      have kept : (((s.modifyRbh oldCb RemoteBlockHandler.clearMarked).setCbIndex row swapspace
          noCbMapped).rbh oldCb).holding i = (s.rbh oldCb).holding i := by
        rw [rbh_setCbIndex, rbh_modifyRbh]
        exact RemoteBlockHandler.holding_clearMarked unmarked
      rw [← kept]
      rcases rbh_clearNew ((s.modifyRbh oldCb RemoteBlockHandler.clearMarked).setCbIndex row
        swapspace noCbMapped) newCb oldCb with same | same
      · rw [same]
      · rw [same]
        rfl

theorem cbIndexMap_clearNew (s : ValetSession servers replicas) (newCb : Option (Fin servers)) :
    (s.clearNew newCb).cbIndexMap = s.cbIndexMap := by
  cases newCb <;> rfl

/-- The end of a round changes at most the mapping that the round names. -/
theorem Cleans.forward {row : Fin (replicas + 1)} {swapspace : Swapspace}
    (cleans : Cleans s oldCb newCb round next)
    (other : (round.replicaIndex, round.clientEvictRbIndex) ≠ ((row.val : Int), (swapspace.val : Int))) :
    next.cbIndexMap row swapspace = s.cbIndexMap row swapspace := by
  cases cleans with
  | @cleaned middle src at_ rb deleted resets isSrc isAt isRb =>
      have kept : middle.cbIndexMap row swapspace = s.cbIndexMap row swapspace := by
        cases resets with
        | unmarked clear => rw [cbIndexMap_clearNew]
        | @cleared i resetRow resetAt marked isResetRow isResetAt =>
            rw [cbIndexMap_clearNew]
            rcases eq_or_ne row resetRow with rfl | differentRow
            · have different : swapspace ≠ resetAt := by
                rintro rfl
                exact other (by rw [isResetRow, isResetAt])
              simp [setCbIndex, modifyRbh, setCb, different]
            · simp [setCbIndex, modifyRbh, setCb, differentRow]
      split
      · exact kept
      · exact kept

end ValetSession

namespace Watched

open ValetSession

variable {servers replicas : Nat} {cb : Fin servers} {w next : Watched servers replicas}

/-- The end of a round. -/
theorem Tracked.clean {at_ : Fin servers} {round : Round} {newCb : Option (Fin servers)}
    {session : ValetSession servers replicas} (tracked : Tracked cb w)
    (waits : w.control.handler at_ = .waitDelete round newCb)
    (cleans : Cleans w.control.session at_ newCb round session) :
    Tracked cb { w with control := w.control.goOn at_ .waitEvict session } := by
  rcases eq_or_ne at_ cb with rfl | different
  · have inRound : (w.control.handler at_).round = some round := by rw [waits]; rfl
    have notPending : ¬ w.Pending at_ := by
      rintro ⟨between, _⟩
      rw [Between, inRound] at between
      cases between
    exact
      { log := by
          left
          refine ⟨?_, (tracked.log.resolve_right fun bad => notPending bad.1).2⟩
          rintro ⟨_, evict⟩
          rcases cleans.cState with deleted | idle
          · exact nomatch deleted.symm.trans evict
          · exact nomatch idle.symm.trans evict
        current := by
          intro other again
          rw [Control.handler_goOn] at again
          cases again
        done := by
          intro awaits
          rw [Control.handler_goOn] at awaits
          cases awaits
        deleted := by
          intro awaits
          rw [Control.handler_goOn] at awaits
          cases awaits }
  · rcases cleans.rbh_other different.symm with same | same
    · exact tracked.other different (by rw [same]; rfl)
    · refine tracked.frame (Control.handler_goOn_of_ne _ different.symm _ _) (Or.inl ?_)
        (Or.inl ?_) (Or.inl ?_)
      · rw [Control.session_goOn, same]
        rfl
      · rw [Control.session_goOn, same]
        rfl
      · rw [Control.session_goOn, same]
        exact fun _ bad => nomatch bad

theorem Tracked.remap {at_ newCb : Fin servers} {round : Round} {dest : Dest}
    {session : ValetSession servers replicas} (tracked : Tracked cb w)
    (waits : w.control.handler at_ = .waitDone round newCb dest)
    (safe : at_ ≠ cb → newCb = cb → ¬ w.Unseen cb)
    (remaps : Remaps w.control.session at_ newCb round dest session) :
    Tracked cb { w with
      control := w.control.goOn at_ (.copyBitmap round newCb dest) session } := by
  cases remaps with
  | @moved swapspace done isSwapspace =>
      have rest : (((w.control.session.setCbIndex 0 swapspace dest.cbIndex).setRb 0 swapspace
          dest.rbIndex).modifyRbh newCb fun rbh => { rbh with cState := .ready }).rbh cb =
            if newCb = cb then { w.rbh cb with cState := .ready } else w.rbh cb := by
        split
        · rename_i same
          subst same
          rw [rbh_modifyRbh]
          rfl
        · rename_i different
          rw [rbh_modifyRbh_of_ne _ (Ne.symm different)]
          rfl
      rcases eq_or_ne at_ cb with rfl | different
      · refine tracked.goOn (by rw [waits]; rfl) rfl ?_ (fun bad => nomatch bad)
          (fun bad => nomatch bad)
        rw [rest]
        split <;> rfl
      · rcases eq_or_ne newCb cb with same | other
        · refine tracked.frame (Control.handler_goOn_of_ne _ different.symm _ _)
            (Or.inr ⟨safe different same, ?_⟩) (Or.inl ?_) (Or.inl ?_)
          · rw [Control.session_goOn, rest, if_pos same]
            exact fun bad => nomatch bad
          · rw [Control.session_goOn, rest, if_pos same]
            rfl
          · rw [Control.session_goOn, rest, if_pos same]
            exact fun _ mark => mark
        · refine tracked.other different ?_
          rw [rest, if_neg other]

/-- `DELETE_RB` is posted, and its completion is awaited. -/
theorem Tracked.postDelete {round : Round} {newCb : Option (Fin servers)}
    {c : Control servers replicas} {deletes : Nat} (tracked : Tracked cb w)
    (sends : w.control.handler cb = .sendDelete round newCb)
    (waits : c.handler cb = .waitDelete round newCb) (same : c.session.rbh cb = w.rbh cb) :
    Tracked cb { w with control := c, deletes := deletes, deleteSeen := false } := by
  have before : (w.control.handler cb).round = some round := by rw [sends]; rfl
  have after : (c.handler cb).round = some round := by rw [waits]; rfl
  obtain ⟨evict, current, named, blocks⟩ := tracked.current round before
  have notPending : ¬ w.Pending cb := by
    rintro ⟨between, _⟩
    rw [Between, before] at between
    cases between
  exact
    { log := by
        left
        refine ⟨?_, (tracked.log.resolve_right fun bad => notPending bad.1).2⟩
        rintro ⟨between, _⟩
        exact nomatch after.symm.trans between
      current := by
        intro other again
        cases after.symm.trans again
        exact ⟨evict, current, named, fun i mark => blocks i (same ▸ mark)⟩
      done := by
        intro awaits
        have awaited : (c.handler cb).awaited = some .deleteRb := by rw [waits]; rfl
        exact nomatch awaited.symm.trans awaits
      deleted := fun _ seen => nomatch seen }

theorem Tracked.step {label : ControlLabel servers replicas} (tracked : Tracked cb w)
    (guard : UndisturbedStep cb w label) (edge : w.step cb label = some next) :
    Tracked cb next := by
  obtain ⟨c, moved, rfl⟩ := Option.map_eq_some_iff.mp edge
  cases Control.moves_of_step moved with
  | ask =>
      refine tracked.same rfl ?_
      dsimp only
      rw [rbh_queried]
      rfl
  | getFinding | getMapped | noNodes => exact tracked.same rfl rfl
  | chooseNodes =>
      refine tracked.same rfl ?_
      unfold Control.chooseNodes
      dsimp only
      rw [rbh_requestMrMap, rbh_foldl_queried]
      rfl
  | mapRow =>
      unfold Control.mapRow
      dsimp only
      split
      · refine tracked.same rfl ?_
        dsimp only
        rw [rbh_requestMrMap]
        rfl
      · exact tracked.same rfl rfl
  | @recv at_ recv session receives =>
      rcases eq_or_ne at_ cb with rfl | different
      · exact tracked.recv guard receives
      · have unrecorded : w.record cb { w.control with
            session := session
            handedOut := Function.update w.control.handedOut at_ fun i =>
              recv.offers i || w.control.handedOut at_ i } (.recv at_ recv) =
            { w with control := { w.control with
              session := session
              handedOut := Function.update w.control.handedOut at_ fun i =>
                recv.offers i || w.control.handedOut at_ i } } := by
          cases recv with
          | query => rfl
          | message msg =>
              rw [record, if_neg fun both => different both.1, if_neg fun both => different both.1]
        rw [unrecorded]
        refine tracked.same rfl ?_
        dsimp only
        rw [receives.rbh_of_ne different.symm]
        rfl
  | sendDone => exact tracked.sendDone guard
  | @takeEvict at_ round session waits takes =>
      rcases eq_or_ne at_ cb with rfl | different
      · exact tracked.takeEvict waits takes
      · rw [record, if_neg different]
        refine tracked.other different ?_
        cases takes with
        | taken => exact slots_modifyRbh fun _ => rfl
  | @noDest at_ round finding =>
      rcases eq_or_ne at_ cb with rfl | different
      · exact tracked.goOn (by rw [finding]; rfl) rfl rfl (fun bad => nomatch bad)
          (fun bad => nomatch bad)
      · exact tracked.other different rfl
  | @chooseDest at_ newCb round change finding =>
      have same : (((w.control.session.queried newCb).modifySendBuf newCb change).rbh cb) =
          w.rbh cb := by
        rw [rbh_modifySendBuf, rbh_queried]
        rfl
      rcases eq_or_ne at_ cb with rfl | different
      · refine tracked.goOn (by rw [finding]; rfl) rfl (by rw [same]) (fun _ => ?_)
          (fun bad => nomatch bad)
        exact ⟨by rw [finding]; rfl, by rw [same]⟩
      · exact tracked.other different (by rw [same])
  | @readSlot at_ newCb round waits arrived =>
      rcases eq_or_ne at_ cb with rfl | different
      · exact tracked.goOn (by rw [waits]; rfl) rfl rfl (fun _ => ⟨by rw [waits]; rfl, rfl⟩)
          (fun bad => nomatch bad)
      · exact tracked.other different rfl
  | @remap at_ newCb round dest session waits remaps =>
      refine tracked.remap waits (fun different => ?_) remaps
      have disturbs := guard.undisturbed different
      rwa [waits] at disturbs
  | @copyBitmap at_ newCb round dest session remapped copies =>
      cases copies with
      | @copied destRb srcRb bitmap isDest isSrc source =>
          have slots : ((w.control.session.modifyRbh newCb
              fun rbh => rbh.withBitmap destRb bitmap).rbh cb).slots = (w.rbh cb).slots :=
            slots_modifyRbh fun _ => rfl
          rcases eq_or_ne at_ cb with rfl | different
          · exact tracked.goOn (by rw [remapped]; rfl) rfl (Prod.mk.inj (Prod.mk.inj slots).2).2
              (fun bad => nomatch bad) (fun bad => nomatch bad)
          · exact tracked.other different slots
  | @postDelete at_ round newCb sends =>
      have same : (w.control.session.sendDeleteRb at_).rbh cb = w.rbh cb := by
        rw [rbh_sendDeleteRb]
        rfl
      rcases eq_or_ne at_ cb with rfl | different
      · rw [record, if_pos rfl]
        exact tracked.postDelete sends (Function.update_self ..) same
      · rw [record, if_neg different]
        exact tracked.same (Function.update_of_ne different.symm ..)
          (by dsimp only; rw [Control.session_goOn, same])
  | clean waits cleans => exact tracked.clean waits cleans

theorem tracked_init : Tracked cb (init : Watched servers replicas) where
  log := Or.inl ⟨fun pending => (nomatch pending.2), rfl⟩
  current := fun _ bad => nomatch bad
  done := fun bad => nomatch bad
  deleted := fun bad => nomatch bad

/-- The end of a round in a tracked state clears what its `EVICT` named. -/
theorem Tracked.clears (tracked : Tracked cb w) (edge : w.step cb (.clean cb) = some next) :
    ∃ evict, w.current = some evict ∧ ClearsNamed cb evict w next := by
  obtain ⟨c, moved, rfl⟩ := Option.map_eq_some_iff.mp edge
  cases Control.moves_of_step moved with
  | @clean _ round newCb session waits cleans =>
      obtain ⟨evict, current, named, blocks⟩ := tracked.current round (by rw [waits]; rfl)
      refine ⟨evict, current, ?_⟩
      have kept : ∀ i, evict.rkey i = 0 →
          (session.rbh cb).holding i = (w.rbh cb).holding i := by
        intro i keyless
        refine cleans.holding (Bool.eq_false_iff.mpr fun mark => ?_)
        exact blocks i mark keyless
      simp only [RemoteBlockHandler.holding, Prod.mk.injEq] at kept
      exact
        { key := fun i keyless => (kept i keyless).1
          addr := fun i keyless => (kept i keyless).2.1
          bitmap := fun i keyless => (kept i keyless).2.2.1
          mapped := fun i keyless => (kept i keyless).2.2.2.1
          inverse := fun i keyless => (kept i keyless).2.2.2.2
          forward := by
            intro row swapspace other
            refine cleans.forward ?_
            rw [named]
            exact other }

/-- As long as `EVICT`s arrive between rounds and nothing is overwritten that the handler has yet
to see, no `EVICT` is lost and a clean-up touches the evicted block only. -/
theorem evicts_kept {labels : List (ControlLabel servers replicas)}
    {last : Watched servers replicas}
    (run : Run (step cb) (UndisturbedStep cb) init labels last) :
    Kept cb last ∧ ∀ next, last.step cb (.clean cb) = some next →
      ∃ evict, last.current = some evict ∧ ClearsNamed cb evict last next := by
  have tracked : Tracked cb last :=
    run.preserves (fun tracked guard edge => tracked.step guard edge) tracked_init
  exact ⟨tracked.kept, fun next edge => tracked.clears edge⟩

instance (w : Watched servers replicas) : Decidable (w.Between cb) :=
  inferInstanceAs (Decidable (_ = _))

instance (w : Watched servers replicas) : Decidable (w.Pending cb) :=
  inferInstanceAs (Decidable (_ ∧ _))

instance (w : Watched servers replicas) : Decidable (w.Unseen cb) :=
  inferInstanceAs (Decidable (_ = _))

instance (w : Watched servers replicas) (label : ControlLabel servers replicas) :
    Decidable (EvictsInTurn cb w label) := by
  apply @ControlLabel.casesOn _ _ (fun label => Decidable (EvictsInTurn cb w label)) label <;>
    intros
  case recv at_ recv =>
    match recv with
    | .query _ | .message _ => unfold EvictsInTurn; infer_instance
  all_goals unfold EvictsInTurn; infer_instance

instance (w : Watched servers replicas) (label : ControlLabel servers replicas) :
    Decidable (Undisturbed cb w label) := by
  apply @ControlLabel.casesOn _ _ (fun label => Decidable (Undisturbed cb w label)) label <;> intros
  case recv at_ recv =>
    match recv with
    | .query _ => exact isTrue trivial
    | .message msg =>
        unfold Undisturbed
        dsimp only
        match msg.type with
        | .evict | .respMigMap | .respMrMap | .doneMigration | .done | .reqQuery | .respQuery
        | .reqMrMap | .reqMigMap | .reqMigration | .deleteRb => infer_instance
  case remap at_ =>
    unfold Undisturbed
    dsimp only
    match w.control.handler at_ with
    | .waitEvict | .findDest _ | .waitMigMap .. | .waitDone .. | .copyBitmap .. | .sendDelete ..
    | .waitDelete .. => infer_instance
  all_goals unfold Undisturbed; infer_instance

instance (w : Watched servers replicas) (label : ControlLabel servers replicas) :
    Decidable (UndisturbedStep cb w label) :=
  decidable_of_iff (EvictsInTurn cb w label ∧ Undisturbed cb w label)
    ⟨fun ⟨turn, undisturbed⟩ => ⟨turn, undisturbed⟩,
      fun both => ⟨both.turn, both.undisturbed⟩⟩

/-- A first write to the swapspace maps it to the block. -/
def mapTo (swapspace : Swapspace) (rb : Block) : List (ControlLabel 1 0) :=
  [.getCb swapspace, .chooseNodes fun _ => 0,
    .recv 0 (.message (blockMessage .respMrMap 0 swapspace rb)), .mapRow]

/-- Two swapspaces are mapped; the first is evicted without a destination, up to the
`DELETE_RB`. -/
def evictionSent : List (ControlLabel 1 0) :=
  mapTo firstSwapspace firstBlock ++ mapTo Control.secondSwapspace Control.secondBlock ++
    [.recv 0 (.message (blockMessage .evict 0 firstSwapspace firstBlock)), .takeEvict 0, .noDest 0,
      .postDelete 0, .sendDone 0]

/-- The server evicts the other block. -/
def evictSecond : ControlLabel 1 0 :=
  .recv 0 (.message (blockMessage .evict 0 Control.secondSwapspace Control.secondBlock))

/-- The server evicts again once the round is over. -/
def secondEviction : List (ControlLabel 1 0) :=
  evictionSent ++ [.clean 0, evictSecond]

theorem evicts_kept_second : ∃ last : Watched 1 0,
    exec (step 0) init secondEviction = some last ∧ Kept 0 last := by
  have ran : (exec (guardedStep (step 0) (UndisturbedStep 0)) (init : Watched 1 0)
      secondEviction).isSome = true := by
    decide +kernel
  obtain ⟨last, guarded⟩ := Option.isSome_iff_exists.mp ran
  have run := run_of_guarded guarded
  exact ⟨last, run.exec_eq, (evicts_kept run).1⟩

/-- The second `EVICT` arrives after the `DELETE_RB`, before the handler has seen that it was
sent. -/
def hurriedEviction : List (ControlLabel 1 0) :=
  evictionSent ++ [evictSecond]

/-- The handler waits for a value that is gone. -/
theorem hurriedEviction_overwrites : ¬ ∀ (labels : List (ControlLabel 1 0)) (last : Watched 1 0),
    Run (step 0) (EvictsInTurn 0) init labels last → Kept 0 last := by
  intro claim
  have gone : ((exec (guardedStep (step 0) (EvictsInTurn 0)) (init : Watched 1 0)
      hurriedEviction).map fun last =>
        ((last.control.handler 0).awaited, last.deleteSeen, (last.rbh 0).cState)) =
          some (some .deleteRb, true, .evict) := by
    decide +kernel
  obtain ⟨last, guarded, same⟩ := Option.map_eq_some_iff.mp gone
  obtain ⟨awaits, seen, state⟩ : (last.control.handler 0).awaited = some .deleteRb ∧
      last.deleteSeen = true ∧ (last.rbh 0).cState = .evict := by
    simpa using same
  have kept := claim hurriedEviction last (run_of_guarded guarded)
  cases at_ : last.control.handler 0 with
  | waitDelete round newCb =>
      have deleted := kept.deleted round newCb at_ seen
      rw [state] at deleted
      cases deleted
  | waitEvict | findDest | waitMigMap | waitDone | copyBitmap | sendDelete =>
      rw [at_] at awaits
      cases awaits

end Watched

end Valet.Bd
