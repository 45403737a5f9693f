import Valet.Bd.Borrower

/-!
# The tables of a borrower

A block that a client has in its tables is one that it holds, and a row that
leads anywhere leads to such a block.  Between `DELETE_RB` and the end of its
round a block is in the tables though it is given back; what arrives then must
not be about blocks, and the end of a round must clear the row that leads to it.
-/

namespace Valet.Bd

open Valet.Wire Valet.Library Valet.Daemon

/-- Where a block lies, if it is mapped. -/
def RemoteBlockHandler.entry (rbh : RemoteBlockHandler) (i : Block) : Option IbvMr :=
  if rbh.remoteMapped i then
    some ⟨(rbh.remoteBlock i).remoteAddr, (rbh.remoteBlock i).remoteRkey⟩
  else
    none

/-- A block with a swapspace is mapped. -/
def RemoteBlockHandler.Listed (rbh : RemoteBlockHandler) : Prop :=
  ∀ i, rbh.rbIdxMap i ≠ -1 → rbh.remoteMapped i = true

/-- The message changes marks or blocks. -/
def Received.isAboutBlocks : Received → Bool
  | .query _ => false
  | .message msg => decide (msg.type = .respMrMap ∨ msg.type = .respMigMap ∨ msg.type = .evict)

/-- The step receives a message, gives a block back or ends a round. -/
def ControlLabel.movesBlocks {servers replicas : Nat} : ControlLabel servers replicas → Bool
  | .recv _ _ | .postDelete _ | .clean _ => true
  | _ => false

/-- The step receives a message or leads a row elsewhere. -/
def ControlLabel.movesRows {servers replicas : Nat} : ControlLabel servers replicas → Bool
  | .recv _ _ | .remap _ | .clean _ => true
  | _ => false

/-- The server that the round of a handler has moved its block to. -/
def HandlerPc.destination {servers : Nat} : HandlerPc servers → Option (Fin servers)
  | .waitDelete _ newCb => newCb
  | _ => none

namespace RemoteBlockHandler

variable {rbh : RemoteBlockHandler} {i : Block} {mr : IbvMr}

theorem entry_eq_some : rbh.entry i = some mr ↔ rbh.remoteMapped i = true ∧
    (⟨(rbh.remoteBlock i).remoteAddr, (rbh.remoteBlock i).remoteRkey⟩ : IbvMr) = mr := by
  unfold entry
  split
  · rename_i mapped
    simp [mapped]
  · rename_i unmapped
    simp [unmapped]

theorem entry_withRbState (rb : Block) (state : RemoteBlockState) :
    (rbh.withRbState rb state).entry = rbh.entry := by
  funext i
  unfold entry withRbState
  rcases eq_or_ne i rb with rfl | different
  · simp
  · simp [different]

theorem entry_withBitmap (rb : Block) (bitmap : Nat → Bool) :
    (rbh.withBitmap rb bitmap).entry = rbh.entry := by
  funext i
  unfold entry withBitmap
  rcases eq_or_ne i rb with rfl | different
  · simp
  · simp [different]

/-- Clearing the marked blocks takes them out, and changes no other. -/
theorem entry_clearMarked (here : rbh.clearMarked.entry i = some mr) :
    rbh.migRbIdx i = false ∧ rbh.entry i = some mr := by
  obtain ⟨mapped, same⟩ := entry_eq_some.mp here
  have parts : rbh.remoteMapped i = true ∧ rbh.migRbIdx i = false := by
    simpa [clearMarked] using mapped
  refine ⟨parts.2, entry_eq_some.mpr ⟨parts.1, ?_⟩⟩
  rw [← same]
  simp [clearMarked, parts.2]

theorem Listed.clearMarked (listed : rbh.Listed) : rbh.clearMarked.Listed := by
  intro i has
  unfold RemoteBlockHandler.clearMarked at has ⊢
  dsimp only at has ⊢
  cases mark : rbh.migRbIdx i with
  | true =>
      rw [mark, if_pos rfl] at has
      exact absurd rfl has
  | false =>
      rw [mark] at has
      rw [listed i has]
      rfl

theorem Listed.of_eq {other : RemoteBlockHandler} (listed : rbh.Listed)
    (inverse : other.rbIdxMap = rbh.rbIdxMap) (mapped : other.remoteMapped = rbh.remoteMapped) :
    other.Listed := by
  intro i has
  rw [inverse] at has
  rw [mapped]
  exact listed i has

end RemoteBlockHandler

/-- Entries, inverse table and keys are the same. -/
structure SameEntries (rbh next : RemoteBlockHandler) : Prop where
  entry : next.entry = rbh.entry
  inverse : next.rbIdxMap = rbh.rbIdxMap
  mapped : next.remoteMapped = rbh.remoteMapped
  keys : ∀ i, (next.remoteBlock i).remoteRkey = (rbh.remoteBlock i).remoteRkey

theorem sameEntries_of_blocks {rbh next : RemoteBlockHandler}
    (blocks : next.remoteBlock = rbh.remoteBlock) (inverse : next.rbIdxMap = rbh.rbIdxMap)
    (mapped : next.remoteMapped = rbh.remoteMapped) : SameEntries rbh next := by
  refine ⟨?_, inverse, mapped, fun i => by rw [blocks]⟩
  funext i
  unfold RemoteBlockHandler.entry
  rw [blocks, mapped]

theorem sameEntries_refl (rbh : RemoteBlockHandler) : SameEntries rbh rbh :=
  ⟨rfl, rfl, rfl, fun _ => rfl⟩

theorem sameEntries_withRbState (rbh : RemoteBlockHandler) (rb : Block) (state : RemoteBlockState) :
    SameEntries rbh (rbh.withRbState rb state) :=
  ⟨RemoteBlockHandler.entry_withRbState rb state, rfl, rfl, fun i => by
    unfold RemoteBlockHandler.withRbState
    rcases eq_or_ne i rb with rfl | different
    · simp
    · simp [different]⟩

theorem sameEntries_withBitmap (rbh : RemoteBlockHandler) (rb : Block) (bitmap : Nat → Bool) :
    SameEntries rbh (rbh.withBitmap rb bitmap) :=
  ⟨RemoteBlockHandler.entry_withBitmap rb bitmap, rfl, rfl, fun i => by
    unfold RemoteBlockHandler.withBitmap
    rcases eq_or_ne i rb with rfl | different
    · simp
    · simp [different]⟩

namespace ValetSession

variable {servers replicas : Nat} {s next : ValetSession servers replicas} {cb : Fin servers}

theorem sameEntries_sendDone (at_ : Fin servers) :
    SameEntries (s.rbh cb) ((s.sendDone at_).rbh cb) := by
  unfold sendDone
  split
  · exact sameEntries_refl _
  · split
    · rw [rbh_setState]
      exact sameEntries_refl _
    · split
      · rcases eq_or_ne cb at_ with rfl | different
        · rw [rbh_modifyRbh]
          exact sameEntries_of_blocks rfl rfl rfl
        · rw [rbh_modifyRbh_of_ne _ different]
          exact sameEntries_refl _
      · exact sameEntries_refl _

/-- The end of a round leaves other servers but for its destination alone. -/
theorem rbh_of_cleans {at_ : Fin servers} {newCb : Option (Fin servers)} {round : Round}
    (cleans : Cleans s at_ newCb round next) (different : cb ≠ at_) (elsewhere : newCb ≠ some cb) :
    next.rbh cb = s.rbh cb := by
  have clearNew (now : ValetSession servers replicas) : (now.clearNew newCb).rbh cb = now.rbh cb := by
    cases newCb with
    | none => rfl
    | some newCb =>
        have other : cb ≠ newCb := fun same => elsewhere (by rw [same])
        rw [ValetSession.clearNew, rbh_modifyRbh_of_ne _ other]
  cases cleans with
  | @cleaned middle src swapspace rb deleted resets isSrc isSwapspace isRb =>
      have reset : middle.rbh cb = s.rbh cb := by
        cases resets with
        | unmarked clear => exact clearNew s
        | cleared marked isRow isAt =>
            rw [clearNew, rbh_setCbIndex, rbh_modifyRbh_of_ne _ different]
      rw [rbh_modifyRbh_of_ne _ different]
      split
      · rw [rbh_setCbState, reset]
      · exact reset

end ValetSession

namespace Control

open ValetSession

variable {servers replicas : Nat} (m : Control servers replicas) (cb : Fin servers)

/-- The block is given back, and its round has not cleared it yet. -/
def Leaving (i : Block) : Prop :=
  (m.handler cb).deleting = true ∧ (m.session.rbh cb).migRbIdx i = true

/-- What is in the tables for a server is what it has lent, but for a block that is leaving. -/
structure Backed (lent : Block → Option IbvMr) : Prop where
  entries : ∀ i mr, (m.session.rbh cb).entry i = some mr →
    m.Leaving cb i ∨ (m.handedOut cb i = true ∧ lent i = some mr)
  listed : (m.session.rbh cb).Listed

/-- Rows lead to mapped blocks. -/
def LeadsMapped : Prop :=
  ∀ row swapspace cb i, m.session.Leads row swapspace cb i →
    (m.session.rbh cb).remoteMapped i = true

/-- A round ends that leaves other rounds alone, and the row that it unmaps is the one that leads to
its block. -/
structure EndsCalm : Prop where
  ends : ∀ newCb ∈ (m.handler cb).destination, newCb ≠ cb → (m.handler newCb).deleting = false
  clears : ∀ round ∈ (m.handler cb).round, ∀ i, (m.session.rbh cb).migRbIdx i = true →
    ∀ row swapspace, m.session.Leads row swapspace cb i →
      round.replicaIndex = row.val ∧ round.clientEvictRbIndex = swapspace.val

/-- Nothing about blocks arrives, and no other round ends, on a server between its `DELETE_RB`
and the end of its round; a remap goes to a block that was handed out for its swapspace. -/
def Calm : ControlLabel servers replicas → Prop
  | .recv cb recv => recv.isAboutBlocks = true → (m.handler cb).deleting = false
  | .remap cb => RemapsOwn m (.remap cb)
  | .clean cb => m.EndsCalm cb
  | _ => True

variable {m cb} {next : Control servers replicas} {lent : Block → Option IbvMr}

theorem Calm.remaps {label : ControlLabel servers replicas} (calm : m.Calm label) :
    RemapsOwn m label := by
  cases label with
  | remap at_ => exact calm
  | _ => exact trivial

/-- A step that changes neither the entries nor the marks, nor who deletes. -/
theorem Backed.keep (backed : m.Backed cb lent)
    (same : SameEntries (m.session.rbh cb) (next.session.rbh cb))
    (marks : (next.session.rbh cb).migRbIdx = (m.session.rbh cb).migRbIdx)
    (deleting : (next.handler cb).deleting = (m.handler cb).deleting)
    (held : next.handedOut cb = m.handedOut cb) : next.Backed cb lent where
  entries := by
    intro i mr has
    rw [same.entry] at has
    rcases backed.entries i mr has with leaving | own
    · left
      unfold Leaving
      rw [deleting, marks]
      exact leaving
    · right
      rw [held]
      exact own
  listed := backed.listed.of_eq same.inverse same.mapped

/-- With no block leaving, all entries are of blocks that the client holds. -/
theorem Backed.own (backed : m.Backed cb lent) (still : (m.handler cb).deleting = false)
    {i : Block} {mr : IbvMr} (has : (m.session.rbh cb).entry i = some mr) :
    m.handedOut cb i = true ∧ lent i = some mr := by
  rcases backed.entries i mr has with leaving | own
  · have deletes := leaving.1
    rw [still] at deletes
    cases deletes
  · exact own

/-- What the server does elsewhere leaves the tables those of what is lent. -/
theorem Backed.relent {now : Block → Option IbvMr} (backed : m.Backed cb lent)
    (same : ∀ i, m.handedOut cb i = true → now i = lent i) : m.Backed cb now where
  entries := by
    intro i mr has
    rcases backed.entries i mr has with leaving | own
    · exact Or.inl leaving
    · right
      rw [same i own.1]
      exact own
  listed := backed.listed

/-- `DELETE_RB` is posted: the marked block is leaving. -/
theorem Backed.postDelete {at_ : Fin servers} {round : Round} {newCb : Option (Fin servers)}
    (backed : m.Backed cb lent) (sends : m.handler at_ = .sendDelete round newCb)
    (isNext : next = { m.goOn at_ (.waitDelete round newCb) (m.session.sendDeleteRb at_) with
      handedOut := Function.update m.handedOut at_ fun i =>
        m.handedOut at_ i && !(m.session.rbh at_).migRbIdx i }) : next.Backed cb lent := by
  have rbh : next.session.rbh cb = m.session.rbh cb := by
    rw [isNext]
    exact rbh_sendDeleteRb m.session at_ cb
  rcases eq_or_ne cb at_ with rfl | different
  · have handler : next.handler cb = .waitDelete round newCb := by
      rw [isNext]
      exact handler_goOn m cb (.waitDelete round newCb) (m.session.sendDeleteRb cb)
    refine ⟨fun i mr has => ?_, by rw [rbh]; exact backed.listed⟩
    rw [rbh] at has
    obtain ⟨held, mine⟩ := backed.own (by rw [sends]; rfl) has
    cases mark : (m.session.rbh cb).migRbIdx i with
    | true =>
        left
        refine ⟨by rw [handler]; rfl, ?_⟩
        rw [rbh]
        exact mark
    | false =>
        right
        refine ⟨?_, mine⟩
        rw [isNext]
        simp [held, mark]
  · refine backed.keep (by rw [rbh]; exact sameEntries_refl _) (by rw [rbh]) ?_ ?_
    · rw [isNext]
      have other := handler_goOn_of_ne m different (.waitDelete round newCb)
        (m.session.sendDeleteRb at_)
      exact congrArg HandlerPc.deleting other
    · rw [isNext]
      exact Function.update_of_ne different ..

/-- The end of a round: the block that was leaving is gone. -/
theorem Backed.clean {at_ : Fin servers} {round : Round} {newCb : Option (Fin servers)}
    {session : ValetSession servers replicas} (backed : m.Backed cb lent)
    (calm : m.Calm (.clean at_)) (waits : m.handler at_ = .waitDelete round newCb)
    (cleans : Cleans m.session at_ newCb round session) :
    (m.goOn at_ .waitEvict session).Backed cb lent := by
  rcases eq_or_ne cb at_ with rfl | different
  · obtain ⟨middle, rb, resets, same⟩ := cleans.rbh_old
    have entries := sameEntries_withRbState (middle.rbh cb) rb .inactive
    rw [← same] at entries
    have reset : (middle.rbh cb).Listed ∧ ∀ i mr, (middle.rbh cb).entry i = some mr →
        (m.session.rbh cb).migRbIdx i = false ∧ (m.session.rbh cb).entry i = some mr := by
      cases resets with
      | unmarked clear =>
          rcases rbh_clearNew m.session newCb cb with kept | cleared
          · rw [kept]
            exact ⟨backed.listed, fun i mr has => ⟨clear i, has⟩⟩
          · rw [cleared]
            exact ⟨backed.listed, fun i mr has => ⟨clear i, has⟩⟩
      | @cleared j row swapspace marked isRow isAt =>
          have table : (((m.session.modifyRbh cb RemoteBlockHandler.clearMarked).setCbIndex row
              swapspace noCbMapped).rbh cb) = (m.session.rbh cb).clearMarked := by
            rw [rbh_setCbIndex, rbh_modifyRbh]
          rcases rbh_clearNew ((m.session.modifyRbh cb RemoteBlockHandler.clearMarked).setCbIndex
            row swapspace noCbMapped) newCb cb with kept | cleared
          · rw [kept, table]
            exact ⟨backed.listed.clearMarked,
              fun i mr has => RemoteBlockHandler.entry_clearMarked has⟩
          · rw [cleared, table]
            exact ⟨backed.listed.clearMarked,
              fun i mr has => RemoteBlockHandler.entry_clearMarked has⟩
    refine ⟨fun i mr has => ?_, reset.1.of_eq entries.inverse entries.mapped⟩
    rw [session_goOn, entries.entry] at has
    obtain ⟨unmarked, before⟩ := reset.2 i mr has
    rcases backed.entries i mr before with leaving | own
    · have mark := leaving.2
      rw [unmarked] at mark
      cases mark
    · exact Or.inr own
  · have handler := handler_goOn_of_ne m different .waitEvict session
    by_cases elsewhere : newCb = some cb
    · -- the destination loses its marks, but has no block that is leaving
      have destination : (m.handler at_).destination = some cb := by
        rw [waits]
        exact elsewhere
      have still := calm.ends cb destination different
      have entries : SameEntries (m.session.rbh cb) (session.rbh cb) := by
        rcases cleans.rbh_other different with same | cleared
        · rw [same]
          exact sameEntries_refl _
        · rw [cleared]
          exact sameEntries_of_blocks rfl rfl rfl
      refine ⟨fun i mr has => ?_, backed.listed.of_eq entries.inverse entries.mapped⟩
      rw [session_goOn, entries.entry] at has
      exact Or.inr (backed.own still has)
    · have same := rbh_of_cleans cleans different elsewhere
      refine backed.keep ?_ ?_ (by rw [handler]) rfl
      · rw [session_goOn, same]
        exact sameEntries_refl _
      · rw [session_goOn, same]

/-- What most steps leave as it is. -/
structure Leaves (m next : Control servers replicas) (cb : Fin servers) : Prop where
  entries : SameEntries (m.session.rbh cb) (next.session.rbh cb)
  marks : (next.session.rbh cb).migRbIdx = (m.session.rbh cb).migRbIdx
  deleting : (next.handler cb).deleting = (m.handler cb).deleting
  held : next.handedOut cb = m.handedOut cb

theorem leaves_of_rbh {session : ValetSession servers replicas}
    {mapper : Option (MapperPc servers replicas)} (same : session.rbh cb = m.session.rbh cb) :
    Leaves m { m with session := session, mapper := mapper } cb where
  entries := by
    rw [← same]
    exact sameEntries_refl _
  marks := by
    rw [← same]
  deleting := rfl
  held := rfl

theorem leaves_goOn {at_ : Fin servers} {pc : HandlerPc servers}
    {session : ValetSession servers replicas} (before : (m.handler at_).deleting = false)
    (after : pc.deleting = false) (entries : SameEntries (m.session.rbh cb) (session.rbh cb))
    (marks : (session.rbh cb).migRbIdx = (m.session.rbh cb).migRbIdx) :
    Leaves m (m.goOn at_ pc session) cb where
  entries := entries
  marks := marks
  deleting := by
    rcases eq_or_ne cb at_ with rfl | different
    · rw [handler_goOn, before, after]
    · rw [handler_goOn_of_ne m different]
  held := rfl

theorem leaves_of_step {label : ControlLabel servers replicas} (plain : label.movesBlocks = false)
    (edge : m.step label = some next) (cb : Fin servers) : Leaves m next cb := by
  cases moves_of_step edge with
  | @ask at_ => exact leaves_of_rbh (rbh_queried m.session at_ cb)
  | getFinding | noNodes => exact leaves_of_rbh rfl
  | getMapped => exact ⟨sameEntries_refl _, rfl, rfl, rfl⟩
  | @chooseNodes selectIdx replicaList finding distinct =>
      refine leaves_of_rbh ?_
      rw [rbh_requestMrMap, rbh_foldl_queried]
  | @mapRow selectIdx replicaList row waiting arrived =>
      unfold Control.mapRow
      dsimp only
      split
      · exact leaves_of_rbh (rbh_requestMrMap _ _ _ _ _)
      · exact leaves_of_rbh rfl
  | recv => cases plain
  | @sendDone at_ => exact ⟨sameEntries_sendDone at_, migRbIdx_sendDone, rfl, rfl⟩
  | @takeEvict at_ round session waits takes =>
      refine leaves_goOn (by rw [waits]; rfl) rfl ?_ takes.migRbIdx
      cases takes with
      | taken evict isSrc isSwapspace isRb =>
          rcases eq_or_ne cb at_ with rfl | different
          · rw [rbh_modifyRbh, rbh_setCbState]
            exact sameEntries_withRbState _ _ _
          · rw [rbh_modifyRbh_of_ne _ different, rbh_setCbState]
            exact sameEntries_refl _
  | @noDest at_ round finding =>
      exact leaves_goOn (by rw [finding]; rfl) rfl (sameEntries_refl _) rfl
  | @chooseDest at_ newCb round change finding =>
      refine leaves_goOn (by rw [finding]; rfl) rfl ?_ ?_
      · rw [rbh_modifySendBuf, rbh_queried]
        exact sameEntries_refl _
      · rw [rbh_modifySendBuf, rbh_queried]
  | @readSlot at_ newCb round waits arrived =>
      exact leaves_goOn (by rw [waits]; rfl) rfl (sameEntries_refl _) rfl
  | @remap at_ newCb round dest session waits remaps =>
      refine leaves_goOn (by rw [waits]; rfl) rfl ?_ remaps.migRbIdx
      cases remaps with
      | moved done isSwapspace =>
          rcases eq_or_ne cb newCb with rfl | different
          · rw [rbh_modifyRbh, rbh_setRb, rbh_setCbIndex]
            exact sameEntries_of_blocks rfl rfl rfl
          · rw [rbh_modifyRbh_of_ne _ different, rbh_setRb, rbh_setCbIndex]
            exact sameEntries_refl _
  | @copyBitmap at_ newCb round dest session remapped copies =>
      refine leaves_goOn (by rw [remapped]; rfl) rfl ?_ copies.migRbIdx
      cases copies with
      | copied isDest isSrc source =>
          rcases eq_or_ne cb newCb with rfl | different
          · rw [rbh_modifyRbh]
            exact sameEntries_withBitmap _ _ _
          · rw [rbh_modifyRbh_of_ne _ different]
            exact sameEntries_refl _
  | postDelete => cases plain
  | clean => cases plain

/-- The entries after every step that is not about a received message. -/
theorem Backed.step {label : ControlLabel servers replicas} (backed : m.Backed cb lent)
    (calm : m.Calm label) (acts : ∀ at_ recv, label ≠ .recv at_ recv)
    (edge : m.step label = some next) : next.Backed cb lent := by
  cases moved : label with
  | postDelete at_ =>
      rw [moved] at edge
      cases moves_of_step edge with
      | postDelete sends => exact backed.postDelete sends rfl
  | clean at_ =>
      rw [moved] at edge calm
      cases moves_of_step edge with
      | clean waits cleans => exact backed.clean calm waits cleans
  | recv at_ recv => exact absurd moved (acts at_ recv)
  | ask | getCb | noNodes | chooseNodes | mapRow | sendDone | takeEvict | noDest | chooseDest
  | readSlot | remap | copyBitmap =>
      have leaves := leaves_of_step (by rw [moved]; rfl) edge cb
      exact backed.keep leaves.entries leaves.marks leaves.deleting leaves.held

/-! ## What arrives -/

/-- A message about blocks puts what it offers into the tables, and nothing else. -/
theorem entry_of_receives {s session : ValetSession servers replicas} {recv : Received}
    (clear : recv.Clear) (receives : Receives s cb recv session) {i : Block} {mr : IbvMr}
    (has : (session.rbh cb).entry i = some mr) :
    (s.rbh cb).entry i = some mr ∨ recv.notice = some (.offer i mr) := by
  cases receives with
  | ignored => exact Or.inl has
  | refused =>
      rw [rbh_setState] at has
      exact Or.inl has
  | query =>
      rw [rbh_setState, rbh_modifyRbh] at has
      exact Or.inl has
  | @migMap msg alive type =>
      rw [rbh_modifyRbh, rbh_setState] at has
      obtain ⟨mapped, same⟩ := RemoteBlockHandler.entry_eq_some.mp has
      by_cases keyed : msg.rkey i = 0
      · left
        apply RemoteBlockHandler.entry_eq_some.mpr
        constructor
        · simpa [RemoteBlockHandler.valetMigrationBlockInit, keyed] using mapped
        · rw [← same]
          simp [RemoteBlockHandler.valetMigrationBlockInit, keyed]
      · right
        have first := (clear.lone (Or.inr (Or.inl type))).firstRkey keyed
        show noticeOf msg = _
        unfold noticeOf
        rw [type, first, ← same]
        simp [RemoteBlockHandler.valetMigrationBlockInit, RemoteBlockHandler.RemoteBlock.mapped,
          keyed]
  | @mrMap msg _ alive type inits =>
      cases inits with
      | nothing =>
          rw [rbh_setState, rbh_setCbState] at has
          exact Or.inl has
      | @mapped j row select first isRow isSelect =>
          rw [rbh_setCbIndex, rbh_setRb, rbh_modifyRbh, rbh_setState, rbh_setCbState] at has
          obtain ⟨mapped, same⟩ := RemoteBlockHandler.entry_eq_some.mp has
          rcases eq_or_ne i j with rfl | different
          · right
            show noticeOf msg = _
            unfold noticeOf
            rw [type, first, ← same]
            simp [RemoteBlockHandler.mapBlock, RemoteBlockHandler.RemoteBlock.mapped]
          · left
            apply RemoteBlockHandler.entry_eq_some.mpr
            constructor
            · simpa [RemoteBlockHandler.mapBlock, different] using mapped
            · rw [← same]
              simp [RemoteBlockHandler.mapBlock, different]
  | done =>
      rw [rbh_modifyRbh, rbh_setState] at has
      exact Or.inl has
  | evict =>
      rw [rbh_modifyRbh, rbh_setState] at has
      exact Or.inl has

theorem listed_of_receives {s session : ValetSession servers replicas} {recv : Received}
    (listed : (s.rbh cb).Listed) (receives : Receives s cb recv session) :
    (session.rbh cb).Listed := by
  cases receives with
  | ignored => exact listed
  | refused =>
      rw [rbh_setState]
      exact listed
  | query =>
      rw [rbh_setState, rbh_modifyRbh]
      exact listed
  | @migMap msg alive type =>
      rw [rbh_modifyRbh, rbh_setState]
      intro i has
      by_cases keyed : msg.rkey i = 0
      · have before : (s.rbh cb).rbIdxMap i ≠ -1 := by
          simpa [RemoteBlockHandler.valetMigrationBlockInit, keyed] using has
        simp [RemoteBlockHandler.valetMigrationBlockInit, listed i before]
      · simp [RemoteBlockHandler.valetMigrationBlockInit, keyed]
  | @mrMap msg _ alive type inits =>
      cases inits with
      | nothing =>
          rw [rbh_setState, rbh_setCbState]
          exact listed
      | @mapped j row select first isRow isSelect =>
          rw [rbh_setCbIndex, rbh_setRb, rbh_modifyRbh, rbh_setState, rbh_setCbState]
          intro i has
          rcases eq_or_ne i j with rfl | different
          · simp [RemoteBlockHandler.mapBlock]
          · have before : (s.rbh cb).rbIdxMap i ≠ -1 := by
              simpa [RemoteBlockHandler.mapBlock, different] using has
            simp [RemoteBlockHandler.mapBlock, different, listed i before]
  | done =>
      rw [rbh_modifyRbh, rbh_setState]
      exact listed
  | evict =>
      rw [rbh_modifyRbh, rbh_setState]
      exact listed

/-- A message that arrives in time leaves the entries those of what is lent. -/
theorem Backed.recv {recv : Received} {at_ : Fin servers} (backed : m.Backed cb lent)
    (calm : m.Calm (.recv at_ recv)) (clear : recv.Clear)
    (keys : cb = at_ → ∀ i mr, recv.notice = some (.offer i mr) → lent i = some mr)
    (edge : m.step (.recv at_ recv) = some next) : next.Backed cb lent := by
  cases moves_of_step edge with
  | @recv _ _ session receives =>
      rcases eq_or_ne cb at_ with rfl | different
      · have more : ∀ i, m.handedOut cb i = true → Function.update m.handedOut cb
            (fun i => recv.offers i || m.handedOut cb i) cb i = true := by
          intro i held
          rw [Function.update_self, held, Bool.or_true]
        refine ⟨fun i mr has => ?_, listed_of_receives backed.listed receives⟩
        rcases entry_of_receives clear receives has with before | offer
        · rcases marks_of_receives receives with same | ⟨msg, rfl, type, _⟩
          · rcases backed.entries i mr before with leaving | own
            · left
              unfold Leaving
              dsimp only
              rw [same]
              exact leaving
            · exact Or.inr ⟨more i own.1, own.2⟩
          · have about : (Received.message msg).isAboutBlocks = true :=
              decide_eq_true (by tauto)
            have own := backed.own (calm about) before
            exact Or.inr ⟨more i own.1, own.2⟩
        · right
          refine ⟨?_, keys rfl i mr offer⟩
          show Function.update m.handedOut cb _ cb i = true
          rw [Function.update_self, Received.offers_of_notice offer, Bool.true_or]
      · have same := receives.rbh_of_ne different
        refine backed.keep ?_ ?_ rfl ?_
        · dsimp only
          rw [same]
          exact sameEntries_refl _
        · dsimp only
          rw [same]
        · exact Function.update_of_ne different ..

/-! ## Rows that lead to blocks -/

theorem leads_of_set {s : ValetSession servers replicas} {row at_ : Fin (replicas + 1)}
    {swapspace other : Swapspace} {cbIndex rbIndex : Int} {i : Block}
    (leads : ((s.setRb row swapspace rbIndex).setCbIndex row swapspace cbIndex).Leads at_ other cb
      i) :
    (cbIndex = cb.val ∧ rbIndex = i.val) ∨ s.Leads at_ other cb i := by
  rcases eq_or_ne at_ row with rfl | otherRow
  · rcases eq_or_ne other swapspace with rfl | different
    · left
      simpa [Leads, setRb, setCbIndex] using leads
    · right
      simpa [Leads, setRb, setCbIndex, different] using leads
  · right
    simpa [Leads, setRb, setCbIndex, otherRow] using leads

theorem leads_of_unmap {s : ValetSession servers replicas} {row at_ : Fin (replicas + 1)}
    {swapspace other : Swapspace} {i : Block}
    (leads : (s.setCbIndex row swapspace noCbMapped).Leads at_ other cb i) :
    s.Leads at_ other cb i ∧ ¬ (at_ = row ∧ other = swapspace) := by
  rcases eq_or_ne at_ row with rfl | otherRow
  · rcases eq_or_ne other swapspace with rfl | different
    · have unmapped : noCbMapped = cb.val := by simpa [setCbIndex] using leads.1
      unfold noCbMapped at unmapped
      omega
    · refine ⟨?_, fun both => different both.2⟩
      simpa [Leads, setCbIndex, different] using leads
  · refine ⟨?_, fun both => otherRow both.1⟩
    simpa [Leads, setCbIndex, otherRow] using leads

theorem sameMaps_of_step {label : ControlLabel servers replicas} (plain : label.movesRows = false)
    (edge : m.step label = some next) : SameMaps m.session next.session := by
  cases moves_of_step edge with
  | @ask at_ =>
      have loosens : Loosens m.session (m.session.queried at_) := loosens_foldl [at_]
      exact loosens.maps
  | getFinding | getMapped | noNodes | noDest | readSlot => exact ⟨rfl, rfl⟩
  | @chooseNodes selectIdx replicaList finding distinct =>
      have asked : Loosens m.session ((List.ofFn replicaList).foldl queried m.session) :=
        loosens_foldl _
      exact ⟨asked.maps.1, asked.maps.2⟩
  | @mapRow selectIdx replicaList row waiting arrived =>
      unfold Control.mapRow
      dsimp only
      split
      · exact ⟨rfl, rfl⟩
      · exact ⟨rfl, rfl⟩
  | recv => cases plain
  | sendDone => exact loosens_sendDone.maps
  | takeEvict waits takes =>
      cases takes with
      | taken evict isSrc isSwapspace isRb => exact ⟨rfl, rfl⟩
  | @chooseDest at_ newCb round change finding =>
      have asked : Loosens m.session (m.session.queried newCb) := loosens_foldl [newCb]
      exact ⟨asked.maps.1, asked.maps.2⟩
  | remap => cases plain
  | copyBitmap remapped copies =>
      cases copies with
      | copied isDest isSrc source => exact ⟨rfl, rfl⟩
  | postDelete => exact ⟨rfl, rfl⟩
  | clean => cases plain

theorem LeadsMapped.same (leads : m.LeadsMapped) (maps : SameMaps m.session next.session)
    (more : ∀ cb i, (m.session.rbh cb).remoteMapped i = true →
      (next.session.rbh cb).remoteMapped i = true) : next.LeadsMapped :=
  fun row swapspace cb i later => more cb i (leads row swapspace cb i (maps.leads.mp later))

/-- A remap leads to a block that was handed out. -/
theorem LeadsMapped.remap {at_ : Fin servers} (leads : m.LeadsMapped) (calm : m.Calm (.remap at_))
    (listed : ∀ cb, (m.session.rbh cb).Listed) (edge : m.step (.remap at_) = some next) :
    next.LeadsMapped := by
  have entries (cb : Fin servers) := (leaves_of_step rfl edge cb).entries
  cases moves_of_step edge with
  | @remap _ newCb round dest session waits remaps =>
      have own : RemapsOwn m (.remap at_) := calm
      rw [RemapsOwn, waits] at own
      obtain ⟨destCb, isServer, rb, isBlock, owner⟩ := own
      intro row swapspace cb i later
      rw [(entries cb).mapped]
      cases remaps with
      | @moved at_ done isSwapspace =>
          have later : ((m.session.setRb 0 at_ dest.rbIndex).setCbIndex 0 at_
              dest.cbIndex).Leads row swapspace cb i := later
          rcases leads_of_set later with ⟨sameCb, sameRb⟩ | before
          · have isCb : destCb = cb := Fin.ext (by omega)
            have isRb : rb = i := Fin.ext (by omega)
            subst isCb
            subst isRb
            refine listed destCb rb ?_
            rw [owner, isSwapspace]
            omega
          · exact leads row swapspace cb i before

/-- The end of a round unmaps what leads to the block that it clears. -/
theorem LeadsMapped.clean {at_ : Fin servers} (leads : m.LeadsMapped) (calm : m.Calm (.clean at_))
    (edge : m.step (.clean at_) = some next) : next.LeadsMapped := by
  cases moves_of_step edge with
  | @clean _ round newCb session waits cleans =>
      intro row swapspace cb i later
      have unmaps : m.session.Leads row swapspace cb i ∧
          (cb = at_ → (m.session.rbh at_).migRbIdx i = false) := by
        cases cleans with
        | @cleaned middle src at' rb deleted resets isSrc isSwapspace isRb =>
            have reset : middle.Leads row swapspace cb i := by
              revert later
              rw [session_goOn]
              split
              · exact id
              · exact id
            cases resets with
            | unmarked clear =>
                refine ⟨?_, fun _ => clear i⟩
                cases newCb with
                | none => exact reset
                | some newCb => exact reset
            | @cleared j row' swapspace' marked isRow isAt =>
                have unmapped : ((m.session.modifyRbh at_
                    RemoteBlockHandler.clearMarked).setCbIndex row' swapspace' noCbMapped).Leads row
                      swapspace cb i := by
                  cases newCb with
                  | none => exact reset
                  | some newCb => exact reset
                obtain ⟨before, apart⟩ := leads_of_unmap unmapped
                have before : m.session.Leads row swapspace cb i := before
                refine ⟨before, ?_⟩
                rintro rfl
                by_contra mark
                obtain ⟨sameRow, sameAt⟩ := calm.clears round (by rw [waits]; rfl) i
                  (eq_true_of_ne_false mark) row swapspace before
                exact apart ⟨Fin.ext (by omega), Fin.ext (by omega)⟩
      have mapped := leads row swapspace cb i unmaps.1
      rcases eq_or_ne cb at_ with rfl | different
      · have holding := cleans.holding (unmaps.2 rfl)
        have same := congrArg (fun held => held.2.2.2.1) holding
        exact same.trans mapped
      · rw [session_goOn]
        rcases cleans.rbh_other different with same | cleared
        · rw [same]
          exact mapped
        · rw [cleared]
          exact mapped

/-- A reply that maps a row leads it to the block that it hands out. -/
theorem LeadsMapped.recv {recv : Received} {at_ : Fin servers} (leads : m.LeadsMapped)
    (edge : m.step (.recv at_ recv) = some next) : next.LeadsMapped := by
  cases moves_of_step edge with
  | @recv _ _ session receives =>
      have other (cb : Fin servers) (different : cb ≠ at_) (i : Block)
          (mapped : (m.session.rbh cb).remoteMapped i = true) :
          (session.rbh cb).remoteMapped i = true := by
        rw [receives.rbh_of_ne different]
        exact mapped
      have here (i : Block) (mapped : (m.session.rbh at_).remoteMapped i = true) :
          (session.rbh at_).remoteMapped i = true := by
        cases receives with
        | ignored => exact mapped
        | refused =>
            rw [rbh_setState]
            exact mapped
        | query =>
            rw [rbh_setState, rbh_modifyRbh]
            exact mapped
        | migMap =>
            rw [rbh_modifyRbh, rbh_setState]
            simp [RemoteBlockHandler.valetMigrationBlockInit, mapped]
        | mrMap alive type inits =>
            cases inits with
            | nothing =>
                rw [rbh_setState, rbh_setCbState]
                exact mapped
            | @mapped j row select first isRow isSelect =>
                rw [rbh_setCbIndex, rbh_setRb, rbh_modifyRbh, rbh_setState, rbh_setCbState]
                rcases eq_or_ne i j with rfl | different
                · simp [RemoteBlockHandler.mapBlock]
                · simp [RemoteBlockHandler.mapBlock, different, mapped]
        | done =>
            rw [rbh_modifyRbh, rbh_setState]
            exact mapped
        | evict =>
            rw [rbh_modifyRbh, rbh_setState]
            exact mapped
      have more (cb : Fin servers) (i : Block)
          (mapped : (m.session.rbh cb).remoteMapped i = true) :
          (session.rbh cb).remoteMapped i = true := by
        rcases eq_or_ne cb at_ with rfl | different
        · exact here i mapped
        · exact other cb different i mapped
      intro row swapspace cb i later
      cases receives with
      | ignored | refused | query | migMap | done | evict =>
          exact more cb i (leads row swapspace cb i later)
      | mrMap alive type inits =>
          cases inits with
          | nothing => exact more cb i (leads row swapspace cb i later)
          | @mapped j at' select first isRow isSelect =>
              rcases leads_of_set later with ⟨sameCb, sameRb⟩ | before
              · have isCb : at_ = cb := Fin.ext (by omega)
                have isRb : j = i := Fin.ext (by omega)
                subst isCb
                subst isRb
                rw [rbh_setCbIndex, rbh_setRb, rbh_modifyRbh]
                simp [RemoteBlockHandler.mapBlock]
              · exact more cb i (leads row swapspace cb i before)

theorem LeadsMapped.step {label : ControlLabel servers replicas} (leads : m.LeadsMapped)
    (calm : m.Calm label) (listed : ∀ cb, (m.session.rbh cb).Listed)
    (edge : m.step label = some next) : next.LeadsMapped := by
  cases moved : label with
  | recv at_ recv =>
      rw [moved] at edge
      exact leads.recv edge
  | remap at_ =>
      rw [moved] at edge calm
      exact leads.remap calm listed edge
  | clean at_ =>
      rw [moved] at edge calm
      exact leads.clean calm edge
  | postDelete at_ =>
      rw [moved] at edge
      refine leads.same (sameMaps_of_step rfl edge) fun cb i mapped => ?_
      cases moves_of_step edge with
      | postDelete sends =>
          dsimp only
          rw [session_goOn, rbh_sendDeleteRb]
          exact mapped
  | ask | getCb | noNodes | chooseNodes | mapRow | sendDone | takeEvict | noDest | chooseDest
  | readSlot | copyBitmap =>
      rw [moved] at edge
      refine leads.same (sameMaps_of_step rfl edge) fun cb i mapped => ?_
      rw [(leaves_of_step rfl edge cb).entries.mapped]
      exact mapped

/-- No row leads to a region that arrives. -/
theorem offersUnused_of_recv {recv : Received} (leads : m.LeadsMapped) (backed : m.Backed cb lent)
    (calm : m.Calm (.recv cb recv))
    (new : ∀ i, recv.offers i = true → m.handedOut cb i = false) :
    OffersUnused m (.recv cb recv) := by
  intro i offers row swapspace row_
  have about : recv.isAboutBlocks = true := by
    cases recv with
    | query qmsg => cases offers
    | message msg =>
        obtain ⟨type, _⟩ := (Bool.and_eq_true _ _).mp offers
        have type := of_decide_eq_true type
        exact decide_eq_true (by tauto)
  have mapped := leads row swapspace cb i row_
  have held := (backed.own (calm about)
    (RemoteBlockHandler.entry_eq_some.mpr ⟨mapped, rfl⟩)).1
  rw [new i offers] at held
  cases held

instance (m : Control servers replicas) (cb : Fin servers) : Decidable (m.EndsCalm cb) :=
  decidable_of_iff ((∀ newCb ∈ (m.handler cb).destination, newCb ≠ cb →
      (m.handler newCb).deleting = false) ∧
    ∀ round ∈ (m.handler cb).round, ∀ i, (m.session.rbh cb).migRbIdx i = true →
      ∀ row swapspace, m.session.Leads row swapspace cb i →
        round.replicaIndex = row.val ∧ round.clientEvictRbIndex = swapspace.val)
    ⟨fun ⟨ends, clears⟩ => ⟨ends, clears⟩, fun calm => ⟨calm.ends, calm.clears⟩⟩

instance (m : Control servers replicas) (label : ControlLabel servers replicas) :
    Decidable (m.Calm label) :=
  match label with
  | .recv cb recv => inferInstanceAs
      (Decidable (recv.isAboutBlocks = true → (m.handler cb).deleting = false))
  | .remap cb => inferInstanceAs (Decidable (RemapsOwn m (.remap cb)))
  | .clean cb => inferInstanceAs (Decidable (m.EndsCalm cb))
  | .ask _ | .getCb _ | .noNodes | .chooseNodes _ | .mapRow | .sendDone _ | .takeEvict _
  | .noDest _ | .chooseDest _ _ | .readSlot _ | .copyBitmap _ | .postDelete _ => isTrue trivial

theorem backed_init (cb : Fin servers) (lent : Block → Option IbvMr) :
    (init : Control servers replicas).Backed cb lent where
  entries := fun _ _ has => nomatch has
  listed := fun _ has => absurd rfl has

theorem leadsMapped_init : (init : Control servers replicas).LeadsMapped :=
  fun row swapspace cb _ leads =>
    absurd leads.1 (by
      show noCbMapped ≠ (cb.val : Int)
      unfold noCbMapped
      omega)

end Control

end Valet.Bd
