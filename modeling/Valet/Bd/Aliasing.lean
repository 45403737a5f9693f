import Valet.Bd.Control
import Valet.Bd.MigrationRound

/-!
# Blocks that two swapspaces share

A server that is the destination of two rounds at once has one slot for both of
their replies.  The inverse table tells for which swapspace a block was handed
out, and a remap that agrees with it shares no block.
-/

namespace Valet.Bd

open Valet.Wire Valet.Library

namespace ValetSession

variable {servers replicas : Nat}

/-- The row leads from the swapspace to the block of the server. -/
def Leads (s : ValetSession servers replicas) (row : Fin (replicas + 1)) (swapspace : Swapspace)
    (cb : Fin servers) (rb : Block) : Prop :=
  s.cbIndexMap row swapspace = cb.val ∧ s.mappingSwapspaceToRb row swapspace = rb.val

/-- No two swapspaces are mapped in one row to the same server and block. -/
def Unshared (s : ValetSession servers replicas) : Prop :=
  ∀ row swapspace other, s.cbIndexMap row swapspace ≠ noCbMapped →
    s.cbIndexMap row swapspace = s.cbIndexMap row other →
      s.mappingSwapspaceToRb row swapspace = s.mappingSwapspaceToRb row other → swapspace = other

/-- A mapped swapspace has a block that the inverse table gives to no other one. -/
structure Linked (s : ValetSession servers replicas) : Prop where
  valid : ∀ row swapspace, s.cbIndexMap row swapspace ≠ noCbMapped →
    ∃ cb rb, s.Leads row swapspace cb rb
  owner : ∀ row swapspace cb rb, s.Leads row swapspace cb rb →
    (s.rbh cb).rbIdxMap rb = swapspace.val ∨ (s.rbh cb).rbIdxMap rb = -1
  distinct : ∀ row swapspace other cb rb, s.Leads row swapspace cb rb →
    s.Leads row other cb rb → swapspace = other

theorem Linked.unshared {s : ValetSession servers replicas} (linked : Linked s) : Unshared s := by
  intro row swapspace other mapped sameServer sameBlock
  obtain ⟨cb, rb, leads⟩ := linked.valid row swapspace mapped
  refine linked.distinct row swapspace other cb rb leads ⟨?_, ?_⟩
  · rw [← sameServer]
    exact leads.1
  · rw [← sameBlock]
    exact leads.2

/-- The tables stay, and blocks that they lead to are at most given up. -/
structure Loosens (s next : ValetSession servers replicas) : Prop where
  maps : SameMaps s next
  owner : ∀ cb rb, (∃ row swapspace, s.Leads row swapspace cb rb) →
    (next.rbh cb).rbIdxMap rb = (s.rbh cb).rbIdxMap rb ∨ (next.rbh cb).rbIdxMap rb = -1

variable {s next last : ValetSession servers replicas} {cb : Fin servers}

theorem SameMaps.leads {row : Fin (replicas + 1)} {swapspace : Swapspace} {rb : Block}
    (same : SameMaps s next) :
    next.Leads row swapspace cb rb ↔ s.Leads row swapspace cb rb := by
  rw [Leads, Leads, same.1, same.2]

theorem Linked.loosens (linked : Linked s) (loosens : Loosens s next) : Linked next where
  valid := by
    intro row swapspace mapped
    rw [loosens.maps.1] at mapped
    obtain ⟨cb, rb, leads⟩ := linked.valid row swapspace mapped
    exact ⟨cb, rb, loosens.maps.leads.mpr leads⟩
  owner := by
    intro row swapspace cb rb leads
    have before := loosens.maps.leads.mp leads
    rcases loosens.owner cb rb ⟨row, swapspace, before⟩ with same | given
    · rw [same]
      exact linked.owner row swapspace cb rb before
    · exact Or.inr given
  distinct := fun row swapspace other cb rb first second =>
    linked.distinct row swapspace other cb rb (loosens.maps.leads.mp first)
      (loosens.maps.leads.mp second)

theorem Loosens.trans (first : Loosens s next) (second : Loosens next last) : Loosens s last where
  maps := ⟨second.maps.1.trans first.maps.1, second.maps.2.trans first.maps.2⟩
  owner := by
    rintro cb rb ⟨row, swapspace, leads⟩
    rcases second.owner cb rb ⟨row, swapspace, first.maps.leads.mpr leads⟩ with same | given
    · rw [same]
      exact first.owner cb rb ⟨row, swapspace, leads⟩
    · exact Or.inr given

/-- Nothing changes in the tables, the inverse ones included. -/
theorem loosens_of_eq (maps : SameMaps s next)
    (same : ∀ cb, (next.rbh cb).rbIdxMap = (s.rbh cb).rbIdxMap) : Loosens s next :=
  ⟨maps, fun cb rb _ => Or.inl (by rw [same])⟩

theorem loosens_setState {state : TestState} : Loosens s (s.setState cb state) :=
  loosens_of_eq ⟨rfl, rfl⟩ fun _ => by rw [rbh_setState]

theorem loosens_modifyRbh {change : RemoteBlockHandler → RemoteBlockHandler}
    (given : ∀ rb, (∃ row swapspace, s.Leads row swapspace cb rb) →
      (change (s.rbh cb)).rbIdxMap rb = (s.rbh cb).rbIdxMap rb ∨
        (change (s.rbh cb)).rbIdxMap rb = -1) : Loosens s (s.modifyRbh cb change) where
  maps := ⟨rfl, rfl⟩
  owner := by
    intro other rb led
    rcases eq_or_ne other cb with rfl | different
    · rw [rbh_modifyRbh]
      exact given rb led
    · left
      rw [rbh_modifyRbh_of_ne _ different]

theorem loosens_keeps {change : RemoteBlockHandler → RemoteBlockHandler}
    (keeps : ∀ rbh, (change rbh).rbIdxMap = rbh.rbIdxMap) : Loosens s (s.modifyRbh cb change) :=
  loosens_modifyRbh fun rb _ => Or.inl (by rw [keeps])

theorem loosens_requestMrMap {row : Fin (replicas + 1)} {selectIdx : Swapspace} :
    Loosens s (s.requestMrMap cb row selectIdx) :=
  loosens_of_eq ⟨rfl, rfl⟩ fun other => by rw [rbh_requestMrMap]

theorem loosens_sendDone : Loosens s (s.sendDone cb) := by
  unfold sendDone
  split
  · exact loosens_of_eq ⟨rfl, rfl⟩ fun _ => rfl
  · split
    · exact loosens_setState
    · split
      · exact loosens_keeps fun _ => by rfl
      · exact loosens_of_eq ⟨rfl, rfl⟩ fun _ => rfl

theorem loosens_foldl (cbs : List (Fin servers)) : Loosens s (cbs.foldl queried s) := by
  induction cbs generalizing s with
  | nil => exact loosens_of_eq ⟨rfl, rfl⟩ fun _ => rfl
  | cons first rest ih =>
      refine Loosens.trans (loosens_of_eq ?_ fun _ => by rw [rbh_queried]) ih
      unfold queried
      split
      · exact ⟨rfl, rfl⟩
      · exact ⟨rfl, rfl⟩

/-- A row is pointed to a block that the inverse table gives to the swapspace. -/
theorem Linked.set {row : Fin (replicas + 1)} {swapspace : Swapspace} {rb : Block}
    (linked : Linked s) (own : (s.rbh cb).rbIdxMap rb = swapspace.val) :
    Linked ((s.setRb row swapspace rb.val).setCbIndex row swapspace cb.val) := by
  -- who leads to the block is the swapspace, or was given up
  have only : ∀ {at_ other}, s.Leads at_ other cb rb → other = swapspace := by
    intro at_ other leads
    have owner := linked.owner at_ other cb rb leads
    rw [own] at owner
    exact Fin.ext (by omega)
  have cases : ∀ {at_ other cb' rb'},
      ((s.setRb row swapspace rb.val).setCbIndex row swapspace cb.val).Leads at_ other cb' rb' →
        (at_ = row ∧ other = swapspace ∧ cb' = cb ∧ rb' = rb) ∨ s.Leads at_ other cb' rb' := by
    intro at_ other cb' rb' leads
    rcases eq_or_ne at_ row with rfl | otherRow
    · rcases eq_or_ne other swapspace with rfl | different
      · left
        have same : (cb.val : Int) = cb'.val ∧ (rb.val : Int) = rb'.val := by
          simpa [Leads, setRb, setCbIndex] using leads
        exact ⟨rfl, rfl, Fin.ext (by omega), Fin.ext (by omega)⟩
      · right
        simpa [Leads, setRb, setCbIndex, different] using leads
    · right
      simpa [Leads, setRb, setCbIndex, otherRow] using leads
  exact
    { valid := by
        intro at_ other mapped
        by_cases here : at_ = row ∧ other = swapspace
        · obtain ⟨rfl, rfl⟩ := here
          exact ⟨cb, rb, by simp [Leads, setRb, setCbIndex]⟩
        · have same : ((s.setRb row swapspace rb.val).setCbIndex row swapspace cb.val).cbIndexMap
              at_ other = s.cbIndexMap at_ other ∧
              ((s.setRb row swapspace rb.val).setCbIndex row swapspace
                cb.val).mappingSwapspaceToRb at_ other = s.mappingSwapspaceToRb at_ other := by
            rcases eq_or_ne at_ row with rfl | otherRow
            · have different : other ≠ swapspace := fun same => here ⟨rfl, same⟩
              simp [setRb, setCbIndex, different]
            · simp [setRb, setCbIndex, otherRow]
          rw [same.1] at mapped
          obtain ⟨cb', rb', leads⟩ := linked.valid at_ other mapped
          exact ⟨cb', rb', by rw [Leads, same.1, same.2]; exact leads⟩
      owner := by
        intro at_ other cb' rb' leads
        rcases cases leads with ⟨rfl, rfl, rfl, rfl⟩ | before
        · exact Or.inl own
        · exact linked.owner at_ other cb' rb' before
      distinct := by
        intro at_ first second cb' rb' leads again
        rcases cases leads with ⟨rfl, rfl, rfl, rfl⟩ | before
        · rcases cases again with ⟨_, rfl, _, _⟩ | other
          · rfl
          · exact (only other).symm
        · rcases cases again with ⟨rfl, rfl, rfl, rfl⟩ | other
          · exact only before
          · exact linked.distinct at_ first second cb' rb' before other }

theorem Linked.unmap {row : Fin (replicas + 1)} {swapspace : Swapspace} (linked : Linked s) :
    Linked (s.setCbIndex row swapspace noCbMapped) := by
  have before : ∀ {at_ other cb rb},
      (s.setCbIndex row swapspace noCbMapped).Leads at_ other cb rb → s.Leads at_ other cb rb := by
    intro at_ other cb rb leads
    rcases eq_or_ne at_ row with rfl | otherRow
    · rcases eq_or_ne other swapspace with rfl | different
      · have unmapped : noCbMapped = cb.val := by simpa [setCbIndex] using leads.1
        unfold noCbMapped at unmapped
        omega
      · simpa [Leads, setCbIndex, different] using leads
    · simpa [Leads, setCbIndex, otherRow] using leads
  exact
    { valid := by
        intro at_ other mapped
        rcases eq_or_ne at_ row with rfl | otherRow
        · rcases eq_or_ne other swapspace with rfl | different
          · simp [setCbIndex] at mapped
          · obtain ⟨cb, rb, leads⟩ := linked.valid at_ other
              (by simpa [setCbIndex, different] using mapped)
            exact ⟨cb, rb, by simpa [Leads, setCbIndex, different] using leads⟩
        · obtain ⟨cb, rb, leads⟩ := linked.valid at_ other
            (by simpa [setCbIndex, otherRow] using mapped)
          exact ⟨cb, rb, by simpa [Leads, setCbIndex, otherRow] using leads⟩
      owner := fun at_ other cb rb leads => linked.owner at_ other cb rb (before leads)
      distinct := fun at_ first second cb rb leads again =>
        linked.distinct at_ first second cb rb (before leads) (before again) }

end ValetSession

namespace Control

open ValetSession

variable {servers replicas : Nat} {m next : Control servers replicas}

/-- Each server hands out a region to one mapping at a time. -/
def HandsOutOnce (m : Control servers replicas) : ControlLabel servers replicas → Prop
  | .recv cb recv => ∀ i, recv.offers i = true → m.handedOut cb i = false
  | _ => True

/-- A region that is handed out is one that no row leads to any more. -/
def OffersUnused (m : Control servers replicas) : ControlLabel servers replicas → Prop
  | .recv cb recv => ∀ i, recv.offers i = true → ∀ row swapspace,
      ¬ m.session.Leads row swapspace cb i
  | _ => True

/-- A remap goes to the block that was handed out for its swapspace. -/
def RemapsOwn (m : Control servers replicas) : ControlLabel servers replicas → Prop
  | .remap cb =>
      match m.handler cb with
      | .waitDone round _ dest => ∃ destCb : Fin servers, dest.cbIndex = destCb.val ∧
          ∃ rb : Block, dest.rbIndex = rb.val ∧
            (m.session.rbh destCb).rbIdxMap rb = round.clientEvictRbIndex
      | _ => True
  | _ => True

/-- The condition under which no two swapspaces share a block. -/
structure OwnStep (m : Control servers replicas) (label : ControlLabel servers replicas) :
    Prop where
  once : HandsOutOnce m label
  unused : OffersUnused m label
  remaps : RemapsOwn m label

theorem linked_recv {cb : Fin servers} {recv : Received} {session : ValetSession servers replicas}
    (linked : Linked m.session) (unused : OffersUnused m (.recv cb recv))
    (receives : Receives m.session cb recv session) : Linked session := by
  cases receives with
  | ignored error => exact linked
  | refused reason => exact linked.loosens loosens_setState
  | @query qmsg alive =>
      have sized : Loosens m.session (m.session.modifyRbh cb fun rbh =>
          { rbh with targetSizeGb := qmsg.sizeGb, sum := qmsg.sum }) := loosens_keeps fun _ => by rfl
      exact linked.loosens (sized.trans loosens_setState)
  | @migMap msg alive type =>
      refine linked.loosens (Loosens.trans loosens_setState (loosens_modifyRbh ?_))
      rintro rb ⟨row, swapspace, leads⟩
      have keyless : msg.rkey rb = 0 := by
        by_contra keyed
        exact unused rb (by simp [Received.offers, type, keyed]) row swapspace leads
      left
      simp [RemoteBlockHandler.valetMigrationBlockInit, keyless]
  | @mrMap msg _ alive type inits =>
      have started : Loosens m.session ((m.session.setCbState cb .mapped).setState cb .recvMrMap) :=
        loosens_of_eq ⟨rfl, rfl⟩ fun _ => by rw [rbh_setState, rbh_setCbState]
      cases inits with
      | nothing empty => exact linked.loosens started
      | @mapped i row select first isRow isSelect =>
          have mapped : Loosens ((m.session.setCbState cb .mapped).setState cb .recvMrMap)
              (((m.session.setCbState cb .mapped).setState cb .recvMrMap).modifyRbh cb
                fun rbh => rbh.mapBlock msg i) := by
            apply loosens_modifyRbh
            rintro rb ⟨at_, swapspace, leads⟩
            have other : rb ≠ i := by
              rintro rfl
              have keyed := Message.rkey_of_firstRkey first
              exact unused rb (by simp [Received.offers, type, keyed]) at_ swapspace leads
            left
            simp [RemoteBlockHandler.mapBlock, other]
          refine (linked.loosens (started.trans mapped)).set ?_
          rw [rbh_modifyRbh]
          simp [RemoteBlockHandler.mapBlock, isSelect]
  | @done msg alive type =>
      have arrived : Loosens m.session (m.session.setState cb .recvMigrationDone) :=
        loosens_setState
      exact linked.loosens (arrived.trans (loosens_keeps fun _ => by rfl))
  | @evict msg alive type =>
      have arrived : Loosens m.session (m.session.setState cb .recvEvict) := loosens_setState
      exact linked.loosens (arrived.trans (loosens_keeps fun _ => by rfl))

theorem linked_step {label : ControlLabel servers replicas} (linked : Linked m.session)
    (guard : OwnStep m label) (edge : m.step label = some next) : Linked next.session := by
  cases moves_of_step edge with
  | @ask cb =>
      exact linked.loosens (loosens_foldl [cb])
  | getFinding | getMapped | noNodes | noDest | readSlot => exact linked
  | @chooseNodes selectIdx replicaList finding distinct =>
      have asked : Loosens m.session ((List.ofFn replicaList).foldl queried m.session) :=
        loosens_foldl _
      exact linked.loosens (asked.trans loosens_requestMrMap)
  | mapRow waiting arrived =>
      unfold mapRow
      dsimp only
      split
      · have on : Loosens m.session { m.session with rdmaOn := true } :=
          loosens_of_eq ⟨rfl, rfl⟩ fun _ => rfl
        exact linked.loosens (on.trans loosens_requestMrMap)
      · exact linked.loosens (loosens_of_eq ⟨rfl, rfl⟩ fun _ => rfl)
  | recv receives => exact linked_recv linked guard.unused receives
  | sendDone => exact linked.loosens loosens_sendDone
  | @takeEvict cb round session waits takes =>
      cases takes with
      | @taken src swapspace rb evict isSrc isSwapspace isRb =>
          have migrating : Loosens m.session (m.session.setCbState src .migrating) :=
            loosens_of_eq ⟨rfl, rfl⟩ fun _ => rfl
          rw [session_goOn]
          exact linked.loosens (migrating.trans (loosens_keeps fun _ => by rfl))
  | @chooseDest cb newCb round change finding =>
      have asked : Loosens m.session (m.session.queried newCb) := loosens_foldl [newCb]
      refine linked.loosens (asked.trans (loosens_of_eq ⟨rfl, rfl⟩ fun cb => ?_))
      rw [session_goOn, rbh_modifySendBuf]
  | @remap cb newCb round dest session waits remaps =>
      have own := guard.remaps
      rw [RemapsOwn, waits] at own
      obtain ⟨destCb, isServer, rb, isBlock, owner⟩ := own
      cases remaps with
      | @moved swapspace done isSwapspace =>
          have mapped : Linked ((m.session.setRb 0 swapspace dest.rbIndex).setCbIndex 0 swapspace
              dest.cbIndex) := by
            rw [isServer, isBlock]
            exact linked.set (owner.trans isSwapspace)
          have ready : Loosens ((m.session.setRb 0 swapspace dest.rbIndex).setCbIndex 0 swapspace
              dest.cbIndex) (((m.session.setRb 0 swapspace dest.rbIndex).setCbIndex 0 swapspace
                dest.cbIndex).modifyRbh newCb fun rbh => { rbh with cState := .ready }) :=
            loosens_keeps fun _ => by rfl
          exact mapped.loosens ready
  | @copyBitmap cb newCb round dest session remapped copies =>
      cases copies with
      | @copied destRb srcRb bitmap isDest isSrc source =>
          have same : Loosens m.session
              (m.session.modifyRbh newCb fun rbh => rbh.withBitmap destRb bitmap) :=
            loosens_keeps fun _ => by rfl
          exact linked.loosens same
  | @postDelete cb round newCb sends =>
      refine linked.loosens (loosens_of_eq ⟨rfl, rfl⟩ fun cb => ?_)
      dsimp only
      rw [session_goOn, rbh_sendDeleteRb]
  | @clean cb round newCb session waits cleans =>
      have marks : ∀ s : ValetSession servers replicas, Loosens s (s.clearNew newCb) := by
        intro s
        cases newCb with
        | none => exact loosens_of_eq ⟨rfl, rfl⟩ fun _ => rfl
        | some newCb =>
            have cleared : Loosens s (s.modifyRbh newCb fun rbh =>
                { rbh with migRbIdx := fun _ => false }) := loosens_keeps fun _ => by rfl
            exact cleared
      cases cleans with
      | @cleaned middle src swapspace rb deleted resets isSrc isSwapspace isRb =>
          have reset : Linked middle := by
            cases resets with
            | unmarked clear => exact linked.loosens (marks _)
            | @cleared i row at_ marked isRow isAt =>
                have cleared : Loosens m.session
                    (m.session.modifyRbh cb RemoteBlockHandler.clearMarked) := by
                  apply loosens_modifyRbh
                  intro rb _
                  unfold RemoteBlockHandler.clearMarked
                  dsimp only
                  split
                  · exact Or.inr rfl
                  · exact Or.inl rfl
                exact ((linked.loosens cleared).unmap).loosens (marks _)
          have stated : Loosens middle
              (if newCb.isSome then middle.setCbState src .mapped else middle) := by
            split
            · exact loosens_of_eq ⟨rfl, rfl⟩ fun _ => rfl
            · exact loosens_of_eq ⟨rfl, rfl⟩ fun _ => rfl
          rw [session_goOn]
          exact reset.loosens (stated.trans (loosens_keeps fun _ => by rfl))

theorem linked_init : Linked (ValetSession.init : ValetSession servers replicas) where
  valid := fun _ _ mapped => absurd rfl mapped
  owner := by
    rintro row swapspace cb rb ⟨unmapped, _⟩
    have unmapped : (-1 : Int) = cb.val := unmapped
    omega
  distinct := by
    rintro row swapspace other cb rb ⟨unmapped, _⟩
    have unmapped : (-1 : Int) = cb.val := unmapped
    omega

instance (s : ValetSession servers replicas) (row : Fin (replicas + 1)) (swapspace : Swapspace)
    (cb : Fin servers) (rb : Block) : Decidable (s.Leads row swapspace cb rb) :=
  inferInstanceAs (Decidable (_ ∧ _))

instance (m : Control servers replicas) (label : ControlLabel servers replicas) :
    Decidable (HandsOutOnce m label) := by
  unfold HandsOutOnce
  split <;> infer_instance

instance (m : Control servers replicas) (label : ControlLabel servers replicas) :
    Decidable (OffersUnused m label) := by
  unfold OffersUnused
  split <;> infer_instance

instance (m : Control servers replicas) (label : ControlLabel servers replicas) :
    Decidable (RemapsOwn m label) := by
  unfold RemapsOwn
  split
  · split <;> infer_instance
  · infer_instance

instance (m : Control servers replicas) (label : ControlLabel servers replicas) :
    Decidable (OwnStep m label) :=
  decidable_of_iff (HandsOutOnce m label ∧ OffersUnused m label ∧ RemapsOwn m label)
    ⟨fun ⟨once, unused, remaps⟩ => ⟨once, unused, remaps⟩,
      fun own => ⟨own.once, own.unused, own.remaps⟩⟩

def secondSwapspace : Swapspace := ⟨1, by decide⟩

def secondBlock : Block := ⟨1, by decide⟩

/-- Server 2 answers with a destination. -/
def offerThird (swapspace : Swapspace) (rb : Block) : ControlLabel 3 0 :=
  .recv 2 (.message (blockMessage .respMigMap 2 swapspace rb))

end Control

end Valet.Bd
