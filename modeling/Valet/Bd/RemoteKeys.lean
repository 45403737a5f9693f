import Valet.Bd.BorrowedTables

/-!
# The keys in the tables of a client

A client posts under the key that its table holds for a block, mapped or not.
The key comes from the offer of a server, and it stays until the end of a round
clears it: no step makes up a key.
-/

namespace Valet.Bd

open Valet.Wire Valet.Library Valet.Daemon

namespace ValetSession

variable {servers replicas : Nat} {s next : ValetSession servers replicas} {cb : Fin servers}

/-- The key under which a client posts to a block. -/
def rkeyOf (s : ValetSession servers replicas) (cb : Fin servers) (i : Block) : UInt32 :=
  ((s.rbh cb).remoteBlock i).remoteRkey

/-- Keys stay, or are taken out. -/
def KeepsKeys (s next : ValetSession servers replicas) (cb : Fin servers) : Prop :=
  ∀ i, next.rkeyOf cb i = s.rkeyOf cb i ∨ next.rkeyOf cb i = 0

theorem keepsKeys_of_rbh (same : next.rbh cb = s.rbh cb) : KeepsKeys s next cb := by
  intro i
  left
  unfold rkeyOf
  rw [same]

theorem keepsKeys_clearMarked (rbh : RemoteBlockHandler) (i : Block) :
    (rbh.clearMarked.remoteBlock i).remoteRkey = (rbh.remoteBlock i).remoteRkey ∨
      (rbh.clearMarked.remoteBlock i).remoteRkey = 0 := by
  unfold RemoteBlockHandler.clearMarked
  dsimp only
  split
  · exact Or.inr rfl
  · exact Or.inl rfl

/-- The end of a round takes out the keys of the marked blocks. -/
theorem keepsKeys_of_cleans {at_ : Fin servers} {newCb : Option (Fin servers)} {round : Round}
    (cleans : Cleans s at_ newCb round next) : KeepsKeys s next cb := by
  rcases eq_or_ne cb at_ with rfl | different
  · obtain ⟨middle, rb, resets, same⟩ := cleans.rbh_old
    have entries := sameEntries_withRbState (middle.rbh cb) rb .inactive
    rw [← same] at entries
    intro i
    unfold rkeyOf
    rw [entries.keys i]
    cases resets with
    | unmarked clear =>
        left
        rcases rbh_clearNew s newCb cb with kept | cleared
        · rw [kept]
        · rw [cleared]
    | @cleared j row swapspace marked isRow isAt =>
        have table : (((s.modifyRbh cb RemoteBlockHandler.clearMarked).setCbIndex row
            swapspace noCbMapped).rbh cb) = (s.rbh cb).clearMarked := by
          rw [rbh_setCbIndex, rbh_modifyRbh]
        rcases rbh_clearNew ((s.modifyRbh cb RemoteBlockHandler.clearMarked).setCbIndex row
          swapspace noCbMapped) newCb cb with kept | cleared
        · rw [kept, table]
          exact keepsKeys_clearMarked _ i
        · rw [cleared, table]
          exact keepsKeys_clearMarked _ i
  · rcases cleans.rbh_other different with same | cleared
    · exact keepsKeys_of_rbh same
    · intro i
      left
      unfold rkeyOf
      rw [cleared]

/-- A message puts in the key that it offers, and no other. -/
theorem rkeyOf_of_receives {recv : Received} (clear : recv.Clear)
    (receives : Receives s cb recv next) (i : Block) :
    next.rkeyOf cb i = s.rkeyOf cb i ∨
      ∃ mr, recv.notice = some (.offer i mr) ∧ mr.rkey = next.rkeyOf cb i := by
  unfold rkeyOf
  cases receives with
  | ignored => exact Or.inl rfl
  | refused =>
      left
      rw [rbh_setState]
  | query =>
      left
      rw [rbh_setState, rbh_modifyRbh]
  | @migMap msg alive type =>
      rw [rbh_modifyRbh, rbh_setState]
      by_cases keyed : msg.rkey i = 0
      · left
        simp [RemoteBlockHandler.valetMigrationBlockInit, keyed]
      · right
        have first := (clear.lone (Or.inr (Or.inl type))).firstRkey keyed
        refine ⟨⟨msg.buf i, msg.rkey i⟩, ?_, ?_⟩
        · show noticeOf msg = _
          unfold noticeOf
          rw [type, first]
          rfl
        · simp [RemoteBlockHandler.valetMigrationBlockInit, RemoteBlockHandler.RemoteBlock.mapped,
            keyed]
  | @mrMap msg _ alive type inits =>
      cases inits with
      | nothing =>
          left
          rw [rbh_setState, rbh_setCbState]
      | @mapped j row select first isRow isSelect =>
          rw [rbh_setCbIndex, rbh_setRb, rbh_modifyRbh, rbh_setState, rbh_setCbState]
          rcases eq_or_ne i j with rfl | different
          · right
            refine ⟨⟨msg.buf i, msg.rkey i⟩, ?_, ?_⟩
            · show noticeOf msg = _
              unfold noticeOf
              rw [type, first]
              rfl
            · simp [RemoteBlockHandler.mapBlock, RemoteBlockHandler.RemoteBlock.mapped]
          · left
            simp [RemoteBlockHandler.mapBlock, different]
  | done =>
      left
      rw [rbh_modifyRbh, rbh_setState]
  | evict =>
      left
      rw [rbh_modifyRbh, rbh_setState]
      rfl

end ValetSession

namespace Control

open ValetSession

variable {servers replicas : Nat} {m next : Control servers replicas} {cb : Fin servers}

theorem keepsKeys_of_step {label : ControlLabel servers replicas}
    (acts : ∀ at_ recv, label ≠ .recv at_ recv) (edge : m.step label = some next)
    (cb : Fin servers) : KeepsKeys m.session next.session cb := by
  cases moved : label with
  | postDelete at_ =>
      rw [moved] at edge
      cases moves_of_step edge with
      | postDelete sends => exact keepsKeys_of_rbh (rbh_sendDeleteRb m.session at_ cb)
  | clean at_ =>
      rw [moved] at edge
      cases moves_of_step edge with
      | clean waits cleans => exact keepsKeys_of_cleans cleans
  | recv at_ recv => exact absurd moved (acts at_ recv)
  | ask | getCb | noNodes | chooseNodes | mapRow | sendDone | takeEvict | noDest | chooseDest
  | readSlot | remap | copyBitmap =>
      have leaves := leaves_of_step (by rw [moved]; rfl) edge cb
      exact fun i => Or.inl (leaves.entries.keys i)

/-- Where the keys come from after a step of a client. -/
theorem rkeyOf_of_step {label : ControlLabel servers replicas} (cb : Fin servers)
    (edge : m.step label = some next)
    (clear : ∀ at_ recv, label = .recv at_ recv → recv.Clear) (i : Block) :
    next.session.rkeyOf cb i = m.session.rkeyOf cb i ∨ next.session.rkeyOf cb i = 0 ∨
      ∃ recv mr, label = .recv cb recv ∧ recv.notice = some (.offer i mr) ∧
        mr.rkey = next.session.rkeyOf cb i := by
  cases moved : label with
  | recv at_ recv =>
      rw [moved] at edge
      cases moves_of_step edge with
      | @recv _ _ session receives =>
          rcases eq_or_ne cb at_ with rfl | different
          · rcases rkeyOf_of_receives (clear cb recv moved) receives i with same | ⟨mr, offer, key⟩
            · exact Or.inl same
            · exact Or.inr (Or.inr ⟨recv, mr, rfl, offer, key⟩)
          · left
            unfold rkeyOf
            dsimp only
            rw [receives.rbh_of_ne different]
  | ask | getCb | noNodes | chooseNodes | mapRow | sendDone | takeEvict | noDest | chooseDest
  | readSlot | remap | copyBitmap | postDelete | clean =>
      have acts : ∀ at_ recv, label ≠ .recv at_ recv := by
        rw [moved]
        rintro at_ recv ⟨⟩
      rw [← moved]
      rcases keepsKeys_of_step acts edge cb i with same | cleared
      · exact Or.inl same
      · exact Or.inr (Or.inl cleared)

theorem rkeyOf_init (cb : Fin servers) (i : Block) :
    (init : Control servers replicas).session.rkeyOf cb i = 0 := rfl

end Control

end Valet.Bd
