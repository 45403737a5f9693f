import Valet.System.RemoteMemory

/-!
# Clients do not reach each other's memory

A client posts under keys that it was offered, and a server offers a key to the
client for which it has registered the region.  So an operation under way opens
regions of its own client only, however long it takes, and a region holds zeros
and bytes of its own client, whoever had it before.
-/

namespace Valet.System

open Valet.Wire Valet.Library Valet.Bd Valet.Daemon

variable {clients servers replicas : Nat} {slot : Fin servers → Fin clients ↪ Nat}
  {peer : Fin servers → Fin servers → Nat} {weigh : Int → Int → Int}

/-- What holds of all that is queued holds once one of the queues is another. -/
theorem forall_mem_update {A B Item : Type} [DecidableEq A] [DecidableEq B]
    {Holds : A → B → Item → Prop} {queues : A → B → List Item} {a : A} {b : B}
    {items : List Item} (all : ∀ a b, ∀ item ∈ queues a b, Holds a b item)
    (new : ∀ item ∈ items, Holds a b item) :
    ∀ a' b', ∀ item ∈ Function.update queues a (Function.update (queues a) b items) a' b',
      Holds a' b' item := by
  intro a' b' item member
  rcases eq_or_ne a' a with rfl | different
  · rw [Function.update_self] at member
    rcases eq_or_ne b' b with rfl | elsewhere
    · rw [Function.update_self] at member
      exact new item member
    · rw [Function.update_of_ne elsewhere] at member
      exact all a' b' item member
  · rw [Function.update_of_ne different] at member
    exact all a' b' item member

/-- The byte is a zero of `memset`, or the client has written it. -/
def IsOf (c : Fin clients) (byte : Byte clients) : Prop :=
  ∀ written ∈ byte, written.1 = c

theorem isOf_of_mem_placed {c : Fin clients} {start : Nat} {bytes : List UInt8}
    {cell : Nat × Byte clients} (member : cell ∈ placed c start bytes) : IsOf c cell.2 := by
  obtain ⟨byte, -, rfl⟩ := List.mem_map.mp member
  intro written has
  cases has
  rfl

theorem life_of_opens {mrh : RdmaMrHandler} {rkey : UInt32} {remoteAddr : UInt64}
    {length start : Nat} {i : Region} (opened : opens mrh rkey remoteAddr length = some (i, start)) :
    ∃ client, mrh.life i = .held client rkey := by
  obtain ⟨j, -, found⟩ := List.exists_of_findSome?_eq_some opened
  split at found
  · rename_i client key held
    split at found
    · rename_i same
      obtain ⟨place, -, both⟩ := Option.map_eq_some_iff.mp found
      cases both
      exact ⟨client, by rw [held, same]⟩
    · cases found
  · cases found

theorem firstRkey_requestMessage {mrh : RdmaMrHandler} {sendBuf : Message} {localRb i : Region}
    {srcRbIndex : Int}
    (first : (mrh.requestMessage sendBuf localRb.val srcRbIndex).firstRkey = some i) :
    i = localRb ∧ (mrh.requestMessage sendBuf localRb.val srcRbIndex).rkey i =
      (mrh.mrList localRb).rkey := by
  have key := Message.rkey_of_firstRkey first
  unfold RdmaMrHandler.requestMessage at key ⊢
  dsimp only at key ⊢
  rcases eq_or_ne i localRb with rfl | different
  · exact ⟨rfl, if_pos rfl⟩
  · have apart : ¬ (i.val : Int) = localRb.val := fun same => different (Fin.ext (by omega))
    rw [if_neg apart] at key
    exact absurd rfl key

namespace Cluster

variable {s next : Cluster clients servers replicas}
  {label : ClusterLabel clients servers replicas}

theorem daemon_of_step (edge : Cluster.step slot weigh s label = some next) :
    next.daemon = s.daemon ∨ ∃ cb served moved,
      (s.daemon cb).serverStep weigh served = some moved ∧
        next.daemon = Function.update s.daemon cb moved ∧
          ∀ client msg mr stamps, served = .daemon (.recv client msg mr stamps) →
            label.registration = some (cb, mr) := by
  cases label with
  | act c label =>
      left
      simp only [Cluster.step] at edge
      split at edge
      · cases edge
      · obtain ⟨moved, -, rfl⟩ := Option.map_eq_some_iff.mp edge
        rfl
  | deliver c cb =>
      left
      simp only [Cluster.step] at edge
      split at edge
      · cases edge
      · obtain ⟨moved, -, rfl⟩ := Option.map_eq_some_iff.mp edge
        rfl
  | serve c cb mr stamps =>
      right
      simp only [Cluster.step] at edge
      split at edge
      · cases edge
      · rename_i request rest first
        obtain ⟨moved, ran, rfl⟩ := Option.map_eq_some_iff.mp edge
        refine ⟨cb, _, moved, ran, rfl, fun client msg other times handled => ?_⟩
        cases request with
        | connect => cases handled
        | message message =>
            cases handled
            rfl
  | turn cb label =>
      right
      simp only [Cluster.step] at edge
      split at edge
      · obtain ⟨moved, ran, rfl⟩ := Option.map_eq_some_iff.mp edge
        refine ⟨cb, label, moved, ran, rfl, fun client msg mr stamps handled => ?_⟩
        rw [handled]
        rfl
      · cases edge

theorem client_of_step (edge : Cluster.step slot weigh s label = some next) :
    next.client = s.client ∨ ∃ c did moved, (s.client c).step did = some moved ∧
      next.client = Function.update s.client c moved ∧
        ∀ cb recv, did = .recv cb recv → recv ∈ s.toClient c cb := by
  cases label with
  | act c label =>
      right
      simp only [Cluster.step] at edge
      split at edge
      · cases edge
      · rename_i acts
        obtain ⟨moved, ran, rfl⟩ := Option.map_eq_some_iff.mp edge
        refine ⟨c, label, moved, ran, rfl, ?_⟩
        rintro cb recv rfl
        exact absurd rfl acts
  | deliver c cb =>
      right
      simp only [Cluster.step] at edge
      split at edge
      · cases edge
      · rename_i recv rest first
        obtain ⟨moved, ran, rfl⟩ := Option.map_eq_some_iff.mp edge
        refine ⟨c, _, moved, ran, rfl, ?_⟩
        rintro cb recv ⟨⟩
        rw [first]
        exact List.mem_cons_self
  | serve c cb mr stamps =>
      left
      simp only [Cluster.step] at edge
      split at edge
      · cases edge
      · obtain ⟨moved, -, rfl⟩ := Option.map_eq_some_iff.mp edge
        rfl
  | turn cb label =>
      left
      simp only [Cluster.step] at edge
      split at edge
      · obtain ⟨moved, -, rfl⟩ := Option.map_eq_some_iff.mp edge
        rfl
      · cases edge

/-- Every step is one in the lives of the regions of each server. -/
theorem lives_of_step (sound : s.Sound slot)
    (edge : Cluster.step slot weigh s label = some next) (cb : Fin servers) :
    ∃ served, Session.Lives (s.daemon cb) served (next.daemon cb) ∧
      ∀ client msg mr stamps, served = .daemon (.recv client msg mr stamps) →
        label.registration = some (cb, mr) := by
  have stays (same : next.daemon cb = s.daemon cb) :
      ∃ served, Session.Lives (s.daemon cb) served (next.daemon cb) ∧
        ∀ client msg mr stamps, served = .daemon (.recv client msg mr stamps) →
          label.registration = some (cb, mr) :=
    ⟨.wcRdmaWrite 0, Session.lives_of_same (by rw [same]) (by rw [same]), by rintro _ _ _ _ ⟨⟩⟩
  rcases daemon_of_step edge with same | ⟨at_, served, moved, ran, isNext, registered⟩
  · exact stays (by rw [same])
  · rcases eq_or_ne cb at_ with rfl | different
    · refine ⟨served, ?_, registered⟩
      rw [isNext, Function.update_self]
      exact (sound.lends cb).lives ran
    · exact stays (by rw [isNext, Function.update_of_ne different])

/-- What a message offers is registered for the client that receives it. -/
theorem Sound.life_of_offer (sound : s.Sound slot) {c : Fin clients} {cb : Fin servers}
    {recv : Received} {i : Region} {mr : IbvMr} (member : recv ∈ s.toClient c cb)
    (offer : recv.notice = some (.offer i mr)) :
    (s.daemon cb).mrh.life i = .held (slot cb c) mr.rkey := by
  have lent := (sound.sound c cb).keys i mr (List.mem_filterMap.mpr ⟨recv, member, offer⟩)
  obtain ⟨owner, key⟩ := Session.lentTo_eq_some.mp lent
  exact RdmaMrHandler.life_eq_held.mpr ⟨owner, by rw [key]⟩

end Cluster

namespace RemoteMemory

variable (slot) (s : RemoteMemory clients servers replicas)

/-- The server has given the key to this client. -/
def Issued (cb : Fin servers) (key : UInt32) (client : Nat) : Prop :=
  (key, client) ∈ (s.memory cb).issued

/-- Keys are where they belong, and so is what was written under them. -/
structure Isolated : Prop where
  cluster : s.cluster.Sound slot
  lives : ∀ cb, (s.memory cb).life = (s.cluster.daemon cb).mrh.life
  guarded : ∀ cb, (s.memory cb).Sound fun _ => none
  nonzero : ∀ cb client, ¬ s.Issued cb 0 client
  tables : ∀ c cb i, (s.block c cb i).remoteRkey = 0 ∨
    s.Issued cb (s.block c cb i).remoteRkey (slot cb c)
  posted : ∀ c cb, ∀ op ∈ s.posted c cb, op.rkey = 0 ∨ s.Issued cb op.rkey (slot cb c)
  asked : ∀ cb src, ∀ ask ∈ s.asked cb src, ask.2.type = .reqMigration ∧
    ∀ i, ask.2.firstRkey = some i → s.Issued cb (ask.2.rkey i) ask.1
  copies : ∀ src cb, ∀ copy ∈ s.copies src cb, s.Issued cb copy.rkey copy.client ∧
    ∀ c, copy.client = slot cb c → s.Issued src copy.lkey (slot src c)
  sources : ∀ cb i, ∀ write ∈ (s.memory cb).written i, ∀ c, write.1 = slot cb c →
    ∀ cell ∈ write.2, IsOf c cell.2

variable {slot s} {next : RemoteMemory clients servers replicas}

/-- Keys that were given out stay with their clients. -/
theorem Issued.advance {cb : Fin servers} {key : UInt32} {client : Nat}
    (issued : s.Issued cb key client) (cluster : Cluster clients servers replicas) :
    (s.advance cluster).Issued cb key client :=
  Guarded.mem_issued_turn.mpr (Or.inr issued)

theorem Isolated.issued_of_life (isolated : s.Isolated slot) {cb : Fin servers} {i : Region}
    {client : Nat} {key : UInt32}
    (held : (s.cluster.daemon cb).mrh.life i = .held client key) : s.Issued cb key client := by
  rw [← isolated.lives cb] at held
  exact (isolated.guarded cb).keys i client key held

/-- A key opens regions of its client only. -/
theorem Isolated.owner (isolated : s.Isolated slot) {cb : Fin servers} {client holder : Nat}
    {key : UInt32} {i : Region} (issued : s.Issued cb key client)
    (held : (s.cluster.daemon cb).mrh.life i = .held holder key) : holder = client := by
  rw [← isolated.lives cb] at held
  exact (isolated.guarded cb).opens issued held

/-- What a region of a client holds. -/
theorem Isolated.content (isolated : s.Isolated slot) {c : Fin clients} {cb : Fin servers}
    {i : Region} {key : UInt32}
    (held : (s.cluster.daemon cb).mrh.life i = .held (slot cb c) key) (place : Nat) :
    IsOf c ((s.memory cb).content i place) := by
  have guarded := isolated.guarded cb
  rw [← isolated.lives cb] at held
  rw [guarded.content i]
  refine Guarded.replay_all (fun _ => by rintro written ⟨⟩) (fun write member => ?_) place
  exact isolated.sources cb i write member c (guarded.own i (slot cb c) key held write member)

theorem registers_of_fresh {label : ClusterLabel clients servers replicas}
    (fresh : ∀ registered ∈ label.registration, s.Fresh registered.1 registered.2) :
    Cluster.Registers s.cluster label := by
  cases label with
  | act | deliver => trivial
  | serve c cb mr stamps => exact (fresh (cb, mr) rfl).1
  | turn cb label =>
      cases label with
      | established | wcRdmaWrite => trivial
      | daemon label =>
          cases label with
          | recv client msg mr stamps => exact (fresh (cb, mr) rfl).1
          | monitor | evict | evictDone => trivial

/-- A step of the cluster, with keys that are given out once. -/
theorem Isolated.advance {label : ClusterLabel clients servers replicas}
    {cluster : Cluster clients servers replicas} (isolated : s.Isolated slot)
    (fresh : ∀ registered ∈ label.registration, s.Fresh registered.1 registered.2)
    (edge : Cluster.step slot weigh s.cluster label = some cluster) :
    (s.advance cluster).Isolated slot := by
  have granted (cb : Fin servers) (client : Nat) (key : UInt32)
      (grants : (s.cluster.daemon cb).mrh.grants (cluster.daemon cb).mrh = some (client, key)) :
      ∃ mr, s.Fresh cb mr ∧ mr.rkey = key := by
    obtain ⟨served, lives, registered⟩ := Cluster.lives_of_step isolated.cluster edge cb
    obtain ⟨msg, mr, stamps, isRecv, same⟩ := lives.granted client key grants
    exact ⟨mr, fresh (cb, mr) (registered client msg mr stamps isRecv), same⟩
  exact
    { cluster := (isolated.cluster.step (registers_of_fresh fresh) edge).1
      lives := fun cb => rfl
      guarded := by
        intro cb
        obtain ⟨served, lives, registered⟩ := Cluster.lives_of_step isolated.cluster edge cb
        have same := isolated.lives cb
        refine (isolated.guarded cb).turn (fun i => ?_) (fun client key grants other issued => ?_)
          fun i j client key free held again holds => ?_
        · rw [same]
          exact lives.turns i
        · obtain ⟨mr, unused, rfl⟩ := granted cb client key grants
          exact unused.2 _ issued rfl
        · rw [same] at free again
          exact lives.single i j client key free held again holds
      nonzero := by
        intro cb client issued
        rcases Guarded.mem_issued_turn.mp issued with new | before
        · obtain ⟨mr, unused, zero⟩ := granted cb client 0 new
          exact unused.1 zero
        · exact isolated.nonzero cb client before
      tables := by
        intro c cb i
        rcases Cluster.client_of_step edge with same | ⟨at_, did, moved, ran, isNext, received⟩
        · have table : (s.advance cluster).block c cb i = s.block c cb i := by
            unfold block RemoteMemory.advance
            rw [same]
          rw [table]
          exact (isolated.tables c cb i).imp_right fun issued => issued.advance cluster
        · have table : ((s.advance cluster).block c cb i).remoteRkey =
              (Function.update s.cluster.client at_ moved c).session.rkeyOf cb i := by
            rw [← isNext]
            rfl
          rw [table]
          rcases eq_or_ne c at_ with rfl | different
          · rw [Function.update_self]
            have clear : ∀ place recv, did = .recv place recv → recv.Clear :=
              fun place recv hears => isolated.cluster.clear c place recv (received place recv hears)
            rcases Control.rkeyOf_of_step cb ran clear i with same | zero | offered
            · rw [same]
              exact (isolated.tables c cb i).imp_right fun issued => issued.advance cluster
            · exact Or.inl zero
            · obtain ⟨recv, mr, hears, offer, key⟩ := offered
              right
              rw [← key]
              have life := isolated.cluster.life_of_offer (received cb recv hears) offer
              exact (isolated.issued_of_life life).advance cluster
          · rw [Function.update_of_ne different]
            exact (isolated.tables c cb i).imp_right fun issued => issued.advance cluster
      posted := fun c cb op member =>
        (isolated.posted c cb op member).imp_right fun issued => issued.advance cluster
      asked := fun cb src ask member =>
        ⟨(isolated.asked cb src ask member).1, fun i first =>
          ((isolated.asked cb src ask member).2 i first).advance cluster⟩
      copies := fun src cb copy member =>
        ⟨(isolated.copies src cb copy member).1.advance cluster, fun c same =>
          ((isolated.copies src cb copy member).2 c same).advance cluster⟩
      sources := by
        intro cb i write member
        unfold RemoteMemory.advance Guarded.turn at member
        dsimp only at member
        split at member
        · exact absurd member List.not_mem_nil
        · exact isolated.sources cb i write member }

/-- A client posts under a key of its tables. -/
theorem Isolated.post {c : Fin clients} {cb : Fin servers} {i : Block} {ops : List RdmaOp}
    (isolated : s.Isolated slot)
    (keys : ∀ op ∈ ops, op.rkey = (s.block c cb i).remoteRkey) :
    (s.post c cb ops).Isolated slot :=
  { isolated with
    posted := forall_mem_update isolated.posted fun op member => by
      rcases List.mem_append.mp member with before | new
      · exact isolated.posted c cb op before
      · rw [keys op new]
        exact isolated.tables c cb i }

/-- An operation has left the queue. -/
theorem Isolated.takePosted {c : Fin clients} {cb : Fin servers} {op : RdmaOp}
    {rest : List RdmaOp} (isolated : s.Isolated slot) (first : s.posted c cb = op :: rest) :
    Isolated slot { s with
      posted := Function.update s.posted c (Function.update (s.posted c) cb rest) } :=
  { isolated with
    posted := forall_mem_update isolated.posted fun later member =>
      isolated.posted c cb later (by rw [first]; exact List.mem_cons_of_mem _ member) }

/-- Bytes are written to a region under a key of their client. -/
theorem Isolated.writeMemory {cb : Fin servers} {i : Region} {client holder : Nat} {key : UInt32}
    {cells : List (Nat × Byte clients)} (isolated : s.Isolated slot)
    (issued : s.Issued cb key client)
    (held : (s.cluster.daemon cb).mrh.life i = .held holder key)
    (own : ∀ c, client = slot cb c → ∀ cell ∈ cells, IsOf c cell.2) :
    (s.writeMemory cb i client cells).Isolated slot := by
  have keeps (at_ : Fin servers) : ((s.writeMemory cb i client cells).memory at_).life =
      (s.memory at_).life ∧ ((s.writeMemory cb i client cells).memory at_).issued =
        (s.memory at_).issued := by
    unfold RemoteMemory.writeMemory
    dsimp only
    rcases eq_or_ne at_ cb with rfl | different
    · rw [Function.update_self]
      exact ⟨rfl, rfl⟩
    · rw [Function.update_of_ne different]
      exact ⟨rfl, rfl⟩
  have same (at_ : Fin servers) (key : UInt32) (client' : Nat) :
      (s.writeMemory cb i client cells).Issued at_ key client' = s.Issued at_ key client' := by
    unfold Issued
    rw [(keeps at_).2]
  exact
    { cluster := isolated.cluster
      lives := fun at_ => (keeps at_).1.trans (isolated.lives at_)
      guarded := by
        intro at_
        unfold RemoteMemory.writeMemory
        dsimp only
        rcases eq_or_ne at_ cb with rfl | different
        · rw [Function.update_self]
          rw [← isolated.lives at_] at held
          exact (isolated.guarded at_).write cells issued held
        · rw [Function.update_of_ne different]
          exact isolated.guarded at_
      nonzero := fun at_ other => by
        rw [same]
        exact isolated.nonzero at_ other
      tables := fun c at_ j => by
        rw [same]
        exact isolated.tables c at_ j
      posted := fun c at_ op member => by
        rw [same]
        exact isolated.posted c at_ op member
      asked := fun at_ src ask member =>
        ⟨(isolated.asked at_ src ask member).1, fun j first => by
          rw [same]
          exact (isolated.asked at_ src ask member).2 j first⟩
      copies := fun src at_ copy member =>
        ⟨by rw [same]; exact (isolated.copies src at_ copy member).1, fun c is => by
          rw [same]
          exact (isolated.copies src at_ copy member).2 c is⟩
      sources := by
        intro at_ j write member c is cell inside
        unfold RemoteMemory.writeMemory Guarded.write at member
        dsimp only at member
        rcases eq_or_ne at_ cb with rfl | different
        · rw [Function.update_self] at member
          dsimp only at member
          rcases eq_or_ne j i with rfl | other
          · rw [Function.update_self] at member
            rcases List.mem_append.mp member with before | last
            · exact isolated.sources at_ j write before c is cell inside
            · obtain rfl := List.mem_singleton.mp last
              exact own c is cell inside
          · rw [Function.update_of_ne other] at member
            exact isolated.sources at_ j write member c is cell inside
        · rw [Function.update_of_ne different] at member
          exact isolated.sources at_ j write member c is cell inside }

/-- A key of a client opens a region that is registered for it. -/
theorem Isolated.opened (isolated : s.Isolated slot) {c : Fin clients} {cb : Fin servers}
    {op : RdmaOp} (own : op.rkey = 0 ∨ s.Issued cb op.rkey (slot cb c)) {i : Region}
    {length start : Nat} (opened : opens (s.cluster.daemon cb).mrh op.rkey op.remoteAddr length =
      some (i, start)) :
    (s.cluster.daemon cb).mrh.life i = .held (slot cb c) op.rkey ∧
      s.Issued cb op.rkey (slot cb c) := by
  obtain ⟨holder, held⟩ := life_of_opens opened
  rcases own with zero | issued
  · rw [zero] at held
    exact absurd (isolated.issued_of_life held) (isolated.nonzero cb holder)
  · obtain rfl := isolated.owner issued held
    exact ⟨held, issued⟩

theorem Isolated.land {c : Fin clients} {cb : Fin servers} {op : RdmaOp}
    (isolated : s.Isolated slot) (own : op.rkey = 0 ∨ s.Issued cb op.rkey (slot cb c)) :
    (s.land slot c cb op).Isolated slot := by
  unfold RemoteMemory.land
  split
  · rename_i bytes i start opened
    obtain ⟨held, issued⟩ := isolated.opened own opened
    refine isolated.writeMemory issued held fun other same cell member => ?_
    rw [← (slot cb).injective same]
    exact isOf_of_mem_placed member
  · exact isolated

theorem Isolated.landCopy {src cb : Fin servers} {copy : RegionCopy} (isolated : s.Isolated slot)
    (issued : s.Issued cb copy.rkey copy.client)
    (from_ : ∀ c, copy.client = slot cb c → s.Issued src copy.lkey (slot src c)) :
    (s.landCopy src cb copy).Isolated slot := by
  unfold RemoteMemory.landCopy
  split
  · rename_i holder key i start source opened
    split
    · rename_i same
      obtain ⟨client, held⟩ := life_of_opens opened
      refine isolated.writeMemory issued held fun c is cell member => ?_
      obtain ⟨k, -, rfl⟩ := List.mem_map.mp member
      rw [same] at source
      obtain rfl := isolated.owner (from_ c is) source
      exact isolated.content source _
    · exact isolated
  · exact isolated

/-- A destination asks for the migration of a block to a region of the client. -/
theorem Isolated.request {cb src : Fin servers} {client : Nat} {sendBuf : Message}
    {localRb : Region} {srcRbIndex : Int} (isolated : s.Isolated slot)
    (mapped : (s.cluster.daemon cb).mrh.cbIndexMap localRb = some client) :
    Isolated slot { s with
      asked := Function.update s.asked cb (Function.update (s.asked cb) src
        (s.asked cb src ++
          [(client, (s.cluster.daemon cb).mrh.requestMessage sendBuf localRb.val srcRbIndex)])) } :=
  { isolated with
    asked := forall_mem_update isolated.asked fun ask member => by
      rcases List.mem_append.mp member with before | new
      · exact isolated.asked cb src ask before
      · obtain rfl := List.mem_singleton.mp new
        refine ⟨rfl, fun i first => ?_⟩
        obtain ⟨rfl, key⟩ := firstRkey_requestMessage first
        dsimp only
        rw [key]
        exact isolated.issued_of_life (RdmaMrHandler.life_eq_held.mpr ⟨mapped, rfl⟩) }

theorem Isolated.takeAsked {cb src : Fin servers} {ask : Nat × Message}
    {rest : List (Nat × Message)} (isolated : s.Isolated slot)
    (first : s.asked cb src = ask :: rest) :
    Isolated slot { s with
      asked := Function.update s.asked cb (Function.update (s.asked cb) src rest) } :=
  { isolated with
    asked := forall_mem_update isolated.asked fun later member =>
      isolated.asked cb src later (by rw [first]; exact List.mem_cons_of_mem _ member) }

theorem Isolated.takeCopy {cb src : Fin servers} {copy : RegionCopy} {rest : List RegionCopy}
    (isolated : s.Isolated slot) (first : s.copies src cb = copy :: rest) :
    Isolated slot { s with
      copies := Function.update s.copies src (Function.update (s.copies src) cb rest) } :=
  { isolated with
    copies := forall_mem_update isolated.copies fun later member =>
      isolated.copies src cb later (by rw [first]; exact List.mem_cons_of_mem _ member) }

/-- A source that handles a request posts one write to the destination. -/
theorem posts_of_migration {src : Fin servers} {number : Nat} {msg : Message} {mr : IbvMr}
    {stamps : Region → Timeval} {cluster next : Cluster clients servers replicas}
    (type : msg.type = .reqMigration)
    (edge : Cluster.step slot weigh cluster (.turn src (.daemon (.recv number msg mr stamps))) =
      some next) :
    ∃ i, msg.firstRkey = some i ∧
      addressed number ((next.daemon src).sent.drop (cluster.daemon src).sent.length) =
        [.write (msg.rkey i) (msg.buf i) msg.sizeGb] := by
  simp only [Cluster.step] at edge
  split at edge
  · obtain ⟨moved, ran, isNext⟩ := Option.map_eq_some_iff.mp edge
    have daemon : next.daemon src = moved := by
      rw [← isNext]
      exact Function.update_self ..
    rw [daemon]
    cases Session.handles_of_ok (toOption_eq_some ran) with
    | @migrates i same named =>
        refine ⟨i, named, ?_⟩
        have sent : ((cluster.daemon src).modifyMigrbh number fun migrbh =>
            { migrbh with localRbIndex := msg.sizeGb }).sent = (cluster.daemon src).sent := rfl
        unfold Session.postWrite
        dsimp only
        rw [sent, List.drop_left]
        simp [addressed]
    | query other | migMap other | mrMap other | deleted other =>
        rw [type] at other
        cases other
    | ignored other => exact absurd (by rw [type]; simp) other
  · cases edge

theorem copy_of_copiesOf {mrh : RdmaMrHandler} {client : Nat} {rkey : UInt32} {addr : UInt64}
    {localRbIndex : Int} {copies : List RegionCopy}
    (listed : copiesOf mrh client (.write rkey addr localRbIndex) = some copies) :
    ∃ i : Region, localRbIndex = i.val ∧ ∀ copy ∈ copies, copy.client = client ∧
      copy.rkey = rkey ∧ copy.lkey = (mrh.mrList i).rkey := by
  obtain ⟨i, found, rfl⟩ := Option.map_eq_some_iff.mp listed
  refine ⟨i, index_eq_ok.mp (toOption_eq_some found), fun copy member => ?_⟩
  rcases List.mem_cons.mp member with rfl | later
  · exact ⟨rfl, rfl, rfl⟩
  · obtain rfl := List.mem_singleton.mp later
    exact ⟨rfl, rfl, rfl⟩

/-- A source handles a request: what it posts goes under the key that the destination named. -/
theorem Isolated.migrate {cb src : Fin servers} {client : Nat} {msg : Message} {mr : IbvMr}
    {stamps : Region → Timeval} (isolated : s.Isolated slot) (fresh : s.Fresh src mr)
    (type : msg.type = .reqMigration)
    (issued : ∀ i, msg.firstRkey = some i → s.Issued cb (msg.rkey i) client)
    (source : ∀ c, client = slot cb c → ∀ i : Region, msg.sizeGb = i.val →
      (s.cluster.daemon src).mrh.cbIndexMap i = some (slot src c))
    (edge : s.migrate slot peer weigh src cb client msg mr stamps = some next) :
    next.Isolated slot := by
  obtain ⟨cluster, moved, rest⟩ := Option.bind_eq_some_iff.mp edge
  obtain ⟨copies, listed, isNext⟩ := Option.bind_eq_some_iff.mp rest
  obtain ⟨i, first, posts⟩ := posts_of_migration type moved
  rw [posts, List.mapM_cons] at listed
  obtain ⟨ops, made, tail⟩ := Option.bind_eq_some_iff.mp listed
  obtain rfl : [ops] = copies := by simpa using tail
  obtain ⟨r, isRegion, each⟩ := copy_of_copiesOf made
  have advanced := isolated.advance (by rintro registered ⟨⟩; exact fresh) moved
  cases isNext
  exact
    { advanced with
      copies := forall_mem_update advanced.copies fun copy member => by
        rcases List.mem_append.mp member with before | new
        · exact advanced.copies src cb copy before
        · obtain ⟨same, rkey, lkey⟩ := each copy (by simpa using new)
          rw [same, rkey, lkey]
          refine ⟨(issued i first).advance cluster, fun c is => ?_⟩
          have life := RdmaMrHandler.life_eq_held.mpr ⟨source c is r isRegion, rfl⟩
          exact (isolated.issued_of_life life).advance cluster }

theorem Isolated.step {label : MemoryLabel clients servers replicas} (isolated : s.Isolated slot)
    (timely : s.Timely slot label) (edge : s.step slot peer weigh label = some next) :
    next.Isolated slot := by
  cases label with
  | system label =>
      simp only [RemoteMemory.step] at edge
      split at edge
      · obtain ⟨cluster, moved, rfl⟩ := Option.map_eq_some_iff.mp edge
        exact isolated.advance timely moved
      · cases edge
  | write c cb rb offset data stamp =>
      cases edge
      refine isolated.post (i := rb) fun op member => ?_
      rcases List.mem_cons.mp member with rfl | later
      · rfl
      · obtain rfl := List.mem_singleton.mp later
        rfl
  | read c cb rb offset =>
      cases edge
      refine isolated.post (i := rb) fun op member => ?_
      obtain rfl := List.mem_singleton.mp member
      rfl
  | land c cb =>
      simp only [RemoteMemory.step] at edge
      split at edge
      · cases edge
      · rename_i op rest first
        cases edge
        refine (isolated.takePosted first).land ?_
        exact isolated.posted c cb op (by rw [first]; exact List.mem_cons_self)
  | request cb src client sendBuf localRb srcRbIndex =>
      cases edge
      exact isolated.request timely
  | migrate src cb mr stamps =>
      simp only [RemoteMemory.step] at edge
      split at edge
      · cases edge
      · rename_i client msg rest first
        obtain ⟨type, issued⟩ := isolated.asked cb src (client, msg)
          (by rw [first]; exact List.mem_cons_self)
        refine (isolated.takeAsked first).migrate timely.1 type issued ?_ edge
        exact timely.2 (client, msg) (by rw [first]; rfl)
  | copy src cb =>
      simp only [RemoteMemory.step] at edge
      split at edge
      · cases edge
      · rename_i copy rest first
        cases edge
        obtain ⟨issued, source⟩ := isolated.copies src cb copy
          (by rw [first]; exact List.mem_cons_self)
        exact (isolated.takeCopy first).landCopy issued source

/-- Whose memory is where. -/
structure Private (slot : Fin servers → Fin clients ↪ Nat)
    (s : RemoteMemory clients servers replicas) : Prop where
  region : ∀ c cb i, (s.cluster.daemon cb).mrh.cbIndexMap i = some (slot cb c) →
    ∀ place, IsOf c ((s.memory cb).content i place)
  access : ∀ c cb, ∀ op ∈ s.posted c cb, ∀ i start,
    opens (s.cluster.daemon cb).mrh op.rkey op.remoteAddr op.transfer.length = some (i, start) →
      (s.cluster.daemon cb).mrh.cbIndexMap i = some (slot cb c)
  moved : ∀ src cb, ∀ copy ∈ s.copies src cb, ∀ i start,
    opens (s.cluster.daemon cb).mrh copy.rkey copy.remoteAddr copy.length = some (i, start) →
      (s.cluster.daemon cb).mrh.cbIndexMap i = some copy.client
  waiting : ∀ cb i, (s.cluster.daemon cb).mrh.isFree i = true →
    ∀ place, (s.memory cb).content i place = none

theorem Isolated.private_ (isolated : s.Isolated slot) : s.Private slot where
  region := by
    intro c cb i mapped place
    exact isolated.content (RdmaMrHandler.life_eq_held.mpr ⟨mapped, rfl⟩) place
  access := by
    intro c cb op member i start opened
    have held := (isolated.opened (isolated.posted c cb op member) opened).1
    exact (RdmaMrHandler.life_eq_held.mp held).1
  moved := by
    intro src cb copy member i start opened
    obtain ⟨holder, held⟩ := life_of_opens opened
    obtain rfl := isolated.owner (isolated.copies src cb copy member).1 held
    exact (RdmaMrHandler.life_eq_held.mp held).1
  waiting := by
    intro cb i free place
    have guarded := isolated.guarded cb
    have life := RdmaMrHandler.life_of_isFree free
    rw [← isolated.lives cb] at life
    rw [guarded.content i, guarded.blank i life]
    rfl

theorem isolated_init (mrList : Fin servers → Region → IbvMr)
    (freeMemG lastFreeMemG : Fin servers → Int) :
    (init (.init mrList freeMemG lastFreeMemG) :
      RemoteMemory clients servers replicas).Isolated slot where
  cluster := Cluster.sound_init mrList freeMemG lastFreeMemG
  lives := fun _ => rfl
  guarded := by
    intro cb
    refine Guarded.sound_of_unheld (fun i client key held => ?_) rfl (fun _ => rfl) fun _ => rfl
    have held : (Session.init cb.val (mrList cb) (freeMemG cb) (lastFreeMemG cb)).mrh.life i =
        .held client key := held
    have mapped := (RdmaMrHandler.life_eq_held.mp held).1
    cases mapped
  nonzero := fun _ _ issued => nomatch issued
  tables := fun c cb i => Or.inl (Control.rkeyOf_init cb i)
  posted := fun _ _ _ member => absurd member List.not_mem_nil
  asked := fun _ _ _ member => absurd member List.not_mem_nil
  copies := fun _ _ _ member => absurd member List.not_mem_nil
  sources := fun _ _ _ member => absurd member List.not_mem_nil

variable {mrList : Fin servers → Region → IbvMr} {freeMemG lastFreeMemG : Fin servers → Int}
  {labels : List (MemoryLabel clients servers replicas)}

theorem isolated_of_run (run : Run (RemoteMemory.step slot peer weigh) (Timely slot)
    (init (.init mrList freeMemG lastFreeMemG)) labels s) : s.Isolated slot :=
  run.preserves (fun isolated timely edge => Isolated.step isolated timely edge)
    (isolated_init mrList freeMemG lastFreeMemG)

/-- In every order of steps, with any operations under way, regions hold zeros and bytes of the
client that has them, and operations open regions of their own client. -/
theorem private_of_run (run : Run (RemoteMemory.step slot peer weigh) (Timely slot)
    (init (.init mrList freeMemG lastFreeMemG)) labels s) : s.Private slot :=
  (isolated_of_run run).private_

/-- The servers that ask a server for regions are numbered after its clients. -/
def peers : Fin 2 → Fin 2 → Nat := fun _ cb => 2 + cb.val

/-- A client writes to its block before it has to give the region back.  The write arrives when the
second client has the region and has written to it, before another write of the second. -/
def lateWrite : List (MemoryLabel 2 2 0) :=
  (Cluster.relending.take 14).map .system ++ [.write 0 0 firstBlock 0 [1, 2] [3]] ++
    (Cluster.relending.drop 14).map .system ++
      [.write 1 0 firstBlock 0 [5] [6], .land 1 0, .land 0 0, .land 0 0, .land 1 0]

set_option maxRecDepth 4000 in
theorem private_of_run_lateWrite : ∃ last : RemoteMemory 2 2 0,
    exec (RemoteMemory.step Cluster.numbered peers Session.weighInt) (init Cluster.twoServers)
        lateWrite = some last ∧
      (last.cluster.daemon 0).mrh.cbIndexMap firstBlock = some 1 ∧
        (last.memory 0).content firstBlock 4096 = some (1, 5) ∧
          last.Private Cluster.numbered := by
  have ran : ((exec (guardedStep (RemoteMemory.step Cluster.numbered peers Session.weighInt)
      (Timely Cluster.numbered)) (init Cluster.twoServers : RemoteMemory 2 2 0) lateWrite).map
        fun last => ((last.cluster.daemon 0).mrh.cbIndexMap firstBlock,
          (last.memory 0).content firstBlock 4096)) = some (some 1, some (1, 5)) := by
    decide +kernel
  obtain ⟨last, guarded, holds⟩ := Option.map_eq_some_iff.mp ran
  obtain ⟨owner, content⟩ := Prod.mk.inj holds
  have run := run_of_guarded guarded
  exact ⟨last, run.exec_eq, owner, content, private_of_run run⟩

end RemoteMemory

end Valet.System
