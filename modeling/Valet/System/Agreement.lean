import Valet.Bd.Aliasing
import Valet.System.Cluster

/-!
# Clients and servers agree

Whatever the order of steps, each connection goes through steps of lending only.
So a region that a client was handed and did not delete is allocated to it and
to no other, and with nothing on its way both sides know the same regions.
-/

namespace Valet.System

open Valet.Wire Valet.Library Valet.Bd Valet.Daemon

namespace Cluster

variable {clients servers replicas : Nat} {slot : Fin servers → Fin clients ↪ Nat}
  {weigh : Int → Int → Int} {s next : Cluster clients servers replicas}

/-- Every connection takes a step of lending, or none. -/
def Refines (slot : Fin servers → Fin clients ↪ Nat) (s next : Cluster clients servers replicas) :
    Prop :=
  ∀ c cb, Relation.ReflGen Lending.Step (s.lending slot c cb) (next.lending slot c cb)

theorem Refines.sound (refines : Refines slot s next) (sound : s.Sound slot) (c : Fin clients)
    (cb : Fin servers) : (next.lending slot c cb).Sound :=
  (sound.sound c cb).reflGen (refines c cb)

/-- A step of a client. -/
theorem Sound.act {c : Fin clients} {label : ControlLabel servers replicas}
    {moved : Control servers replicas} (sound : s.Sound slot) (acts : isRecv label = false)
    (edge : (s.client c).step label = some moved) :
    (s.moveClient c moved ((s.client c).posts moved label)).Sound slot ∧
      Refines slot s (s.moveClient c moved ((s.client c).posts moved label)) := by
  have notRecv : ∀ at_ recv, label ≠ .recv at_ recv := by
    rintro at_ recv rfl
    cases acts
  have answers := Control.answers_of_step (sound.marks c) notRecv edge
  have refines : Refines slot s (s.moveClient c moved ((s.client c).posts moved label)) := by
    intro other cb
    unfold lending moveClient
    dsimp only
    rcases eq_or_ne other c with rfl | different
    · rw [Function.update_self, Function.update_self]
      exact returns_of_answers (answers cb).2
    · rw [Function.update_of_ne different, Function.update_of_ne different]
  refine ⟨⟨sound.lends, fun other cb => ?_, sound.clear, refines.sound sound⟩, refines⟩
  unfold moveClient
  dsimp only
  rcases eq_or_ne other c with rfl | different
  · rw [Function.update_self]
    exact (answers cb).1
  · rw [Function.update_of_ne different]
    exact sound.marks other cb

/-- A client takes in the first message of a server. -/
theorem Sound.deliver {c : Fin clients} {cb : Fin servers} {recv : Received}
    {rest : List Received} {moved : Control servers replicas} (sound : s.Sound slot)
    (first : s.toClient c cb = recv :: rest) (edge : (s.client c).step (.recv cb recv) = some moved)
    (isNext : next = { s with
      client := Function.update s.client c moved
      toClient := Function.update s.toClient c (Function.update (s.toClient c) cb rest) }) :
    next.Sound slot ∧ Refines slot s next := by
  have clear := sound.clear c cb recv (by rw [first]; exact List.mem_cons_self)
  have holds : ∀ i, recv.notice = some (.demand i) → (s.client c).handedOut cb i = true := by
    intro i demands
    have noticed : (s.lending slot c cb).notices =
        .demand i :: rest.filterMap Received.notice := by
      show (s.toClient c cb).filterMap Received.notice = _
      rw [first, List.filterMap_cons_some demands]
    exact (sound.sound c cb).held_of_demand noticed
  obtain ⟨marks, hears, others⟩ := Control.hears_of_recv (sound.marks c) clear holds edge
  have refines : Refines slot s next := by
    intro c' cb'
    unfold lending
    rw [isNext]
    dsimp only
    rcases eq_or_ne c' c with rfl | different
    · rw [Function.update_self, Function.update_self]
      rcases eq_or_ne cb' cb with rfl | elsewhere
      · rw [Function.update_self, first]
        exact hears_step hears
      · rw [Function.update_of_ne elsewhere]
        obtain ⟨held, asked⟩ := others cb' elsewhere
        unfold lendingOf
        rw [held, asked]
    · rw [Function.update_of_ne different, Function.update_of_ne different]
  refine ⟨⟨?_, ?_, ?_, refines.sound sound⟩, refines⟩
  · rw [isNext]
    exact sound.lends
  · intro c' cb'
    rw [isNext]
    dsimp only
    rcases eq_or_ne c' c with rfl | different
    · rw [Function.update_self]
      exact marks cb'
    · rw [Function.update_of_ne different]
      exact sound.marks c' cb'
  · intro c' cb' other member
    rw [isNext] at member
    dsimp only at member
    rcases eq_or_ne c' c with rfl | different
    · rw [Function.update_self] at member
      rcases eq_or_ne cb' cb with rfl | elsewhere
      · rw [Function.update_self] at member
        apply sound.clear c' cb'
        rw [first]
        exact List.mem_cons_of_mem _ member
      · rw [Function.update_of_ne elsewhere] at member
        exact sound.clear c' cb' other member
    · rw [Function.update_of_ne different] at member
      exact sound.clear c' cb' other member

/-- A step of a server that has taken `label` from its queues. -/
theorem Sound.serves {cb : Fin servers} {label : ServerLabel} {posts : List (Nat × Post)}
    {moved : Session} (rest : Fin clients → List Request) (sound : s.Sound slot)
    (serves : Session.Serves (s.daemon cb) label moved posts)
    (taken : ∀ c, (s.toDaemon c cb).filterMap Request.returned =
      (label.returned (slot cb c)).toList ++ (rest c).filterMap Request.returned)
    (isNext : next = { s with
      toDaemon := fun c => Function.update (s.toDaemon c) cb (rest c) }.moveDaemon slot cb moved) :
    next.Sound slot ∧ Refines slot s next := by
  have posted : moved.sent.drop (s.daemon cb).sent.length = posts := by
    rw [serves.sent, List.drop_left]
  have refines : Refines slot s next := by
    intro c cb'
    unfold lending
    rw [isNext]
    unfold moveDaemon
    dsimp only
    rw [posted]
    rcases eq_or_ne cb' cb with rfl | elsewhere
    · rw [Function.update_self, Function.update_self, Function.update_self]
      exact notices_of_turns (serves.turns (slot cb' c)) (rest c) (taken c)
    · rw [Function.update_of_ne elsewhere, Function.update_of_ne elsewhere,
        Function.update_of_ne elsewhere]
  refine ⟨⟨?_, ?_, ?_, refines.sound sound⟩, refines⟩
  · intro cb'
    rw [isNext]
    unfold moveDaemon
    dsimp only
    rcases eq_or_ne cb' cb with rfl | elsewhere
    · rw [Function.update_self]
      exact serves.lends
    · rw [Function.update_of_ne elsewhere]
      exact sound.lends cb'
  · rw [isNext]
    exact sound.marks
  · intro c cb' recv member
    rw [isNext] at member
    unfold moveDaemon at member
    dsimp only at member
    rw [posted] at member
    rcases eq_or_ne cb' cb with rfl | elsewhere
    · rw [Function.update_self] at member
      rcases List.mem_append.mp member with before | new
      · exact sound.clear c cb' recv before
      · obtain ⟨post, isPost, made⟩ := List.mem_filterMap.mp new
        cases post with
        | message msg =>
            cases made
            exact serves.plain _ msg (mem_addressed.mp isPost)
        | query qmsg =>
            cases made
            exact trivial
        | write rkey addr localRbIndex => cases made
    · rw [Function.update_of_ne elsewhere] at member
      exact sound.clear c cb' recv member

theorem returned_handle (number client : Nat) (mr : IbvMr) (stamps : Region → Timeval)
    (request : Request) : (handle client mr stamps request).returned number =
      if client = number then request.returned else none := by
  cases request with
  | connect => exact (ite_self none).symm
  | message msg =>
      unfold handle ServerLabel.returned Request.returned
      dsimp only
      split
      · rename_i both
        rw [if_pos both.1, if_pos both.2]
      · rename_i neither
        split
        · rename_i same
          rw [if_neg fun type => neither ⟨same, type⟩]
        · rfl

theorem returned_of_sender {label : ServerLabel} {number : Nat}
    (outside : ∀ n ∈ sender label, number ≠ n) : label.returned number = none := by
  unfold ServerLabel.returned
  split
  · rename_i client msg mr stamps
    rw [if_neg]
    rintro ⟨rfl, _⟩
    exact outside client rfl rfl
  · rfl

/-- What a step keeps, and what it is on each connection. -/
theorem Sound.step {label : ClusterLabel clients servers replicas} (sound : s.Sound slot)
    (registers : Registers s label) (edge : Cluster.step slot weigh s label = some next) :
    next.Sound slot ∧ Refines slot s next := by
  cases label with
  | act c label =>
      simp only [Cluster.step] at edge
      split at edge
      · cases edge
      · rename_i acts
        obtain ⟨moved, ran, rfl⟩ := Option.map_eq_some_iff.mp edge
        exact sound.act (eq_false_of_ne_true acts) ran
  | deliver c cb =>
      simp only [Cluster.step] at edge
      split at edge
      · cases edge
      · rename_i recv rest first
        obtain ⟨moved, ran, isNext⟩ := Option.map_eq_some_iff.mp edge
        exact sound.deliver first ran isNext.symm
  | serve c cb mr stamps =>
      simp only [Cluster.step] at edge
      split at edge
      · cases edge
      · rename_i request rest first
        obtain ⟨moved, ran, isNext⟩ := Option.map_eq_some_iff.mp edge
        have fresh : (handle (slot cb c) mr stamps request).Registers := by
          cases request with
          | connect => exact trivial
          | message msg => exact registers
        obtain ⟨posts, serves⟩ := (sound.lends cb).serves fresh ran
        refine Sound.serves (fun other => if other = c then rest else s.toDaemon other cb) sound
          serves (fun other => ?_) ?_
        · rw [returned_handle]
          rcases eq_or_ne other c with rfl | different
          · rw [if_pos rfl, if_pos rfl, first, List.filterMap_cons]
            cases request.returned <;> rfl
          · have numbers : slot cb c ≠ slot cb other := fun same =>
              different ((slot cb).injective same).symm
            rw [if_neg numbers, if_neg different]
            rfl
        · rw [← isNext]
          congr
          funext other
          rcases eq_or_ne other c with rfl | different
          · rw [Function.update_self, if_pos rfl]
          · rw [Function.update_of_ne different, if_neg different, Function.update_eq_self]
  | turn cb label =>
      simp only [Cluster.step] at edge
      split at edge
      · rename_i outside
        obtain ⟨moved, ran, isNext⟩ := Option.map_eq_some_iff.mp edge
        obtain ⟨posts, serves⟩ := (sound.lends cb).serves registers ran
        refine Sound.serves (fun c => s.toDaemon c cb) sound serves (fun c => ?_) ?_
        · rw [returned_of_sender fun n member => outside n member c]
          rfl
        · rw [← isNext]
          simp only [Function.update_eq_self]
      · cases edge

theorem sound_init (mrList : Fin servers → Region → IbvMr)
    (freeMemG lastFreeMemG : Fin servers → Int) :
    (init mrList freeMemG lastFreeMemG : Cluster clients servers replicas).Sound slot where
  lends := fun cb => Session.lends_init cb.val (mrList cb) (freeMemG cb) (lastFreeMemG cb)
  marks := fun _ cb => Control.marksOwn_init cb
  clear := fun _ _ _ member => absurd member List.not_mem_nil
  sound := by
    intro c cb
    refine Lending.sound_of_empty (fun item => ?_) (fun _ => rfl) rfl rfl rfl rfl
    have free : (Session.init cb.val (mrList cb) (freeMemG cb) (lastFreeMemG cb)).lentTo
        (slot cb c) item = none := by
      rw [Session.lentTo_eq_none]
      rintro ⟨⟩
    exact free

theorem Sound.run {labels : List (ClusterLabel clients servers replicas)}
    {last : Cluster clients servers replicas} (sound : s.Sound slot)
    (run : Run (Cluster.step slot weigh) Registers s labels last) : last.Sound slot :=
  run.preserves (fun sound registers edge => (sound.step registers edge).1) sound

/-- What clients and servers agree on: who has which region, also while messages are on their
way. -/
structure Agrees (slot : Fin servers → Fin clients ↪ Nat) (s : Cluster clients servers replicas) :
    Prop where
  backed : ∀ c cb i, (s.client c).handedOut cb i = true →
    (s.daemon cb).mrh.cbIndexMap i = some (slot cb c) ∧ (s.daemon cb).mrh.mallocMap i = true
  exclusive : ∀ c other cb i, (s.client c).handedOut cb i = true →
    (s.client other).handedOut cb i = true → c = other
  offered : ∀ c cb, ∀ recv ∈ s.toClient c cb, ∀ i, recv.offers i = true →
    (s.client c).handedOut cb i = false ∧ (s.daemon cb).mrh.cbIndexMap i = some (slot cb c)
  returned : ∀ c cb msg i, .message msg ∈ s.toDaemon c cb → msg.type = .deleteRb →
    msg.firstRkey = some i → (s.client c).handedOut cb i = false ∧
      (s.daemon cb).mrh.cbIndexMap i = some (slot cb c)
  settled : ∀ c cb, s.toClient c cb = [] → s.toDaemon c cb = [] → ∀ i,
    (s.client c).handedOut cb i = true ↔ (s.daemon cb).mrh.cbIndexMap i = some (slot cb c)

theorem owner_of_lent {c : Fin clients} {cb : Fin servers} {i : Region}
    (lent : ((s.lending slot c cb).lent i).isSome = true) :
    (s.daemon cb).mrh.cbIndexMap i = some (slot cb c) := by
  obtain ⟨mr, has⟩ := Option.isSome_iff_exists.mp lent
  exact (Session.lentTo_eq_some.mp has).1

theorem Sound.agrees (sound : s.Sound slot) : s.Agrees slot where
  backed := by
    intro c cb i held
    have mapped := owner_of_lent ((sound.sound c cb).lent_of_held held)
    exact ⟨mapped, (sound.lends cb).backed i (Session.isMapped_of_owner mapped)⟩
  exclusive := by
    intro c other cb i held again
    have mine := owner_of_lent ((sound.sound c cb).lent_of_held held)
    have its := owner_of_lent ((sound.sound other cb).lent_of_held again)
    rw [mine] at its
    exact (slot cb).injective (Option.some.inj its)
  offered := by
    intro c cb recv member i offers
    obtain ⟨key, notice⟩ := (sound.clear c cb recv member).offer offers
    have offered : 0 < (s.lending slot c cb).offered i :=
      List.countP_pos_iff.mpr ⟨.offer i key, List.mem_filterMap.mpr ⟨recv, member, notice⟩,
        decide_eq_true rfl⟩
    have onWay : 0 < (s.lending slot c cb).offered i + (s.lending slot c cb).returning i := by omega
    obtain ⟨unheld, lent⟩ := (sound.sound c cb).away onWay
    exact ⟨unheld, owner_of_lent lent⟩
  returned := by
    intro c cb msg i member type named
    have returning : 0 < (s.lending slot c cb).returning i := by
      refine List.count_pos_iff.mpr (List.mem_filterMap.mpr ⟨_, member, ?_⟩)
      rw [← named]
      exact if_pos type
    have onWay : 0 < (s.lending slot c cb).offered i + (s.lending slot c cb).returning i := by omega
    obtain ⟨unheld, lent⟩ := (sound.sound c cb).away onWay
    exact ⟨unheld, owner_of_lent lent⟩
  settled := by
    intro c cb noMessages noRequests i
    have held := (sound.sound c cb).settled (by
        show (s.toClient c cb).filterMap Received.notice = []
        rw [noMessages]
        rfl) (by
        show (s.toDaemon c cb).filterMap Request.returned = []
        rw [noRequests]
        rfl) i
    constructor
    · intro has
      exact owner_of_lent (by rw [← held]; exact has)
    · intro mapped
      have lent : ((s.lending slot c cb).lent i).isSome = true := by
        rw [show (s.lending slot c cb).lent i = some ((s.daemon cb).mrh.mrList i) from
          Session.lentTo_eq_some.mpr ⟨mapped, rfl⟩]
        rfl
      rw [← lent]
      exact held

variable {mrList : Fin servers → Region → IbvMr} {freeMemG lastFreeMemG : Fin servers → Int}
  {labels : List (ClusterLabel clients servers replicas)}

/-- In every order of steps each connection is one of lending. -/
theorem lending_of_run {label : ClusterLabel clients servers replicas}
    (run : Run (Cluster.step slot weigh) Registers (init mrList freeMemG lastFreeMemG) labels s)
    (registers : Registers s label) (edge : Cluster.step slot weigh s label = some next) :
    Refines slot s next :=
  (((sound_init mrList freeMemG lastFreeMemG).run run).step registers edge).2

/-- Clients are numbered from 0. -/
def numbered : Fin 2 → Fin 2 ↪ Nat := fun _ => Fin.valEmbedding

def ages : Region → Timeval := fun i => ⟨i.val + 1, 0⟩

/-- A client maps a swapspace, and the server registers the region under `key`. -/
def mapOn (c cb : Fin 2) (swapspace : Swapspace) (key : UInt32) : List (ClusterLabel 2 2 0) :=
  [.act c (.getCb swapspace), .act c (.chooseNodes fun _ => cb), .serve c cb ⟨4096, key⟩ ages,
    .serve c cb ⟨4096, key⟩ ages, .deliver c cb, .deliver c cb, .act c .mapRow]

/-- A server evicts a region of a client, which has no other place for it. -/
def evictOf (c cb : Fin 2) : List (ClusterLabel 2 2 0) :=
  [.turn cb (.daemon (.evict ages)), .deliver c cb, .act c (.takeEvict cb), .act c (.noDest cb),
    .act c (.postDelete cb), .serve c cb ⟨4096, 1⟩ ages, .act c (.sendDone cb), .act c (.clean cb),
    .turn cb (.daemon .evictDone)]

/-- Two clients map a swapspace each, memory gets short, and later it is there again. -/
def shortage : List (ClusterLabel 2 2 0) :=
  mapOn 0 0 firstSwapspace 7 ++ mapOn 1 0 firstSwapspace 9 ++ [.turn 0 (.daemon (.monitor 0))] ++
    evictOf 0 0 ++ evictOf 1 0 ++ List.replicate 24 (.turn 0 (.daemon (.monitor 60)))

/-- After a shortage the region of the first client goes to the second. -/
def relending : List (ClusterLabel 2 2 0) := shortage ++ mapOn 1 0 Control.secondSwapspace 11

def twoServers : Cluster 2 2 0 := init (fun _ _ => ⟨0, 0⟩) (fun _ => 12) fun _ => 12

/-- The request of the second client is handled, and the region goes to it. -/
theorem lending_of_run_relending : ∃ last next : Cluster 2 2 0,
    exec (Cluster.step numbered Session.weighInt) twoServers
        (shortage ++ (mapOn 1 0 Control.secondSwapspace 11).take 3) = some last ∧
      Cluster.step numbered Session.weighInt last (.serve 1 0 ⟨4096, 11⟩ ages) = some next ∧
        (last.daemon 0).mrh.cbIndexMap firstBlock = none ∧
          (next.daemon 0).mrh.cbIndexMap firstBlock = some 1 ∧ Refines numbered last next := by
  have ran : ((exec (guardedStep (Cluster.step numbered Session.weighInt) Registers) twoServers
      (shortage ++ (mapOn 1 0 Control.secondSwapspace 11).take 3)).bind fun last =>
        (Cluster.step numbered Session.weighInt last (.serve 1 0 ⟨4096, 11⟩ ages)).map fun next =>
          ((last.daemon 0).mrh.cbIndexMap firstBlock,
            (next.daemon 0).mrh.cbIndexMap firstBlock)) = some (none, some 1) := by
    decide +kernel
  obtain ⟨last, guarded, lends⟩ := Option.bind_eq_some_iff.mp ran
  obtain ⟨next, edge, owners⟩ := Option.map_eq_some_iff.mp lends
  rw [Prod.mk.injEq] at owners
  have run := run_of_guarded guarded
  have registers : Registers last (.serve 1 0 ⟨4096, 11⟩ ages) := by
    show (⟨4096, 11⟩ : IbvMr).rkey ≠ 0
    decide
  exact ⟨last, next, run.exec_eq, edge, owners.1, owners.2, lending_of_run run registers edge⟩

/-- In every order of steps clients and servers agree. -/
theorem agrees_of_run
    (run : Run (Cluster.step slot weigh) Registers (init mrList freeMemG lastFreeMemG) labels s) :
    s.Agrees slot :=
  ((sound_init mrList freeMemG lastFreeMemG).run run).agrees

theorem agrees_of_run_relending : ∃ last : Cluster 2 2 0,
    exec (Cluster.step numbered Session.weighInt) twoServers relending = some last ∧
      (last.client 1).handedOut 0 firstBlock = true ∧ last.Agrees numbered := by
  have ran : ((exec (guardedStep (Cluster.step numbered Session.weighInt) Registers) twoServers
      relending).map fun last => (last.client 1).handedOut 0 firstBlock) = some true := by
    decide +kernel
  obtain ⟨last, guarded, holds⟩ := Option.map_eq_some_iff.mp ran
  have run := run_of_guarded guarded
  exact ⟨last, run.exec_eq, holds, agrees_of_run run⟩

end Cluster

end Valet.System
