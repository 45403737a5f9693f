import Valet.Bd.EvictSlots
import Valet.Daemon.Lender

/-!
# The client as a borrower of blocks

To each of its servers the client is a borrower: it holds the blocks that were
handed out to it and that it did not delete since, and it answers an `EVICT`
once, at the end of its round.  It deletes the blocks that are marked by then,
which are its own, but need not be those of the `EVICT`.
-/

namespace Valet.Bd

open Valet.Wire Valet.Library Valet.Daemon

/-- What a client hands to a connection. -/
inductive Request where
  | connect
  | message (msg : Message)

/-- The block that a `DELETE_RB` gives back. -/
def Request.returned : Request → Option (Option Block)
  | .connect => none
  | .message msg => if msg.type = .deleteRb then some msg.firstRkey else none

theorem Request.returned_message {msg : Message} (type : msg.type ≠ .deleteRb) :
    (Request.message msg).returned = none := if_neg type

def Received.notice : Received → Option (Notice Block IbvMr)
  | .query _ => none
  | .message msg => noticeOf msg

/-- What is addressed to one party. -/
def addressed {Party Item : Type} [DecidableEq Party] (party : Party)
    (posts : List (Party × Item)) : List Item :=
  posts.filterMap fun post => if post.1 = party then some post.2 else none

theorem mem_addressed {Party Item : Type} [DecidableEq Party] {party : Party}
    {posts : List (Party × Item)} {item : Item} :
    item ∈ addressed party posts ↔ (party, item) ∈ posts := by
  unfold addressed
  rw [List.mem_filterMap]
  constructor
  · rintro ⟨⟨to_, other⟩, member, kept⟩
    obtain ⟨rfl, same⟩ := Option.ite_none_right_eq_some.mp kept
    cases same
    exact member
  · intro member
    exact ⟨(party, item), member, if_pos rfl⟩

/-- `DELETE_RB` is posted and the blocks are not cleared yet. -/
def HandlerPc.deleting {servers : Nat} : HandlerPc servers → Bool
  | .waitDelete _ _ => true
  | _ => false

namespace ValetSession

variable {servers replicas : Nat} (s : ValetSession servers replicas)

/-- How `find_the_best_node` asks a server. -/
def query (cb : Fin servers) : Request :=
  if s.cbStateList cb = .idle then .connect else .message ((s.queried cb).cbList cb).sendBuf

theorem returned_query (cb : Fin servers) : (s.query cb).returned = none := by
  unfold query
  split
  · rfl
  · rename_i connected
    have type : ((s.queried cb).cbList cb).sendBuf.type = .reqQuery := by
      simp [queried, connected, modifySendBuf, setCb, setState]
    exact Request.returned_message (by rw [type]; rintro ⟨⟩)

theorem type_requestMrMap (cb : Fin servers) (row : Fin (replicas + 1)) (selectIdx : Swapspace) :
    ((s.requestMrMap cb row selectIdx).cbList cb).sendBuf.type = .reqMrMap := by
  simp [requestMrMap, modifySendBuf, setCb]

theorem type_requestMigMap {s next : ValetSession servers replicas} {oldCb newCb : Fin servers}
    {round : Round} (ran : s.requestMigMap oldCb newCb round = .ok next) :
    (next.cbList newCb).sendBuf.type = .reqMigMap := by
  obtain ⟨row, _, rest⟩ := bind_eq_ok.mp ran
  obtain ⟨swapspace, _, last⟩ := bind_eq_ok.mp rest
  cases last
  simp [modifySendBuf, setCb]

end ValetSession

namespace Control

open ValetSession

variable {servers replicas : Nat} (m : Control servers replicas)

/-- What a step hands to the connections; a message is the buffer as it is then. -/
def posts (next : Control servers replicas) :
    ControlLabel servers replicas → List (Fin servers × Request)
  | .ask cb => [(cb, m.session.query cb)]
  | .chooseNodes replicaList =>
      (List.ofFn replicaList).map (fun cb => (cb, m.session.query cb)) ++
        [(replicaList 0, .message (next.session.cbList (replicaList 0)).sendBuf)]
  | .mapRow =>
      match next.mapper with
      | some (.waiting _ replicaList row) =>
          [(replicaList row, .message (next.session.cbList (replicaList row)).sendBuf)]
      | _ => []
  | .chooseDest _ newCb =>
      [(newCb, m.session.query newCb), (newCb, .message (next.session.cbList newCb).sendBuf)]
  | .postDelete cb => [(cb, .message (next.session.cbList cb).sendBuf)]
  | _ => []

/-- The server has asked for a block, and its round has not answered yet. -/
def asked (cb : Fin servers) : Bool :=
  match m.handler cb with
  | .waitEvict => decide ((m.session.rbh cb).cState = .evict)
  | .waitDelete _ _ => false
  | _ => true

/-- One block at most is marked on the server, and it is the client's unless it is being
deleted. -/
structure MarksOwn (cb : Fin servers) : Prop where
  own : (m.handler cb).deleting = false → ∀ i, (m.session.rbh cb).migRbIdx i = true →
    m.handedOut cb i = true
  single : ∀ i j, (m.session.rbh cb).migRbIdx i = true → (m.session.rbh cb).migRbIdx j = true →
    i = j

/-- What a step means to a server, by what it posts to it. -/
inductive Answers (m : Control servers replicas) (cb : Fin servers)
    (next : Control servers replicas) : List Request → Prop where
  | calm {requests : List Request} (held : next.handedOut cb = m.handedOut cb)
      (asked : next.asked cb = m.asked cb ∨ next.asked cb = false)
      (silent : ∀ request ∈ requests, request.returned = none) : Answers m cb next requests
  | gives {gone : Option Block} {request : Request} (asked : m.asked cb = true)
      (own : ∀ i, gone = some i → m.handedOut cb i = true)
      (held : next.handedOut cb = Lending.without (m.handedOut cb) gone false)
      (calm : next.asked cb = false) (returned : request.returned = some gone) :
      Answers m cb next [request]

variable {m} {next : Control servers replicas} {cb : Fin servers}

/-- A step changes `c_state` to something else than `RBH_EVICT` at most. -/
theorem asked_of_handler (handler : next.handler cb = m.handler cb)
    (state : (next.session.rbh cb).cState = (m.session.rbh cb).cState ∨
      (next.session.rbh cb).cState ≠ .evict) :
    next.asked cb = m.asked cb ∨ next.asked cb = false := by
  unfold asked
  rw [handler]
  cases m.handler cb with
  | waitEvict =>
      rcases state with same | other
      · left
        rw [same]
      · right
        exact decide_eq_false other
  | waitDelete => exact Or.inl rfl
  | findDest | waitMigMap | waitDone | copyBitmap | sendDelete => exact Or.inl rfl

theorem MarksOwn.mono (marks : m.MarksOwn cb)
    (deleting : (m.handler cb).deleting = true → (next.handler cb).deleting = true)
    (fewer : ∀ i, (next.session.rbh cb).migRbIdx i = true → (m.session.rbh cb).migRbIdx i = true)
    (held : ∀ i, m.handedOut cb i = true → next.handedOut cb i = true) : next.MarksOwn cb where
  own := by
    intro still i mark
    have before : (m.handler cb).deleting = false := by
      by_contra deletes
      rw [deleting (eq_true_of_ne_false deletes)] at still
      cases still
    exact held i (marks.own before i (fewer i mark))
  single := fun i j first second => marks.single i j (fewer i first) (fewer j second)

/-- What a step keeps that is about no server in particular. -/
structure Keeps (m : Control servers replicas) (cb : Fin servers)
    (next : Control servers replicas) : Prop where
  handler : next.handler cb = m.handler cb
  held : next.handedOut cb = m.handedOut cb
  state : (next.session.rbh cb).cState = (m.session.rbh cb).cState ∨
    (next.session.rbh cb).cState ≠ .evict
  marks : ∀ i, (next.session.rbh cb).migRbIdx i = true → (m.session.rbh cb).migRbIdx i = true

theorem keeps_of_rbh (handler : next.handler cb = m.handler cb)
    (held : next.handedOut cb = m.handedOut cb) (rbh : next.session.rbh cb = m.session.rbh cb) :
    Keeps m cb next where
  handler := handler
  held := held
  state := Or.inl (by rw [rbh])
  marks := by
    rw [rbh]
    exact fun _ => id

theorem Keeps.answers {requests : List Request} (keeps : Keeps m cb next) (marks : m.MarksOwn cb)
    (silent : ∀ request ∈ requests, request.returned = none) :
    next.MarksOwn cb ∧ Answers m cb next requests := by
  refine ⟨marks.mono ?_ keeps.marks ?_, .calm keeps.held
    (asked_of_handler keeps.handler keeps.state) silent⟩
  · rw [keeps.handler]
    exact id
  · rw [keeps.held]
    exact fun _ => id

/-- A handler goes on within its round. -/
theorem answers_goOn {session : ValetSession servers replicas} {pc : HandlerPc servers}
    {at_ : Fin servers} {requests : List Request} (marks : m.MarksOwn cb)
    (during : (m.handler at_).deleting = false)
    (inRound : m.asked at_ = true) (active : ∀ value, (m.goOn at_ pc value).asked at_ = true)
    (here : ∀ i, (session.rbh cb).migRbIdx i = true → (m.session.rbh cb).migRbIdx i = true)
    (other : cb ≠ at_ → (session.rbh cb).cState = (m.session.rbh cb).cState ∨
      (session.rbh cb).cState ≠ .evict)
    (silent : ∀ request ∈ requests, request.returned = none) :
    (m.goOn at_ pc session).MarksOwn cb ∧ Answers m cb (m.goOn at_ pc session) requests := by
  rcases eq_or_ne cb at_ with rfl | different
  · refine ⟨marks.mono ?_ here fun _ => id, .calm rfl (Or.inl ?_) silent⟩
    · rw [during]
      rintro ⟨⟩
    · rw [inRound, active]
  · have handler := handler_goOn_of_ne m different pc session
    exact Keeps.answers ⟨handler, rfl, other different, here⟩ marks silent

/-! ## The steps of the client -/

theorem silent_addressed {posts : List (Fin servers × Request)}
    (silent : ∀ post ∈ posts, post.2.returned = none) :
    ∀ request ∈ addressed cb posts, request.returned = none :=
  fun _ member => silent _ (mem_addressed.mp member)

theorem type_chooseDest {at_ newCb : Fin servers}
    (edge : m.step (.chooseDest at_ newCb) = some next) :
    (next.session.cbList newCb).sendBuf.type = .reqMigMap := by
  simp only [step] at edge
  split at edge
  · obtain ⟨session, ran, rfl⟩ := ok_of_map edge
    exact type_requestMigMap ran
  · cases edge

theorem cState_sendDone {s : ValetSession servers replicas} (at_ : Fin servers) :
    ((s.sendDone at_).rbh cb).cState = (s.rbh cb).cState ∨
      ((s.sendDone at_).rbh cb).cState ≠ .evict := by
  unfold sendDone
  split
  · exact Or.inl rfl
  · split
    · exact Or.inl (by rw [rbh_setState])
    · split
      · rcases eq_or_ne cb at_ with rfl | different
        · right
          rw [rbh_modifyRbh]
          rintro ⟨⟩
        · exact Or.inl (by rw [rbh_modifyRbh_of_ne _ different])
      · exact Or.inl rfl

/-- After the end of a round nothing is marked on its server. -/
theorem unmarked_of_cleans {s last : ValetSession servers replicas} {newCb : Option (Fin servers)}
    {round : Round} (cleans : Cleans s cb newCb round last) (i : Block) :
    (last.rbh cb).migRbIdx i = false := by
  obtain ⟨middle, rb, resets, same⟩ := cleans.rbh_old
  have marks : (last.rbh cb).migRbIdx = (middle.rbh cb).migRbIdx := by
    rw [same]
    rfl
  rw [marks]
  cases resets with
  | unmarked clear =>
      rcases rbh_clearNew s newCb cb with kept | cleared
      · rw [kept]
        exact clear i
      · rw [cleared]
  | @cleared j row swapspace marked isRow isSwapspace =>
      rcases rbh_clearNew ((s.modifyRbh cb RemoteBlockHandler.clearMarked).setCbIndex row swapspace
        noCbMapped) newCb cb with kept | cleared
      · rw [kept, rbh_setCbIndex, rbh_modifyRbh]
        rfl
      · rw [cleared]

theorem firstRkey_sendDeleteRb (marks : m.MarksOwn cb) (i : Block) :
    ((m.session.sendDeleteRb cb).cbList cb).sendBuf.firstRkey = some i ↔
      (m.session.rbh cb).migRbIdx i = true := by
  have keys : ∀ j, ((m.session.sendDeleteRb cb).cbList cb).sendBuf.rkey j ≠ 0 ↔
      (m.session.rbh cb).migRbIdx j = true := by
    intro j
    cases mark : (m.session.rbh cb).migRbIdx j <;>
      simp [sendDeleteRb, modifySendBuf, setCb, mark]
  constructor
  · intro first
    exact (keys i).mp (Message.rkey_of_firstRkey first)
  · intro mark
    refine Message.firstRkey_eq_some fun j => ?_
    rw [keys]
    constructor
    · intro other
      exact marks.single j i other mark
    · rintro rfl
      exact mark

/-- The handler posts `DELETE_RB`, and so gives the marked block back. -/
theorem answers_postDelete {at_ : Fin servers} {round : Round} {newCb : Option (Fin servers)}
    (marks : ∀ cb, m.MarksOwn cb) (sends : m.handler at_ = .sendDelete round newCb)
    (isNext : next = { m.goOn at_ (.waitDelete round newCb) (m.session.sendDeleteRb at_) with
      handedOut := Function.update m.handedOut at_ fun i =>
        m.handedOut at_ i && !(m.session.rbh at_).migRbIdx i }) :
    next.MarksOwn cb ∧ Answers m cb next (addressed cb (m.posts next (.postDelete at_))) := by
  have rbh : next.session.rbh cb = m.session.rbh cb := by
    rw [isNext]
    exact rbh_sendDeleteRb m.session at_ cb
  have single : ∀ i j, (next.session.rbh cb).migRbIdx i = true →
      (next.session.rbh cb).migRbIdx j = true → i = j := by
    rw [rbh]
    exact (marks cb).single
  rcases eq_or_ne cb at_ with rfl | different
  · have handler : next.handler cb = .waitDelete round newCb := by
      rw [isNext]
      exact handler_goOn m cb (.waitDelete round newCb) (m.session.sendDeleteRb cb)
    have asked : m.asked cb = true := by
      unfold Control.asked
      rw [sends]
    refine ⟨⟨?_, single⟩, ?_⟩
    · intro still
      rw [handler] at still
      cases still
    · have posts : addressed cb (m.posts next (.postDelete cb)) =
          [.message (next.session.cbList cb).sendBuf] := by
        simp [Control.posts, addressed]
      have first := firstRkey_sendDeleteRb (marks cb)
      rw [posts]
      have type : ((m.session.sendDeleteRb cb).cbList cb).sendBuf.type = .deleteRb := by
        simp [sendDeleteRb, modifySendBuf, setCb]
      have returned : (Request.message (next.session.cbList cb).sendBuf).returned =
          some ((m.session.sendDeleteRb cb).cbList cb).sendBuf.firstRkey := by
        rw [isNext]
        exact if_pos type
      refine .gives asked (fun i named => ?_) ?_ ?_ returned
      · exact (marks cb).own (by rw [sends]; rfl) i ((first i).mp named)
      · funext i
        rw [isNext]
        simp only [Function.update_self]
        cases mark : (m.session.rbh cb).migRbIdx i with
        | true =>
            rw [Lending.without, if_pos ((first i).mpr mark)]
            simp
        | false =>
            rw [Lending.without_of_ne]
            · simp
            · intro named
              rw [(first i).mp named] at mark
              cases mark
      · unfold Control.asked
        rw [handler]
  · have none : addressed cb (m.posts next (.postDelete at_)) = [] := by
      simp [Control.posts, addressed, different.symm]
    rw [none]
    refine Keeps.answers (keeps_of_rbh ?_ ?_ rbh) (marks cb) fun _ member => absurd member List.not_mem_nil
    · rw [isNext]
      exact handler_goOn_of_ne m different (.waitDelete round newCb) (m.session.sendDeleteRb at_)
    · rw [isNext]
      exact Function.update_of_ne different ..

theorem answers_clean {at_ : Fin servers} {round : Round} {newCb : Option (Fin servers)}
    {session : ValetSession servers replicas} (marks : ∀ cb, m.MarksOwn cb)
    (waits : m.handler at_ = .waitDelete round newCb)
    (cleans : Cleans m.session at_ newCb round session) :
    (m.goOn at_ .waitEvict session).MarksOwn cb ∧
      Answers m cb (m.goOn at_ .waitEvict session) [] := by
  have nothing : ∀ request ∈ ([] : List Request), request.returned = none :=
    fun _ member => absurd member List.not_mem_nil
  rcases eq_or_ne cb at_ with rfl | different
  · have unmarked := unmarked_of_cleans cleans
    have handler := handler_goOn m cb .waitEvict session
    refine ⟨⟨fun _ i mark => ?_, fun i _ mark => ?_⟩, .calm rfl (Or.inr ?_) nothing⟩
    · exact absurd mark (by rw [session_goOn, unmarked i]; rintro ⟨⟩)
    · exact absurd mark (by rw [session_goOn, unmarked i]; rintro ⟨⟩)
    · unfold Control.asked
      rw [handler, session_goOn]
      apply decide_eq_false
      rcases cleans.cState with deleted | idle
      · rw [deleted]
        rintro ⟨⟩
      · rw [idle]
        rintro ⟨⟩
  · have handler := handler_goOn_of_ne m different .waitEvict session
    refine Keeps.answers ⟨handler, rfl, ?_, ?_⟩ (marks cb) nothing
    · left
      rw [session_goOn]
      rcases cleans.rbh_other different with same | cleared
      · rw [same]
      · rw [cleared]
    · intro i mark
      rw [session_goOn] at mark
      rcases cleans.rbh_other different with same | cleared
      · rw [same] at mark
        exact mark
      · rw [cleared] at mark
        cases mark

theorem answers_of_step {label : ControlLabel servers replicas} (marks : ∀ cb, m.MarksOwn cb)
    (acts : ∀ at_ recv, label ≠ .recv at_ recv) (edge : m.step label = some next)
    (cb : Fin servers) :
    next.MarksOwn cb ∧ Answers m cb next (addressed cb (m.posts next label)) := by
  have own := marks cb
  have nothing : ∀ request ∈ ([] : List Request), request.returned = none :=
    fun _ member => absurd member List.not_mem_nil
  have inRound {at_ : Fin servers} {pc : HandlerPc servers} (here : m.handler at_ = pc)
      (busy : pc ≠ .waitEvict) (stays : pc.deleting = false) :
      (m.handler at_).deleting = false ∧ m.asked at_ = true := by
    unfold asked
    rw [here]
    cases pc with
    | waitEvict => exact absurd rfl busy
    | waitDelete => cases stays
    | findDest | waitMigMap | waitDone | copyBitmap | sendDelete => exact ⟨rfl, rfl⟩
  cases moves_of_step edge with
  | @ask at_ =>
      refine Keeps.answers (keeps_of_rbh rfl rfl (rbh_queried m.session at_ cb)) own
        (silent_addressed fun post member => ?_)
      rw [List.mem_singleton.mp member]
      exact returned_query m.session at_
  | getFinding | getMapped | noNodes =>
      exact Keeps.answers (keeps_of_rbh rfl rfl rfl) own nothing
  | @chooseNodes selectIdx replicaList finding distinct =>
      have rbh : (m.chooseNodes selectIdx replicaList).session.rbh cb = m.session.rbh cb := by
        unfold Control.chooseNodes
        rw [rbh_requestMrMap, rbh_foldl_queried]
      refine Keeps.answers (keeps_of_rbh rfl rfl rbh) own (silent_addressed fun post member => ?_)
      rcases List.mem_append.mp member with queries | last
      · obtain ⟨to_, _, rfl⟩ := List.mem_map.mp queries
        exact returned_query m.session to_
      · rw [List.mem_singleton.mp last]
        refine Request.returned_message ?_
        rw [show ((m.chooseNodes selectIdx replicaList).session.cbList (replicaList 0)).sendBuf.type =
          .reqMrMap from type_requestMrMap _ _ _ _]
        rintro ⟨⟩
  | @mapRow selectIdx replicaList row waiting arrived =>
      unfold Control.posts Control.mapRow
      dsimp only
      split
      · refine Keeps.answers (keeps_of_rbh rfl rfl ?_) own (silent_addressed fun post member => ?_)
        · exact rbh_requestMrMap _ _ _ _ _
        · rw [List.mem_singleton.mp member]
          refine Request.returned_message ?_
          dsimp only
          rw [type_requestMrMap]
          rintro ⟨⟩
      · exact Keeps.answers (keeps_of_rbh rfl rfl rfl) own nothing
  | recv => exact absurd rfl (acts _ _)
  | @sendDone at_ =>
      refine Keeps.answers ⟨rfl, rfl, cState_sendDone at_, fun i mark => ?_⟩ own nothing
      have same : ((m.session.sendDone at_).rbh cb).migRbIdx = (m.session.rbh cb).migRbIdx :=
        migRbIdx_sendDone
      rwa [same] at mark
  | @takeEvict at_ round session waits takes =>
      refine answers_goOn own (by rw [waits]; rfl) ?_ (fun _ => ?_) (fun i mark => ?_) ?_ nothing
      · cases takes with
        | taken evict isSrc isSwapspace isRb =>
            unfold asked
            rw [waits]
            exact decide_eq_true evict
      · unfold asked
        rw [handler_goOn]
      · rwa [takes.migRbIdx] at mark
      · intro different
        left
        cases takes with
        | taken evict isSrc isSwapspace isRb =>
            rw [rbh_modifyRbh_of_ne _ different, rbh_setCbState]
  | @noDest at_ round finding =>
      obtain ⟨during, asked⟩ := inRound finding (by rintro ⟨⟩) rfl
      refine answers_goOn own during asked (fun _ => ?_) (fun _ => id) (fun _ => Or.inl rfl) nothing
      unfold Control.asked
      rw [handler_goOn]
  | @chooseDest at_ newCb round change finding =>
      obtain ⟨during, asked⟩ := inRound finding (by rintro ⟨⟩) rfl
      refine answers_goOn own during asked (fun _ => ?_) (fun i mark => ?_) (fun _ => ?_)
        (silent_addressed fun post member => ?_)
      · unfold Control.asked
        rw [handler_goOn]
      · rwa [rbh_modifySendBuf, rbh_queried] at mark
      · left
        rw [rbh_modifySendBuf, rbh_queried]
      · rcases List.mem_cons.mp member with first | last
        · rw [first]
          exact returned_query m.session newCb
        · rw [List.mem_singleton.mp last]
          refine Request.returned_message ?_
          rw [type_chooseDest edge]
          rintro ⟨⟩
  | @readSlot at_ newCb round waits arrived =>
      obtain ⟨during, asked⟩ := inRound waits (by rintro ⟨⟩) rfl
      refine answers_goOn own during asked (fun _ => ?_) (fun _ => id) (fun _ => Or.inl rfl) nothing
      unfold Control.asked
      rw [handler_goOn]
  | @remap at_ newCb round dest session waits remaps =>
      obtain ⟨during, asked⟩ := inRound waits (by rintro ⟨⟩) rfl
      refine answers_goOn own during asked (fun _ => ?_) (fun i mark => ?_) (fun _ => ?_) nothing
      · unfold Control.asked
        rw [handler_goOn]
      · rwa [remaps.migRbIdx] at mark
      · cases remaps with
        | moved done isSwapspace =>
            rcases eq_or_ne cb newCb with rfl | different
            · right
              rw [rbh_modifyRbh]
              rintro ⟨⟩
            · left
              rw [rbh_modifyRbh_of_ne _ different, rbh_setRb, rbh_setCbIndex]
  | @copyBitmap at_ newCb round dest session remapped copies =>
      obtain ⟨during, asked⟩ := inRound remapped (by rintro ⟨⟩) rfl
      refine answers_goOn own during asked (fun _ => ?_) (fun i mark => ?_) (fun _ => ?_) nothing
      · unfold Control.asked
        rw [handler_goOn]
      · rwa [copies.migRbIdx] at mark
      · left
        cases copies with
        | copied isDest isSrc source =>
            rcases eq_or_ne cb newCb with rfl | different
            · rw [rbh_modifyRbh]
              rfl
            · rw [rbh_modifyRbh_of_ne _ different]
  | postDelete sends => exact answers_postDelete marks sends rfl
  | clean waits cleans => exact answers_clean marks waits cleans

/-! ## What the client receives -/

/-- What a message means to the client. -/
inductive Hears (m : Control servers replicas) (cb : Fin servers)
    (next : Control servers replicas) : Option (Notice Block IbvMr) → Prop where
  | silent (held : next.handedOut cb = m.handedOut cb)
      (asked : next.asked cb = m.asked cb ∨ next.asked cb = false) : Hears m cb next none
  | offered {i : Block} {key : IbvMr}
      (held : next.handedOut cb = Function.update (m.handedOut cb) i true)
      (asked : next.asked cb = m.asked cb ∨ next.asked cb = false) :
      Hears m cb next (some (.offer i key))
  | demanded {i : Block} (held : next.handedOut cb = m.handedOut cb) :
      Hears m cb next (some (.demand i))

end Control

/-- What the message says about blocks is about one at most. -/
def Received.Clear : Received → Prop
  | .query _ => True
  | .message msg => Daemon.Clear msg

/-- A message that hands out a block is an offer of it. -/
theorem Received.Clear.offer {recv : Received} {i : Block} (clear : recv.Clear)
    (offers : recv.offers i = true) : ∃ key, recv.notice = some (.offer i key) := by
  cases recv with
  | query => cases offers
  | message msg =>
      have both := (Bool.and_eq_true _ _).mp offers
      have keyed : msg.rkey i ≠ 0 := by simpa using both.2
      have reply : msg.type = .respMrMap ∨ msg.type = .respMigMap := of_decide_eq_true both.1
      have first := (clear.lone (reply.imp_right Or.inl)).firstRkey keyed
      show ∃ key, noticeOf msg = some (.offer i key)
      unfold noticeOf
      rcases reply with type | type
      · rw [type, first]
        exact ⟨_, rfl⟩
      · rw [type, first]
        exact ⟨_, rfl⟩

theorem Received.offers_of_notice {recv : Received} {i : Block} {key : IbvMr}
    (notice : recv.notice = some (.offer i key)) : recv.offers i = true := by
  cases recv with
  | query => cases notice
  | message msg =>
      have reply : (msg.type = .respMrMap ∨ msg.type = .respMigMap) ∧
          ∃ j, msg.firstRkey = some j ∧ Notice.offer j ⟨msg.buf j, msg.rkey j⟩ = .offer i key := by
        change noticeOf msg = some (.offer i key) at notice
        unfold noticeOf at notice
        split at notice
        · rename_i type
          exact ⟨Or.inl type, Option.map_eq_some_iff.mp notice⟩
        · rename_i type
          exact ⟨Or.inr type, Option.map_eq_some_iff.mp notice⟩
        · obtain ⟨j, _, same⟩ := Option.map_eq_some_iff.mp notice
          cases same
        · cases notice
      obtain ⟨type, j, first, same⟩ := reply
      cases same
      have keyed : (msg.rkey i != 0) = true := by simpa using Message.rkey_of_firstRkey first
      exact (Bool.and_eq_true _ _).mpr ⟨decide_eq_true type, keyed⟩

namespace Control

open ValetSession

variable {servers replicas : Nat} {m next : Control servers replicas} {cb : Fin servers}

/-- The blocks that are handed out after a message. -/
theorem held_of_notice {recv : Received} (clear : recv.Clear) (held : Block → Bool) :
    (fun i => recv.offers i || held i) =
      match recv.notice with
      | some (.offer i _) => Function.update held i true
      | _ => held := by
  have same (silent : ∀ i, recv.offers i = false) :
      (fun i => recv.offers i || held i) = held := by
    funext i
    rw [silent i, Bool.false_or]
  have noOffer (none : ∀ i key, recv.notice ≠ some (.offer i key)) (i : Block) :
      recv.offers i = false := by
    by_contra offers
    obtain ⟨key, notice⟩ := clear.offer (eq_true_of_ne_false offers)
    exact none i key notice
  cases notice : recv.notice with
  | none => exact same (noOffer fun i key => by rw [notice]; rintro ⟨⟩)
  | some said =>
      cases said with
      | demand j => exact same (noOffer fun i key => by rw [notice]; rintro ⟨⟩)
      | offer j key =>
          funext i
          dsimp only
          rcases eq_or_ne i j with rfl | different
          · rw [Function.update_self, Received.offers_of_notice notice, Bool.true_or]
          · rw [Function.update_of_ne different]
            cases offers : recv.offers i with
            | false => rw [Bool.false_or]
            | true =>
                obtain ⟨other, again⟩ := clear.offer offers
                rw [notice] at again
                cases again
                exact absurd rfl different

/-- Only an `EVICT` makes a round due. -/
theorem cState_of_receives {s session : ValetSession servers replicas} {recv : Received}
    (receives : Receives s cb recv session) : (session.rbh cb).cState = (s.rbh cb).cState ∨
      (session.rbh cb).cState ≠ .evict ∨ ∃ msg, recv = .message msg ∧ msg.type = .evict := by
  cases receives with
  | ignored => exact Or.inl rfl
  | refused => exact Or.inl (by rw [rbh_setState])
  | query => exact Or.inl (by rw [rbh_setState, rbh_modifyRbh])
  | @migMap msg alive type =>
      rw [rbh_modifyRbh, rbh_setState]
      cases named : msg.firstRkey with
      | none =>
          left
          simp [RemoteBlockHandler.valetMigrationBlockInit, named]
      | some i =>
          right
          left
          simp [RemoteBlockHandler.valetMigrationBlockInit, named]
  | mrMap alive type inits =>
      cases inits with
      | nothing => exact Or.inl (by rw [rbh_setState, rbh_setCbState])
      | mapped =>
          right
          left
          rw [rbh_setCbIndex, rbh_setRb, rbh_modifyRbh]
          rintro ⟨⟩
  | done =>
      right
      left
      rw [rbh_modifyRbh]
      rintro ⟨⟩
  | @evict msg alive type => exact Or.inr (Or.inr ⟨msg, rfl, type⟩)

/-- Only an `EVICT` and a destination mark blocks. -/
theorem marks_of_receives {s session : ValetSession servers replicas} {recv : Received}
    (receives : Receives s cb recv session) :
    (session.rbh cb).migRbIdx = (s.rbh cb).migRbIdx ∨
      ∃ msg, recv = .message msg ∧ (msg.type = .evict ∨ msg.type = .respMigMap) ∧
        (session.rbh cb).migRbIdx = fun i => msg.rkey i != 0 := by
  cases receives with
  | ignored => exact Or.inl rfl
  | refused => exact Or.inl (by rw [rbh_setState])
  | query => exact Or.inl (by rw [rbh_setState, rbh_modifyRbh])
  | @migMap msg alive type =>
      refine Or.inr ⟨msg, rfl, Or.inr type, ?_⟩
      rw [rbh_modifyRbh]
      rfl
  | mrMap alive type inits =>
      left
      cases inits with
      | nothing => rw [rbh_setState, rbh_setCbState]
      | mapped =>
          rw [rbh_setCbIndex, rbh_setRb, rbh_modifyRbh, rbh_setState, rbh_setCbState]
          rfl
  | done =>
      left
      rw [rbh_modifyRbh, rbh_setState]
  | @evict msg alive type =>
      refine Or.inr ⟨msg, rfl, Or.inl type, ?_⟩
      rw [rbh_modifyRbh]
      rfl

theorem notice_of_evict {msg : Message} (clear : Daemon.Clear msg) (type : msg.type = .evict) :
    ∃ i, msg.firstRkey = some i ∧ noticeOf msg = some (.demand i) := by
  obtain ⟨i, first⟩ := Option.isSome_iff_exists.mp (clear.named type)
  refine ⟨i, first, ?_⟩
  unfold noticeOf
  rw [type, first]
  rfl

theorem hears_of_recv {recv : Received} (marks : ∀ cb, m.MarksOwn cb) (clear : recv.Clear)
    (holds : ∀ i, recv.notice = some (.demand i) → m.handedOut cb i = true)
    (edge : m.step (.recv cb recv) = some next) :
    (∀ other, next.MarksOwn other) ∧ Hears m cb next recv.notice ∧
      ∀ other, other ≠ cb →
        next.handedOut other = m.handedOut other ∧ next.asked other = m.asked other := by
  cases moves_of_step edge with
  | @recv _ _ session receives =>
      have held := held_of_notice clear (m.handedOut cb)
      have others (other : Fin servers) (different : other ≠ cb) :
          Function.update m.handedOut cb (fun i => recv.offers i || m.handedOut cb i) other =
            m.handedOut other := Function.update_of_ne different ..
      refine ⟨fun other => ?_, ?_, fun other different => ⟨others other different, ?_⟩⟩
      · rcases eq_or_ne other cb with rfl | different
        · have kept : ∀ i, m.handedOut other i = true → Function.update m.handedOut other
              (fun i => recv.offers i || m.handedOut other i) other i = true := by
            intro i before
            rw [Function.update_self, before, Bool.or_true]
          rcases marks_of_receives receives with same | ⟨msg, rfl, type, marked⟩
          · refine (marks other).mono id (fun i mark => ?_) kept
            rwa [same] at mark
          · have keyed : ∀ i, (session.rbh other).migRbIdx i = true → msg.rkey i ≠ 0 := by
              intro i mark
              rw [marked] at mark
              simpa using mark
            have lone : msg.Lone := clear.lone (by tauto)
            refine ⟨fun _ i mark => ?_, fun i j first second =>
              lone i j (keyed i first) (keyed j second)⟩
            rcases type with evict | reply
            · obtain ⟨j, first, notice⟩ := notice_of_evict clear evict
              have same := lone.firstRkey (keyed i mark)
              rw [first] at same
              cases same
              exact kept _ (holds _ notice)
            · have bit : (msg.rkey i != 0) = true := by simpa using keyed i mark
              have offers : (Received.message msg).offers i = true :=
                (Bool.and_eq_true _ _).mpr ⟨decide_eq_true (Or.inr reply), bit⟩
              show Function.update m.handedOut other _ other i = true
              rw [Function.update_self, offers, Bool.true_or]
        · refine (marks other).mono id (fun i mark => ?_) fun i before => ?_
          · rwa [receives.rbh_of_ne different] at mark
          · show Function.update m.handedOut cb _ other i = true
            rw [others other different]
            exact before
      · have here : Function.update m.handedOut cb (fun i => recv.offers i || m.handedOut cb i) cb =
            match recv.notice with
            | some (.offer i _) => Function.update (m.handedOut cb) i true
            | _ => m.handedOut cb := by
          rw [Function.update_self, held]
        rcases cState_of_receives receives with same | other | ⟨msg, rfl, evict⟩
        · cases notice : recv.notice with
          | none =>
              rw [notice] at here
              exact .silent here (asked_of_handler rfl (Or.inl same))
          | some said =>
              rw [notice] at here
              cases said with
              | offer i key => exact .offered here (asked_of_handler rfl (Or.inl same))
              | demand i => exact .demanded here
        · cases notice : recv.notice with
          | none =>
              rw [notice] at here
              exact .silent here (asked_of_handler rfl (Or.inr other))
          | some said =>
              rw [notice] at here
              cases said with
              | offer i key => exact .offered here (asked_of_handler rfl (Or.inr other))
              | demand i => exact .demanded here
        · obtain ⟨i, _, notice⟩ := notice_of_evict clear evict
          have said : (Received.message msg).notice = some (.demand i) := notice
          rw [said] at here ⊢
          exact .demanded here
      · unfold asked
        rw [receives.rbh_of_ne different]

theorem marksOwn_init (cb : Fin servers) : (init : Control servers replicas).MarksOwn cb where
  own := fun _ _ mark => nomatch mark
  single := fun _ _ mark => nomatch mark

end Control

end Valet.Bd
