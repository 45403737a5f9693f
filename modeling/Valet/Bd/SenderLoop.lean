import Valet.Bd.DataSteps
import Valet.Bd.SendingList
import Valet.Library.Turns

/-!
# The loop of `remote_sender_fn`

The loop on its own: the sending list, and for every turn what the calls of
`rdma_write` come to.  Nobody else puts or takes items meanwhile.
-/

namespace Valet.Bd

open Valet.Library

/-- What a call of `rdma_write` comes to. -/
inductive WriteOutcome where
  | posted
  | failed
  | bounced
  deriving DecidableEq

/-- The state of the loop at the head of a turn. -/
structure SenderLoop where
  pool : ValetPagePool LocalPageList
  tmpFirst : Option LocalPageList
  mustGo : Bool

namespace LocalPageList

/-- The item follows on the other, and fits into one write with it. -/
def mergesWith (first tmp : LocalPageList) : Bool :=
  decide (tmp.startIndex = first.startIndex + first.len ∧ first.len + tmp.len ≤ rdmaWrBufLen)

def merge (first tmp : LocalPageList) : LocalPageList :=
  { first with batchList := first.batchList ++ tmp.batchList }

end LocalPageList

namespace SenderLoop

/-- The attempt to put an item is repeated until it succeeds. -/
def putAgain (pool : ValetPagePool LocalPageList) (tmp : LocalPageList) :
    Except Halt (ValetPagePool LocalPageList) :=
  match pool.putSendingIndex tmp with
  | (true, _) => .error .spin
  | (false, next) => .ok next

/-- `rdma_write`; the flag is the error return. -/
def rdmaWrite (pool : ValetPagePool LocalPageList) (outcome : WriteOutcome) (tmp : LocalPageList) :
    Except Halt (Bool × ValetPagePool LocalPageList) :=
  match outcome with
  | .posted => .ok (false, pool)
  | .failed => .ok (true, pool)
  | .bounced => do
      let pool ← putAgain pool tmp
      return (false, pool)

/-- `request_write`, given what `rdma_write` comes to for each swapspace. -/
def requestWrite (pool : ValetPagePool LocalPageList) (outcomes : Nat → WriteOutcome)
    (tmp : LocalPageList) : Except Halt (Bool × LocalPageList × ValetPagePool LocalPageList) :=
  if tmp.crossesBorder then do
    let secTmp := tmp.secondHalf
    let (failed, pool) ← rdmaWrite pool (outcomes secTmp.swapspaceIndex) secTmp
    if failed then
      return (true, tmp.firstHalf, pool)
    else do
      let (failed, pool) ← rdmaWrite pool (outcomes tmp.swapspaceIndex) tmp.firstHalf
      return (failed, tmp.firstHalf, pool)
  else do
    let (failed, pool) ← rdmaWrite pool (outcomes tmp.swapspaceIndex) tmp
    return (failed, tmp, pool)

/-- From the label `send` to the end of the turn. -/
def send (pool : ValetPagePool LocalPageList) (outcomes : Nat → WriteOutcome)
    (tmpFirst : LocalPageList) : Except Halt (ValetPagePool LocalPageList) := do
  let (failed, tmpFirst, pool) ← requestWrite pool outcomes tmpFirst
  if failed then putAgain pool tmpFirst else return pool

/-- The turn after the item was sent: with the next item in hand, or the return. -/
def afterSending (tmp : Option LocalPageList) :
    Except Halt (ValetPagePool LocalPageList) → Turn SenderLoop
  | .error _ => .hung
  | .ok pool =>
      match tmp with
      | none => .returned
      | some tmp => .again ⟨pool, some tmp, true⟩

/-- One turn of the loop. -/
def turn (s : SenderLoop) (outcomes : Nat → WriteOutcome) : Turn SenderLoop :=
  match s.pool.getSendingIndex with
  | (none, pool) =>
      match s.tmpFirst with
      | none => .returned
      | some first => afterSending none (send pool outcomes first)
  | (some none, _) => .hung
  | (some (some tmp), pool) =>
      match s.tmpFirst with
      | none =>
          if s.mustGo then
            afterSending none (send pool outcomes tmp)
          else
            .again ⟨pool, some tmp, s.mustGo⟩
      | some first =>
          if first.mergesWith tmp then
            .again ⟨pool, some (first.merge tmp), s.mustGo⟩
          else
            afterSending (some tmp) (send pool outcomes first)

/-- `remote_sender_fn` when it is called. -/
def called (pool : ValetPagePool LocalPageList) : SenderLoop := ⟨pool, none, false⟩

/-! ## What is put back -/

/-- What is put back of an item that a call of `rdma_write` was about. -/
def backOf (outcome : WriteOutcome) (tmp : LocalPageList) : List LocalPageList :=
  match outcome with
  | .posted => []
  | .failed => [tmp]
  | .bounced => [tmp]

/-- What is put back of an item that is sent. -/
def putBack (outcomes : Nat → WriteOutcome) (tmp : LocalPageList) : List LocalPageList :=
  if tmp.crossesBorder then
    match outcomes tmp.secondHalf.swapspaceIndex with
    | .failed => [tmp.firstHalf]
    | .posted => backOf (outcomes tmp.swapspaceIndex) tmp.firstHalf
    | .bounced => tmp.secondHalf :: backOf (outcomes tmp.swapspaceIndex) tmp.firstHalf
  else
    backOf (outcomes tmp.swapspaceIndex) tmp

variable {pool : ValetPagePool LocalPageList}

/-- Within the reach of the ring an item is put at the end of the list. -/
theorem putAgain_ok (serving : pool.Serving) (tmp : LocalPageList)
    (room : pool.contents.length < AlfQueue.ringReach) :
    ∃ next, putAgain pool tmp = .ok next ∧ next.Serving ∧
      next.contents = pool.contents ++ [tmp] := by
  have next := (serving.respond_put tmp).1
  obtain ⟨stored, contents⟩ := serving.contents_put tmp room
  rcases put : pool.putSendingIndex tmp with ⟨failed, after⟩
  cases failed with
  | false =>
      have answer : pool.respond (.put tmp) = (.stored, after) := by
        simp only [ValetPagePool.respond, put]
      rw [answer] at next contents
      refine ⟨after, ?_, next, contents⟩
      rw [putAgain, put]
  | true =>
      have answer : pool.respond (.put tmp) = (.full, after) := by
        simp only [ValetPagePool.respond, put]
      rw [answer] at stored
      cases stored

/-- `rdma_write` puts the item back itself only when the block is read-only. -/
theorem rdmaWrite_ok (serving : pool.Serving) (outcome : WriteOutcome) (tmp : LocalPageList)
    (room : outcome = .bounced → pool.contents.length < AlfQueue.ringReach) :
    ∃ failed next, rdmaWrite pool outcome tmp = .ok (failed, next) ∧ next.Serving ∧
      (failed = true → backOf outcome tmp ≠ []) ∧
        next.contents ++ (if failed then [tmp] else []) = pool.contents ++ backOf outcome tmp := by
  cases outcome with
  | posted => exact ⟨false, pool, rfl, serving, nofun, rfl⟩
  | failed => exact ⟨true, pool, rfl, serving, fun _ => List.cons_ne_nil _ _, rfl⟩
  | bounced =>
      obtain ⟨next, put, nextServing, contents⟩ := putAgain_ok serving tmp (room rfl)
      refine ⟨false, next, ?_, nextServing, nofun, ?_⟩
      · rw [rdmaWrite, put]
        rfl
      · rw [contents]
        exact List.append_nil _

/-- `request_write` leaves at most one part for its caller to put back. -/
theorem requestWrite_ok (serving : pool.Serving) (outcomes : Nat → WriteOutcome)
    (tmp : LocalPageList) (room : putBack outcomes tmp ≠ [] →
      pool.contents.length + (putBack outcomes tmp).length ≤ AlfQueue.ringReach) :
    ∃ failed item next, requestWrite pool outcomes tmp = .ok (failed, item, next) ∧
      next.Serving ∧ (failed = true → putBack outcomes tmp ≠ []) ∧
        next.contents ++ (if failed then [item] else []) =
          pool.contents ++ putBack outcomes tmp := by
  have least {part : LocalPageList} {back : List LocalPageList}
      (room : part :: back ≠ [] →
        pool.contents.length + (part :: back).length ≤ AlfQueue.ringReach) :
      pool.contents.length + back.length < AlfQueue.ringReach := by
    have bound := room (List.cons_ne_nil _ _)
    rw [List.length_cons] at bound
    omega
  unfold requestWrite
  cases crosses : tmp.crossesBorder with
  | false =>
      simp only [putBack, crosses, Bool.false_eq_true, if_false] at room ⊢
      obtain ⟨failed, next, write, nextServing, back, contents⟩ :=
        rdmaWrite_ok serving (outcomes tmp.swapspaceIndex) tmp fun bounced => by
          rw [bounced] at room
          exact least room
      exact ⟨failed, tmp, next, bind_eq_ok.mpr ⟨_, write, rfl⟩, nextServing, back, contents⟩
  | true =>
      simp only [putBack, crosses, if_true] at room ⊢
      cases second : outcomes tmp.secondHalf.swapspaceIndex with
      | failed =>
          exact ⟨true, tmp.firstHalf, pool, rfl, serving, fun _ => List.cons_ne_nil _ _, rfl⟩
      | posted =>
          simp only [second] at room
          obtain ⟨failed, next, write, nextServing, back, contents⟩ :=
            rdmaWrite_ok serving (outcomes tmp.swapspaceIndex) tmp.firstHalf fun bounced => by
              rw [bounced] at room
              exact least room
          refine ⟨failed, tmp.firstHalf, next, ?_, nextServing, back, contents⟩
          exact bind_eq_ok.mpr ⟨(false, pool), rfl, bind_eq_ok.mpr ⟨_, write, rfl⟩⟩
      | bounced =>
          simp only [second] at room
          obtain ⟨middle, put, middleServing, appended⟩ :=
            putAgain_ok serving tmp.secondHalf (by have bound := least room; omega)
          obtain ⟨failed, next, write, nextServing, _, contents⟩ :=
            rdmaWrite_ok middleServing (outcomes tmp.swapspaceIndex) tmp.firstHalf
              fun bounced => by
                have bound := least room
                rw [bounced] at bound
                rw [appended, List.length_append]
                exact bound
          have bounces : rdmaWrite pool .bounced tmp.secondHalf = .ok (false, middle) :=
            bind_eq_ok.mpr ⟨middle, put, rfl⟩
          refine ⟨failed, tmp.firstHalf, next, ?_, nextServing, fun _ => List.cons_ne_nil _ _, ?_⟩
          · exact bind_eq_ok.mpr ⟨_, bounces, bind_eq_ok.mpr ⟨_, write, rfl⟩⟩
          · rw [contents, appended, List.append_assoc]
            rfl

/-- Within the reach of the ring, sending an item appends what is put back of it. -/
theorem send_ok (serving : pool.Serving) (outcomes : Nat → WriteOutcome) (tmp : LocalPageList)
    (room : putBack outcomes tmp ≠ [] →
      pool.contents.length + (putBack outcomes tmp).length ≤ AlfQueue.ringReach) :
    ∃ next, send pool outcomes tmp = .ok next ∧ next.Serving ∧
      next.contents = pool.contents ++ putBack outcomes tmp := by
  obtain ⟨failed, item, middle, requested, middleServing, back, contents⟩ :=
    requestWrite_ok serving outcomes tmp room
  cases failed with
  | false =>
      refine ⟨middle, bind_eq_ok.mpr ⟨_, requested, rfl⟩, middleServing, ?_⟩
      rw [← contents]
      exact (List.append_nil _).symm
  | true =>
      have lengths := congrArg List.length contents
      simp only [if_true, List.length_append, List.length_singleton] at lengths
      have bound := room (back rfl)
      obtain ⟨next, put, nextServing, appended⟩ := putAgain_ok middleServing item (by omega)
      exact ⟨next, bind_eq_ok.mpr ⟨_, requested, put⟩, nextServing, appended.trans contents⟩

/-! ## The turns -/

/-- The loop holds an item, and these are on the list. -/
structure Holds (s : SenderLoop) (first : LocalPageList) (rest : List LocalPageList) : Prop where
  serving : s.pool.Serving
  tmpFirst : s.tmpFirst = some first
  contents : s.pool.contents = rest

variable {s : SenderLoop} {first tmp : LocalPageList} {rest : List LocalPageList}

/-- With nothing left on the list the loop sends what it holds and returns. -/
theorem Holds.turn_nil (holds : s.Holds first []) (outcomes : Nat → WriteOutcome) :
    s.turn outcomes = .returned := by
  obtain ⟨pool, got, serving, contents⟩ := holds.serving.getSendingIndex_nil holds.contents
  have few : (putBack outcomes first).length ≤ 2 := by
    unfold putBack backOf
    split
    · split
      · simp
      · split <;> simp
      · split <;> simp
    · split <;> simp
  obtain ⟨next, sent, _⟩ := send_ok serving outcomes first fun _ => by
    rw [contents]
    exact le_trans (by simpa using few) (by decide)
  simp only [turn, got, holds.tmpFirst, sent, afterSending]

theorem Holds.turn_merge (holds : s.Holds first (tmp :: rest))
    (merges : first.mergesWith tmp = true) (outcomes : Nat → WriteOutcome) :
    ∃ next, s.turn outcomes = .again next ∧ next.Holds (first.merge tmp) rest := by
  obtain ⟨pool, got, serving, contents⟩ := holds.serving.getSendingIndex_cons holds.contents
  refine ⟨⟨pool, some (first.merge tmp), s.mustGo⟩, ?_, serving, rfl, contents⟩
  simp only [turn, got, holds.tmpFirst, merges, if_true]

/-- An item that does not merge takes the place of the one that is sent. -/
theorem Holds.turn_send (holds : s.Holds first (tmp :: rest))
    (apart : first.mergesWith tmp = false) (outcomes : Nat → WriteOutcome)
    (room : putBack outcomes first ≠ [] →
      rest.length + (putBack outcomes first).length ≤ AlfQueue.ringReach) :
    ∃ next, s.turn outcomes = .again next ∧ next.Holds tmp (rest ++ putBack outcomes first) := by
  obtain ⟨pool, got, serving, contents⟩ := holds.serving.getSendingIndex_cons holds.contents
  obtain ⟨next, sent, nextServing, appended⟩ := send_ok serving outcomes first fun back => by
    rw [contents]
    exact room back
  rw [contents] at appended
  refine ⟨⟨next, some tmp, true⟩, ?_, nextServing, rfl, appended⟩
  simp only [turn, got, holds.tmpFirst, apart, Bool.false_eq_true, if_false, sent, afterSending]

theorem turn_called_nil (serving : pool.Serving) (nothing : pool.contents = [])
    (outcomes : Nat → WriteOutcome) : (called pool).turn outcomes = .returned := by
  obtain ⟨next, got, _⟩ := serving.getSendingIndex_nil nothing
  simp only [turn, called, got]

theorem turn_called_cons (serving : pool.Serving) (contents : pool.contents = tmp :: rest)
    (outcomes : Nat → WriteOutcome) :
    ∃ next, (called pool).turn outcomes = .again next ∧ next.Holds tmp rest := by
  obtain ⟨next, got, nextServing, nextContents⟩ := serving.getSendingIndex_cons contents
  refine ⟨⟨next, some tmp, false⟩, ?_, nextServing, rfl, nextContents⟩
  simp only [turn, called, got, Bool.false_eq_true, if_false]

/-! ## The sender of the data path -/

section

variable {cpus servers : Nat} {Data Req : Type} {m next : Machine cpus servers Data Req}

/-- What `rdma_write` comes to for a target. -/
def outcomeOf (target : Option (Target servers)) : WriteOutcome :=
  if Machine.refuses target then .failed else if Machine.bounces target then .bounced else .posted

/-- The pool of the client. -/
def poolOf (m : Machine cpus servers Data Req) : ValetPagePool LocalPageList :=
  ⟨true, m.sendingList⟩

theorem putAgain_poolOf {item : LocalPageList} {queue : AlfQueue LocalPageList}
    (put : m.sendingList.alfMpEnqueue item = some queue) :
    putAgain (poolOf m) item = .ok ⟨true, queue⟩ := by
  simp only [putAgain, poolOf, ValetPagePool.putSendingIndex, put]

theorem rdmaWrite_poolOf {target : Option (Target servers)} {offset : Nat} {tmp : LocalPageList}
    {failed : Bool} (writes : Machine.RdmaWrites m target offset tmp failed next) :
    rdmaWrite (poolOf m) (outcomeOf target) tmp = .ok (failed, poolOf next) := by
  cases writes with
  | refused noCb =>
      rw [noCb]
      rfl
  | @bounced block queue found readonly put =>
      have outcome : outcomeOf target = .bounced := by
        simp [outcomeOf, found, Machine.refuses, Machine.bounces, readonly]
      rw [outcome]
      exact bind_eq_ok.mpr ⟨_, putAgain_poolOf put, rfl⟩
  | failed found writable error free =>
      have outcome : outcomeOf target = .failed := by
        simp [outcomeOf, found, Machine.refuses, writable, error]
      rw [outcome]
      rfl
  | sent found writable ok free =>
      have outcome : outcomeOf target = .posted := by
        simp [outcomeOf, found, Machine.refuses, Machine.bounces, writable, ok]
      rw [outcome]
      rfl

theorem requestWrite_poolOf {targets : Nat → Option (Target servers)} {tmp item : LocalPageList}
    {failed : Bool} (writes : Machine.RequestsWrite m targets tmp failed item next) :
    requestWrite (poolOf m) (fun swapspace => outcomeOf (targets swapspace)) tmp =
      .ok (failed, item, poolOf next) := by
  unfold requestWrite
  cases writes with
  | whole inside writes =>
      rw [inside]
      exact bind_eq_ok.mpr ⟨_, rdmaWrite_poolOf writes, rfl⟩
  | lost crosses second =>
      rw [crosses]
      exact bind_eq_ok.mpr ⟨_, rdmaWrite_poolOf second, rfl⟩
  | halves crosses second first =>
      rw [crosses]
      exact bind_eq_ok.mpr ⟨_, rdmaWrite_poolOf second,
        bind_eq_ok.mpr ⟨_, rdmaWrite_poolOf first, rfl⟩⟩

/-- What a sender of the data path does to the sending list is what the loop does to it. -/
theorem send_poolOf {cpu : Fin cpus} {targets : Nat → Option (Target servers)}
    {tmpFirst : LocalPageList} {tmp : Option LocalPageList}
    (ran : m.senderSend cpu targets tmpFirst tmp = .ok next) :
    send (poolOf m) (fun swapspace => outcomeOf (targets swapspace)) tmpFirst =
      .ok (poolOf next) := by
  cases Machine.sends_of_ok ran with
  | sent writes => exact bind_eq_ok.mpr ⟨_, requestWrite_poolOf writes, rfl⟩
  | again writes put =>
      exact bind_eq_ok.mpr ⟨_, requestWrite_poolOf writes, putAgain_poolOf put⟩

end

end SenderLoop

end Valet.Bd
