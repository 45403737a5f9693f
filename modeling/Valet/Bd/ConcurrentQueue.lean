import Valet.Bd.AlfHelpers
import Valet.Library.Observers
import Valet.Library.Tickets
import Mathlib.Data.Fintype.Defs
import Mathlib.Data.Fintype.Basic

/-!
# The array based queue under concurrent calls

Every read and write that a call of the queue makes of the positions or of the
ring is one step, and the steps of the calls of any number of CPUs interleave.
The memory is taken to be sequentially consistent, which is what the barriers
of the calls are there for.  A record beside the state counts positions from the
start instead of modulo `2 ^ 32` and lists the elements that went in and out.
-/

namespace Valet.Bd

open Valet.Library

/-- Where a call stands, and its locals.  The `single` calls are those of `alf_sp_enqueue` and
`alf_sc_dequeue`, the others those of `alf_mp_enqueue` and `alf_mc_dequeue`. -/
inductive AlfCall (α : Type) where
  | idle
  | enqHead (single : Bool) (ptr : List α)
  | enqTail (single : Bool) (ptr : List α) (pHead : Nat)
  | enqSwap (single : Bool) (ptr : List α) (pHead pNext : Nat)
  | enqStore (single : Bool) (ptr : List α) (pHead pNext : Nat) (todo : List (Nat × Nat))
  | enqWait (ptr : List α) (pHead pNext : Nat)
  | enqDone (single : Bool) (ptr : List α) (pNext : Nat)
  | deqHead (single : Bool) (n : Nat)
  | deqTail (single : Bool) (n cHead : Nat)
  | deqSwap (single : Bool) (n cHead cNext elems : Nat)
  | deqLoad (single : Bool) (cHead cNext : Nat) (todo : List (Nat × Nat)) (ptr : List (Option α))
  | deqWait (cHead cNext : Nat) (ptr : List (Option α))
  | deqDone (single : Bool) (cNext : Nat) (ptr : List (Option α))

structure AlfRace (Cpu α : Type) where
  q : AlfQueue α
  call : Cpu → AlfCall α

/-- A CPU calls the queue, or the call it is in takes a step. -/
inductive AlfEvent (Cpu α : Type) where
  | enqueue (cpu : Cpu) (single : Bool) (ptr : List α)
  | dequeue (cpu : Cpu) (single : Bool) (n : Nat)
  | run (cpu : Cpu)

namespace AlfCall

variable {α : Type}

/-- `cmpxchg` swaps; the calls that are alone on their side write without comparing. -/
def swaps (single : Bool) (head expected : Nat) : Bool := single || head == expected

/-- One step of a call; a call that has returned is `idle`. -/
def advance (q : AlfQueue α) : AlfCall α → AlfQueue α × AlfCall α
  | idle => (q, idle)
  | enqHead single ptr => (q, enqTail single ptr q.producer.head)
  | enqTail single ptr pHead =>
      let space := sub32 (q.size + q.consumer.tail) pHead
      if ptr.length > space then
        (q, idle)
      else
        (q, enqSwap single ptr pHead ((pHead + ptr.length) % u32Range))
  | enqSwap single ptr pHead pNext =>
      if swaps single q.producer.head pHead then
        ({ q with producer := { q.producer with head := pNext } },
          enqStore single ptr pHead pNext (q.unrollMoves pHead ptr.length))
      else
        (q, enqHead single ptr)
  | enqStore single ptr pHead pNext ((cell, i) :: todo) =>
      ({ q with ring := Function.update q.ring cell ptr[i]? },
        enqStore single ptr pHead pNext todo)
  | enqStore single ptr pHead pNext [] =>
      (q, if single then enqDone single ptr pNext else enqWait ptr pHead pNext)
  | enqWait ptr pHead pNext =>
      (q, if q.producer.tail = pHead then enqDone false ptr pNext else enqWait ptr pHead pNext)
  | enqDone _ _ pNext => ({ q with producer := { q.producer with tail := pNext } }, idle)
  | deqHead single n => (q, deqTail single n q.consumer.head)
  | deqTail single n cHead =>
      let elems := sub32 q.producer.tail cHead
      if elems = 0 then
        (q, idle)
      else
        let elems := min elems n
        (q, deqSwap single n cHead ((cHead + elems) % u32Range) elems)
  | deqSwap single n cHead cNext elems =>
      if swaps single q.consumer.head cHead then
        ({ q with consumer := { q.consumer with head := cNext } },
          deqLoad single cHead cNext (q.unrollMoves cHead elems) [])
      else
        (q, deqHead single n)
  | deqLoad single cHead cNext ((cell, _) :: todo) ptr =>
      (q, deqLoad single cHead cNext todo (ptr ++ [q.ring cell]))
  | deqLoad single cHead cNext [] ptr =>
      (q, if single then deqDone single cNext ptr else deqWait cHead cNext ptr)
  | deqWait cHead cNext ptr =>
      (q, if q.consumer.tail = cHead then deqDone false cNext ptr else deqWait cHead cNext ptr)
  | deqDone _ cNext _ => ({ q with consumer := { q.consumer with tail := cNext } }, idle)

/-- The call is one that enqueues. -/
def enqueues : AlfCall α → Bool
  | enqHead .. | enqTail .. | enqSwap .. | enqStore .. | enqWait .. | enqDone .. => true
  | _ => false

/-- The call is one that dequeues. -/
def dequeues : AlfCall α → Bool
  | deqHead .. | deqTail .. | deqSwap .. | deqLoad .. | deqWait .. | deqDone .. => true
  | _ => false

/-- The call is `alf_sp_enqueue` or `alf_sc_dequeue`. -/
def single : AlfCall α → Bool
  | enqHead single _ | enqTail single .. | enqSwap single .. | enqStore single ..
  | enqDone single .. | deqHead single _ | deqTail single .. | deqSwap single ..
  | deqLoad single .. | deqDone single .. => single
  | idle | enqWait .. | deqWait .. => false

/-- The call has reserved positions to store to and not made them available yet. -/
def storing : AlfCall α → Bool
  | enqStore .. | enqWait .. | enqDone .. => true
  | _ => false

/-- The call has reserved positions to load from and not handed them back yet. -/
def loading : AlfCall α → Bool
  | deqLoad .. | deqWait .. | deqDone .. => true
  | _ => false

def isIdle : AlfCall α → Bool
  | idle => true
  | _ => false

end AlfCall

namespace AlfRace

variable {Cpu α : Type} [DecidableEq Cpu]

def goTo (s : AlfRace Cpu α) (cpu : Cpu) (q : AlfQueue α) (call : AlfCall α) : AlfRace Cpu α where
  q := q
  call := Function.update s.call cpu call

def step (s : AlfRace Cpu α) : AlfEvent Cpu α → Option (AlfRace Cpu α)
  | .enqueue cpu single ptr =>
      if (s.call cpu).isIdle then some (s.goTo cpu s.q (.enqHead single ptr)) else none
  | .dequeue cpu single n =>
      if (s.call cpu).isIdle then some (s.goTo cpu s.q (.deqHead single n)) else none
  | .run cpu =>
      if (s.call cpu).isIdle then
        none
      else
        some (s.goTo cpu ((s.call cpu).advance s.q).1 ((s.call cpu).advance s.q).2)

end AlfRace

/-- What has happened so far, with positions counted from the start. -/
structure AlfRecord (Cpu α : Type) where
  /-- the elements of the bulks for which positions were reserved, in that order -/
  reserved : List α
  /-- the number of positions reserved by dequeues -/
  claimed : Nat
  /-- the elements of the enqueues that have returned, in that order -/
  enqueued : List α
  /-- the elements of the dequeues that have returned, in that order -/
  dequeued : List (Option α)
  /-- the head a call read last -/
  seen : Cpu → Nat
  producers : List (Ticket Cpu)
  consumers : List (Ticket Cpu)

namespace AlfRecord

variable {Cpu α : Type}

def empty : AlfRecord Cpu α where
  reserved := []
  claimed := 0
  enqueued := []
  dequeued := []
  seen := fun _ => 0
  producers := []
  consumers := []

/-- A bulk is given the positions at the head. -/
def reserve (h : AlfRecord Cpu α) (cpu : Cpu) (ptr : List α) : AlfRecord Cpu α :=
  { h with
    reserved := h.reserved ++ ptr
    producers := h.producers ++ [⟨cpu, h.reserved.length, ptr.length⟩] }

/-- Positions at the head of what was published are given to a dequeue. -/
def claim (h : AlfRecord Cpu α) (cpu : Cpu) (elems : Nat) : AlfRecord Cpu α :=
  { h with
    claimed := h.claimed + elems
    consumers := h.consumers ++ [⟨cpu, h.claimed, elems⟩] }

/-- The oldest bulk under way becomes available. -/
def publish (h : AlfRecord Cpu α) (ptr : List α) : AlfRecord Cpu α :=
  { h with
    enqueued := h.enqueued ++ ptr
    producers := h.producers.tail }

/-- The oldest dequeue under way hands its elements back. -/
def handBack (h : AlfRecord Cpu α) (ptr : List (Option α)) : AlfRecord Cpu α :=
  { h with
    dequeued := h.dequeued ++ ptr
    consumers := h.consumers.tail }

/-- Fewer than `2 ^ 32` positions have been reserved since the read of the head that a `cmpxchg` is
about to compare with. -/
def InTime (h : AlfRecord Cpu α) (cpu : Cpu) : AlfCall α → Prop
  | .enqSwap .. => h.reserved.length < h.seen cpu + u32Range
  | .deqSwap .. => h.claimed < h.seen cpu + u32Range
  | _ => True

instance (h : AlfRecord Cpu α) (cpu : Cpu) : ∀ call, Decidable (h.InTime cpu call)
  | .enqSwap .. => Nat.decLt _ _
  | .deqSwap .. => Nat.decLt _ _
  | .idle | .enqHead .. | .enqTail .. | .enqStore .. | .enqWait .. | .enqDone .. | .deqHead ..
  | .deqTail .. | .deqLoad .. | .deqWait .. | .deqDone .. => isTrue trivial

variable [DecidableEq Cpu]

/-- What a step of a call adds to the record. -/
def noteCall (h : AlfRecord Cpu α) (q : AlfQueue α) (cpu : Cpu) : AlfCall α → AlfRecord Cpu α
  | .enqHead .. => { h with seen := Function.update h.seen cpu h.reserved.length }
  | .enqSwap single ptr pHead _ =>
      if AlfCall.swaps single q.producer.head pHead then h.reserve cpu ptr else h
  | .enqDone _ ptr _ => h.publish ptr
  | .deqHead .. => { h with seen := Function.update h.seen cpu h.claimed }
  | .deqSwap single _ cHead _ elems =>
      if AlfCall.swaps single q.consumer.head cHead then h.claim cpu elems else h
  | .deqDone _ _ ptr => h.handBack ptr
  | _ => h

def note (h : AlfRecord Cpu α) (s : AlfRace Cpu α) : AlfEvent Cpu α → AlfRecord Cpu α
  | .run cpu => h.noteCall s.q cpu (s.call cpu)
  | _ => h

end AlfRecord

/-- A race with its record. -/
abbrev AlfWatched (Cpu α : Type) := AlfRace Cpu α × AlfRecord Cpu α

namespace AlfWatched

variable {Cpu α : Type} [DecidableEq Cpu]

def step : AlfWatched Cpu α → AlfEvent Cpu α → Option (AlfWatched Cpu α) :=
  watch AlfRace.step AlfRecord.note

/-- A new queue and no calls. -/
def start (size : Nat) : AlfWatched Cpu α :=
  ({ q := alfQueueAlloc size, call := fun _ => .idle }, AlfRecord.empty)

/-- What the callers promise: no empty bulks, and that a `single` call is alone on its side.  The
last case is about the machine, which must not let a call sleep for too long. -/
def Promised (x : AlfWatched Cpu α) : AlfEvent Cpu α → Prop
  | .enqueue _ single ptr => 0 < ptr.length ∧
      ∀ other, (x.1.call other).enqueues → single = false ∧ (x.1.call other).single = false
  | .dequeue _ single n => 0 < n ∧
      ∀ other, (x.1.call other).dequeues → single = false ∧ (x.1.call other).single = false
  | .run cpu => x.2.InTime cpu (x.1.call cpu)

instance [Fintype Cpu] (x : AlfWatched Cpu α) : ∀ event, Decidable (x.Promised event)
  | .enqueue _ single ptr => inferInstanceAs (Decidable (0 < ptr.length ∧
      ∀ other, (x.1.call other).enqueues → single = false ∧ (x.1.call other).single = false))
  | .dequeue _ single n => inferInstanceAs (Decidable (0 < n ∧
      ∀ other, (x.1.call other).dequeues → single = false ∧ (x.1.call other).single = false))
  | .run cpu => inferInstanceAs (Decidable (x.2.InTime cpu (x.1.call cpu)))

end AlfWatched

end Valet.Bd
