import Mathlib.Data.List.Basic
import Mathlib.Logic.Function.Basic

/-!
# Ordered channels to a memory

The operations that one party posts on an ordered channel take effect on the
memory at the far end in posting order, and their completions come back in the
same order, each at an arbitrary later time.  The settled memory is what the
memory will be once everything posted has taken effect: posting acts on it at
once and nothing else changes it, so it is where read answers are predicted.
-/

namespace Valet.Library

variable {Addr Val Write Read : Type}

/-- A posted operation with the poster's own tag. -/
inductive Op (Addr Val Write Read : Type) where
  | write (cells : List (Addr × Val)) (tag : Write)
  | read (addr : Addr) (tag : Read)

/-- An operation that took effect and whose completion is not handled yet. -/
inductive Landed (Val Write Read : Type) where
  | wrote (tag : Write)
  | fetched (tag : Read) (value : Val)

structure Channel (Addr Val Write Read : Type) where
  memory : Addr → Val
  posted : List (Op Addr Val Write Read)
  landed : List (Landed Val Write Read)

/-- Store the cells one after the other. -/
def store [DecidableEq Addr] (memory : Addr → Val) (cells : List (Addr × Val)) : Addr → Val :=
  cells.foldl (fun memory cell => Function.update memory cell.1 cell.2) memory

theorem store_of_not_mem [DecidableEq Addr] {memory : Addr → Val} {cells : List (Addr × Val)}
    {addr : Addr} (absent : ∀ value, (addr, value) ∉ cells) :
    store memory cells addr = memory addr := by
  induction cells generalizing memory with
  | nil => rfl
  | cons cell rest ih =>
      have other : addr ≠ cell.1 := by
        rintro rfl
        exact absent cell.2 List.mem_cons_self
      rw [store, List.foldl_cons, ← store,
        ih fun value member => absent value (List.mem_cons_of_mem _ member),
        Function.update_of_ne other]

theorem store_of_mem [DecidableEq Addr] {memory : Addr → Val} {cells : List (Addr × Val)}
    {addr : Addr} {value : Val} (distinct : (cells.map Prod.fst).Nodup)
    (member : (addr, value) ∈ cells) : store memory cells addr = value := by
  induction cells generalizing memory with
  | nil => cases member
  | cons cell rest ih =>
      rw [List.map_cons, List.nodup_cons] at distinct
      rw [store, List.foldl_cons, ← store]
      rcases List.mem_cons.mp member with rfl | later
      · rw [store_of_not_mem, Function.update_self]
        intro other again
        exact distinct.1 (List.mem_map.mpr ⟨_, again, rfl⟩)
      · exact ih distinct.2 later

namespace Op

def apply [DecidableEq Addr] (memory : Addr → Val) : Op Addr Val Write Read → Addr → Val
  | write cells _ => store memory cells
  | read _ _ => memory

def land (memory : Addr → Val) : Op Addr Val Write Read → Landed Val Write Read
  | write _ tag => .wrote tag
  | read addr tag => .fetched tag (memory addr)

def writeTag : Op Addr Val Write Read → Option Write
  | write _ tag => some tag
  | read _ _ => none

/-- A read that takes effect on `memory` gets an answer that is right for its tag. -/
def Answered (Right : Read → Val → Prop) (memory : Addr → Val) :
    Op Addr Val Write Read → Prop
  | write _ _ => True
  | read addr tag => Right tag (memory addr)

end Op

def Landed.writeTag : Landed Val Write Read → Option Write
  | wrote tag => some tag
  | fetched _ _ => none

/-- The memory once the operations have taken effect in order. -/
def settle [DecidableEq Addr] (memory : Addr → Val) (ops : List (Op Addr Val Write Read)) :
    Addr → Val :=
  ops.foldl (fun memory op => op.apply memory) memory

/-- An address that no operation changes. -/
theorem settle_of_untouched [DecidableEq Addr] {memory : Addr → Val}
    {ops : List (Op Addr Val Write Read)} {addr : Addr}
    (untouched : ∀ op ∈ ops, ∀ memory : Addr → Val, op.apply memory addr = memory addr) :
    settle memory ops addr = memory addr := by
  induction ops generalizing memory with
  | nil => rfl
  | cons op rest ih =>
      rw [settle, List.foldl_cons, ← settle,
        ih fun later member => untouched later (List.mem_cons_of_mem _ member)]
      exact untouched op List.mem_cons_self memory

/-- Every read among the operations will get a right answer. -/
def AllAnswered [DecidableEq Addr] (Right : Read → Val → Prop) :
    (Addr → Val) → List (Op Addr Val Write Read) → Prop
  | _, [] => True
  | memory, op :: rest => op.Answered Right memory ∧ AllAnswered Right (op.apply memory) rest

theorem allAnswered_append_single [DecidableEq Addr] {Right : Read → Val → Prop}
    {memory : Addr → Val} {ops : List (Op Addr Val Write Read)}
    {op : Op Addr Val Write Read} :
    AllAnswered Right memory (ops ++ [op]) ↔
      AllAnswered Right memory ops ∧ op.Answered Right (settle memory ops) := by
  induction ops generalizing memory with
  | nil => simp [AllAnswered, settle]
  | cons first rest ih =>
      simp only [List.cons_append, AllAnswered, ih, settle, List.foldl_cons, and_assoc]

namespace Channel

/-- The memory once everything posted has taken effect. -/
def settled [DecidableEq Addr] (channel : Channel Addr Val Write Read) : Addr → Val :=
  settle channel.memory channel.posted

/-- The tags of the writes whose completion is not handled yet, oldest first. -/
def writes (channel : Channel Addr Val Write Read) : List Write :=
  channel.landed.filterMap Landed.writeTag ++ channel.posted.filterMap Op.writeTag

def post (channel : Channel Addr Val Write Read) (op : Op Addr Val Write Read) :
    Channel Addr Val Write Read :=
  { channel with posted := channel.posted ++ [op] }

/-- The oldest posted operation takes effect. -/
def land [DecidableEq Addr] (channel : Channel Addr Val Write Read) :
    Option (Channel Addr Val Write Read) :=
  match channel.posted with
  | [] => none
  | op :: rest =>
      some { memory := op.apply channel.memory
             posted := rest
             landed := channel.landed ++ [op.land channel.memory] }

/-- The oldest completion is handed to the poster. -/
def complete (channel : Channel Addr Val Write Read) :
    Option (Landed Val Write Read × Channel Addr Val Write Read) :=
  match channel.landed with
  | [] => none
  | first :: rest => some (first, { channel with landed := rest })

/-- Answers that are under way, or back already, are right. -/
structure Truthful [DecidableEq Addr] (Right : Read → Val → Prop)
    (channel : Channel Addr Val Write Read) : Prop where
  pending : AllAnswered Right channel.memory channel.posted
  back : ∀ tag value, Landed.fetched tag value ∈ channel.landed → Right tag value

variable {channel next : Channel Addr Val Write Read}

@[simp] theorem settled_post [DecidableEq Addr] (op : Op Addr Val Write Read) :
    (channel.post op).settled = op.apply channel.settled := by
  simp [settled, settle, post]

@[simp] theorem writes_post_write (cells : List (Addr × Val)) (tag : Write) :
    (channel.post (.write cells tag)).writes = channel.writes ++ [tag] := by
  simp [writes, post, Op.writeTag]

@[simp] theorem writes_post_read (addr : Addr) (tag : Read) :
    (channel.post (.read addr tag)).writes = channel.writes := by
  simp [writes, post, Op.writeTag]

theorem settled_land [DecidableEq Addr] (edge : channel.land = some next) :
    next.settled = channel.settled := by
  unfold land at edge
  split at edge
  · cases edge
  · rename_i op rest posted
    cases edge
    simp [settled, settle, posted]

theorem writes_land [DecidableEq Addr] (edge : channel.land = some next) :
    next.writes = channel.writes := by
  unfold land at edge
  split at edge
  · cases edge
  · rename_i op rest posted
    cases edge
    cases op <;>
      simp [writes, posted, Op.land, Op.writeTag, Landed.writeTag, List.filterMap_cons]

theorem settled_complete [DecidableEq Addr] {first : Landed Val Write Read}
    (edge : channel.complete = some (first, next)) : next.settled = channel.settled := by
  unfold complete at edge
  split at edge
  · cases edge
  · cases edge
    rfl

theorem head_of_complete {first : Landed Val Write Read}
    (edge : channel.complete = some (first, next)) : channel.landed.head? = some first := by
  unfold complete at edge
  split at edge
  · cases edge
  · rename_i landed
    cases edge
    rw [landed, List.head?_cons]

/-- Handling the completion of a write retires the oldest write in flight. -/
theorem writes_complete_wrote {tag : Write}
    (edge : channel.complete = some (.wrote tag, next)) :
    channel.writes = tag :: next.writes := by
  unfold complete at edge
  split at edge
  · cases edge
  · rename_i first rest landed
    cases edge
    simp [writes, landed, Landed.writeTag]

theorem writes_complete_fetched {tag : Read} {value : Val}
    (edge : channel.complete = some (.fetched tag value, next)) :
    channel.writes = next.writes := by
  unfold complete at edge
  split at edge
  · cases edge
  · rename_i first rest landed
    cases edge
    simp [writes, landed, Landed.writeTag, List.filterMap_cons]

variable [DecidableEq Addr] {Right : Read → Val → Prop}

theorem Truthful.post_write (truthful : channel.Truthful Right)
    (cells : List (Addr × Val)) (tag : Write) :
    (channel.post (.write cells tag)).Truthful Right where
  pending := allAnswered_append_single.mpr ⟨truthful.pending, trivial⟩
  back := truthful.back

/-- A read may be posted when the settled memory holds a right answer for it. -/
theorem Truthful.post_read (truthful : channel.Truthful Right) {addr : Addr} {tag : Read}
    (right : Right tag (channel.settled addr)) :
    (channel.post (.read addr tag)).Truthful Right where
  pending := allAnswered_append_single.mpr ⟨truthful.pending, right⟩
  back := truthful.back

theorem Truthful.land (truthful : channel.Truthful Right) (edge : channel.land = some next) :
    next.Truthful Right := by
  unfold Channel.land at edge
  split at edge
  · cases edge
  · rename_i op rest posted
    have pending := truthful.pending
    rw [posted] at pending
    cases edge
    refine ⟨pending.2, ?_⟩
    intro tag value member
    rcases List.mem_append.mp member with old | new
    · exact truthful.back tag value old
    · cases op with
      | write cells other => cases List.mem_singleton.mp new
      | read addr other =>
          cases List.mem_singleton.mp new
          exact pending.1

theorem Truthful.complete {first : Landed Val Write Read} (truthful : channel.Truthful Right)
    (edge : channel.complete = some (first, next)) : next.Truthful Right := by
  unfold Channel.complete at edge
  split at edge
  · cases edge
  · rename_i head rest landed
    cases edge
    refine ⟨truthful.pending, fun tag value member => truthful.back tag value ?_⟩
    rw [landed]
    exact List.mem_cons_of_mem _ member

/-- An answer that comes back is right. -/
theorem Truthful.answer {tag : Read} {value : Val} (truthful : channel.Truthful Right)
    (edge : channel.complete = some (.fetched tag value, next)) : Right tag value := by
  unfold Channel.complete at edge
  split at edge
  · cases edge
  · rename_i head rest landed
    cases edge
    apply truthful.back
    rw [landed]
    exact List.mem_cons_self

end Channel

end Valet.Library
