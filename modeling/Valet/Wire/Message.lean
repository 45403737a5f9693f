import Valet.Library.Sizes
import Mathlib.Data.List.FinRange
import Mathlib.Logic.Function.Basic

/-!
# Messages

Client and servers exchange one kind of message over their connections.  The
keys and addresses of up to `MAX_MR_SIZE_GB` blocks travel in it; a block whose
key is zero is not meant.  A message is what its sender and its receiver mean by
it; the byte order in which it lies in their buffers is treated on its own.
-/

namespace Valet.Wire

def maxMrSizeGb : Nat := 32

/-- `enum msg_opcode`, the same on both sides. -/
inductive MsgOpcode where
  | done
  | respMrMap
  | respMigMap
  | reqQuery
  | respQuery
  | evict
  | reqMrMap
  | reqMigMap
  | reqMigration
  | doneMigration
  | deleteRb
  deriving DecidableEq

/-- `struct message`. -/
structure Message where
  type : MsgOpcode
  sizeGb : Int
  rbIndex : Int
  cbIndex : Int
  replicaIndex : Int
  buf : Fin maxMrSizeGb → UInt64
  rkey : Fin maxMrSizeGb → UInt32

/-- `struct query_message`, which takes the place of a message. -/
structure QueryMessage where
  sizeGb : Int
  sum : Nat

namespace Message

/-- A buffer as it is allocated; its type is set before it is sent. -/
def empty : Message := ⟨.done, 0, 0, 0, 0, fun _ => 0, fun _ => 0⟩

/-- The block at which the loops over `rkey` stop. -/
def firstRkey (msg : Message) : Option (Fin maxMrSizeGb) :=
  (List.finRange maxMrSizeGb).find? fun i => msg.rkey i != 0

theorem rkey_of_firstRkey {msg : Message} {i : Fin maxMrSizeGb} (found : msg.firstRkey = some i) :
    msg.rkey i ≠ 0 := by
  simpa using List.find?_some found

theorem firstRkey_eq_none {msg : Message} : msg.firstRkey = none ↔ ∀ i, msg.rkey i = 0 := by
  simp [firstRkey]

/-- A message with one key. -/
theorem firstRkey_eq_some {msg : Message} {i : Fin maxMrSizeGb}
    (only : ∀ j, msg.rkey j ≠ 0 ↔ j = i) : msg.firstRkey = some i := by
  cases first : msg.firstRkey with
  | none => exact absurd (firstRkey_eq_none.mp first i) ((only i).mpr rfl)
  | some j => rw [(only j).mp (rkey_of_firstRkey first)]

/-- A message about one block at most. -/
def Lone (msg : Message) : Prop := ∀ i j, msg.rkey i ≠ 0 → msg.rkey j ≠ 0 → i = j

theorem Lone.firstRkey {msg : Message} {i : Fin maxMrSizeGb} (lone : msg.Lone)
    (keyed : msg.rkey i ≠ 0) : msg.firstRkey = some i :=
  firstRkey_eq_some fun j => ⟨fun other => lone j i other keyed, fun same => same ▸ keyed⟩

theorem lone_update {msg : Message} {i : Fin maxMrSizeGb} {key : UInt32}
    (keys : msg.rkey = Function.update (fun _ => 0) i key) : msg.Lone := by
  have only : ∀ j, msg.rkey j ≠ 0 → j = i := by
    intro j keyed
    by_contra different
    rw [keys, Function.update_of_ne different] at keyed
    exact keyed rfl
  intro j k first second
  rw [only j first, only k second]

end Message

end Valet.Wire
