import Valet.Bd.AlfQueue
import Valet.Library.Transfers
import Mathlib.Data.List.Nodup
import Mathlib.Data.List.Range

/-!
# The copying loops of the array based queue

A bulk goes to and from the ring by one of eight pairs of helpers.  The two
helpers of a pair make the same accesses, one storing and one loading, so that a
pair is a list of accesses in program order: a cell of the ring with the index
of `ptr` it is paired with.  Positions and indices are `u32`.
-/

namespace Valet.Bd

open Valet.Library

namespace AlfQueue

variable {α : Type}

/-- `for (; i < n; i++, index++)` around one access to `cell index`, with `todo` turns to go. -/
def copyLoop (cell : Nat → Nat) : (index i todo : Nat) → List (Nat × Nat)
  | _, _, 0 => []
  | index, i, todo + 1 =>
      (cell index, i) :: copyLoop cell ((index + 1) % u32Range) (i + 1) todo

/-- The loop of the `simple` helpers, which compare the index they have just used. -/
def wrappingLoop (size : Nat) : (index i todo : Nat) → List (Nat × Nat)
  | _, _, 0 => []
  | index, i, todo + 1 =>
      (index, i) ::
        wrappingLoop size (((if index = size then 0 else index) + 1) % u32Range) (i + 1) todo

/-- The access that pairs `index + k` with `i + k`. -/
def accessAt (index i k : Nat) : Nat × Nat := ((index + k) % u32Range, i + k)

/-- Four accesses a turn. -/
def unrolledLoop : (index i turns : Nat) → List (Nat × Nat)
  | _, _, 0 => []
  | index, i, turns + 1 =>
      accessAt index i 0 :: accessAt index i 1 :: accessAt index i 2 :: accessAt index i 3 ::
        unrolledLoop ((index + 4) % u32Range) (i + 4) turns

/-- `switch (n & 0x3)` after the unrolled loop. -/
def remainder (index i : Nat) : Nat → List (Nat × Nat)
  | 3 => [accessAt index i 0, accessAt index i 1, accessAt index i 2]
  | 2 => [accessAt index i 0, accessAt index i 1]
  | 1 => [accessAt index i 0]
  | _ => []

/-- The body of the device from `case r` on; `case 0` is its top. -/
def duffBody (index i : Nat) : Nat → List (Nat × Nat)
  | 0 => [accessAt index i 3, accessAt index i 2, accessAt index i 1, accessAt index i 0]
  | 3 => [accessAt index i 2, accessAt index i 1, accessAt index i 0]
  | 2 => [accessAt index i 1, accessAt index i 0]
  | _ => [accessAt index i 0]

/-- The device as a loop: the body is run before the condition is looked at. -/
def duffLoop (iterations index i r : Nat) : List (Nat × Nat) :=
  duffBody index i r ++
    if 0 < r then
      if iterations ≠ 0 then duffLoop iterations ((index + r) % u32Range) (i + r) 0 else []
    else
      if (index + 4) % u32Range ≠ 0 ∧ i + 4 < iterations then
        duffLoop iterations ((index + 4) % u32Range) (i + 4) 0
      else []
termination_by (r, iterations - i)
decreasing_by
  · exact Prod.Lex.left _ _ ‹0 < r›
  · obtain rfl : r = 0 := by omega
    exact Prod.Lex.right _ (by omega)

variable (q : AlfQueue α) (pHead n : Nat)

/-- `__helper_alf_enqueue_store_simple` and `__helper_alf_dequeue_load_simple`. -/
def simpleMoves : List (Nat × Nat) := wrappingLoop q.size (pHead &&& q.mask) 0 n

/-- `__helper_alf_enqueue_store_mask` and `__helper_alf_dequeue_load_mask`. -/
def maskMoves : List (Nat × Nat) := copyLoop (· &&& q.mask) pHead 0 n

/-- `__helper_alf_enqueue_store_mask_less` and `__helper_alf_dequeue_load_mask_less`. -/
def maskLessMoves : List (Nat × Nat) :=
  let index := pHead &&& q.mask
  if (index + n) % u32Range ≤ q.mask then
    copyLoop id index 0 n
  else
    copyLoop (· &&& q.mask) index 0 n

/-- `__helper_alf_enqueue_store_mask_less2` and `__helper_alf_dequeue_load_mask_less2`.  The
loop up to the end of the ring does not look at `n`. -/
def maskLess2Moves : List (Nat × Nat) :=
  let index := pHead &&& q.mask
  if (index + n) % u32Range ≤ q.mask then
    copyLoop id index 0 n
  else
    let i := q.mask + 1 - index
    copyLoop id index 0 i ++ copyLoop id 0 i (n - i)

/-- `__helper_alf_enqueue_store_nomask` and `__helper_alf_dequeue_load_nomask`. -/
def nomaskMoves : List (Nat × Nat) :=
  let index := pHead &&& q.mask
  let i := min n (q.mask + 1 - index)
  copyLoop id index 0 i ++ copyLoop id 0 i (n - i)

/-- `__helper_alf_enqueue_store_unroll` and `__helper_alf_dequeue_load_unroll`, the pair in
use. -/
def unrollMoves : List (Nat × Nat) :=
  let iterations := n - n % 4
  let index := pHead &&& q.mask
  if (index + n) % u32Range ≤ q.mask then
    unrolledLoop index 0 (iterations / 4) ++
      remainder ((index + iterations) % u32Range) iterations (n % 4)
  else
    copyLoop (· &&& q.mask) index 0 n

/-- `__helper_alf_enqueue_store_unroll_duff` and `__helper_alf_dequeue_load_unroll_duff`. -/
def unrollDuffMoves : List (Nat × Nat) :=
  let index := pHead &&& q.mask
  if (index + n) % u32Range ≤ q.mask then
    duffLoop (n - n % 4) index 0 (n % 4)
  else
    copyLoop (· &&& q.mask) index 0 n

/-- `__helper_alf_enqueue_store_memcpy` and `__helper_alf_dequeue_load_memcpy`. -/
def memcpyMoves : List (Nat × Nat) :=
  let pNext := (pHead + n) % u32Range &&& q.mask
  let index := pHead &&& q.mask
  if pNext ≥ index then
    copyLoop id index 0 (pNext - index)
  else
    copyLoop id index 0 (q.size - index) ++ copyLoop id 0 (q.size - index) pNext

end AlfQueue

/-- The eight pairs of helpers. -/
inductive AlfHelper where
  | simple
  | mask
  | maskLess
  | maskLess2
  | nomask
  | unroll
  | unrollDuff
  | memcpy

namespace AlfHelper

variable {α : Type}

def moves (q : AlfQueue α) (pHead n : Nat) : AlfHelper → List (Nat × Nat)
  | simple => q.simpleMoves pHead n
  | mask => q.maskMoves pHead n
  | maskLess => q.maskLessMoves pHead n
  | maskLess2 => q.maskLess2Moves pHead n
  | nomask => q.nomaskMoves pHead n
  | unroll => q.unrollMoves pHead n
  | unrollDuff => q.unrollDuffMoves pHead n
  | memcpy => q.memcpyMoves pHead n

/-- `__helper_alf_enqueue_store`: the elements of `ptr` go to the ring. -/
def enqueueStore (helper : AlfHelper) (q : AlfQueue α) (pHead : Nat) (ptr : List α) :
    AlfQueue α :=
  { q with ring := transfer q.ring (fun i => ptr[i]?) (helper.moves q pHead ptr.length) }

/-- `__helper_alf_dequeue_load`: cells of the ring go to `ptr`. -/
def dequeueLoad (helper : AlfHelper) (q : AlfQueue α) (cHead elems : Nat)
    (ptr : Nat → Option α) : Nat → Option α :=
  transfer ptr q.ring ((helper.moves q cHead elems).map Prod.swap)

end AlfHelper

namespace AlfQueue

variable {α : Type}

/-- A ring whose size is a power of two. -/
structure PowerOfTwo (q : AlfQueue α) (bits : Nat) : Prop where
  bitsLe : bits ≤ 31
  size : q.size = 2 ^ bits
  mask : q.mask = 2 ^ bits - 1

theorem powerOfTwo_alloc {bits : Nat} (bitsLe : bits ≤ 31) :
    (alfQueueAlloc (2 ^ bits) : AlfQueue α).PowerOfTwo bits where
  bitsLe := bitsLe
  size := rfl
  mask := by
    have positive : 0 < 2 ^ bits := Nat.two_pow_pos bits
    have le : 2 ^ bits ≤ 2 ^ 31 := Nat.pow_le_pow_right (by decide) bitsLe
    change sub32 (2 ^ bits) 1 = 2 ^ bits - 1
    unfold sub32 u32Range
    omega

namespace PowerOfTwo

variable {q : AlfQueue α} {bits : Nat}

theorem mask_eq (ring : q.PowerOfTwo bits) : q.mask = q.size - 1 := by
  rw [ring.mask, ring.size]

theorem size_pos (ring : q.PowerOfTwo bits) : 0 < q.size := by
  rw [ring.size]
  exact Nat.two_pow_pos bits

theorem size_le (ring : q.PowerOfTwo bits) : 2 * q.size ≤ u32Range := by
  have le : 2 ^ bits ≤ 2 ^ 31 := Nat.pow_le_pow_right (by decide) ring.bitsLe
  rw [ring.size]
  unfold u32Range
  omega

theorem and_mask (ring : q.PowerOfTwo bits) (position : Nat) :
    position &&& q.mask = position % q.size := by
  rw [ring.mask, ring.size, Nat.and_two_pow_sub_one_eq_mod]

theorem slot_eq (ring : q.PowerOfTwo bits) (position : Nat) :
    q.slot position = position % q.size := by
  have period : q.size ∣ u32Range := by
    rw [ring.size, show u32Range = 2 ^ 32 by decide]
    exact Nat.pow_dvd_pow 2 (by have := ring.bitsLe; omega)
  rw [slot, ring.and_mask, Nat.mod_mod_of_dvd _ period]

end PowerOfTwo

/-- The accesses that pair the indices from `i` on with the cells a function names. -/
def pairs (cell : Nat → Nat) (i count : Nat) : List (Nat × Nat) :=
  (List.range' i count).map fun k => (cell k, k)

@[simp] theorem pairs_zero (cell : Nat → Nat) (i : Nat) : pairs cell i 0 = [] := rfl

theorem pairs_succ (cell : Nat → Nat) (i count : Nat) :
    pairs cell i (count + 1) = (cell i, i) :: pairs cell (i + 1) count := rfl

theorem pairs_append (cell : Nat → Nat) (i count more : Nat) :
    pairs cell i count ++ pairs cell (i + count) more = pairs cell i (count + more) := by
  rw [pairs, pairs, ← List.map_append, List.range'_append_1, pairs]

theorem pairs_congr {cell other : Nat → Nat} {i count : Nat}
    (agree : ∀ k, k < count → cell (i + k) = other (i + k)) :
    pairs cell i count = pairs other i count := by
  apply List.map_congr_left
  intro k member
  obtain ⟨low, high⟩ := List.mem_range'_1.mp member
  have at_ := agree (k - i) (by omega)
  rw [Nat.add_sub_cancel' low] at at_
  rw [at_]

@[simp] theorem pairs_length (cell : Nat → Nat) (i count : Nat) :
    (pairs cell i count).length = count := by
  rw [pairs, List.length_map, List.length_range']

theorem mem_pairs {cell : Nat → Nat} {i count : Nat} {access : Nat × Nat} :
    access ∈ pairs cell i count ↔
      access.1 = cell access.2 ∧ i ≤ access.2 ∧ access.2 < i + count := by
  rw [pairs, List.mem_map]
  constructor
  · rintro ⟨k, member, rfl⟩
    exact ⟨rfl, List.mem_range'_1.mp member⟩
  · rintro ⟨first, range⟩
    exact ⟨access.2, List.mem_range'_1.mpr range, by rw [← first]⟩

/-- A copying loop that meets the cells in order. -/
theorem copyLoop_eq {cell other : Nat → Nat} {index i todo : Nat} (range : index < u32Range)
    (agree : ∀ k, k < todo → cell ((index + k) % u32Range) = other (i + k)) :
    copyLoop cell index i todo = pairs other i todo := by
  induction todo generalizing index i with
  | zero => rfl
  | succ todo ih =>
      have first := agree 0 (Nat.succ_pos _)
      rw [Nat.add_zero, Nat.add_zero, Nat.mod_eq_of_lt range] at first
      rw [copyLoop, pairs_succ, first, ih (Nat.mod_lt _ (by decide))]
      intro k bound
      rw [Nat.mod_add_mod, Nat.add_assoc, Nat.add_assoc, Nat.add_comm 1 k]
      exact agree (k + 1) (Nat.succ_lt_succ bound)

theorem accessAt_eq {other : Nat → Nat} {index i k : Nat}
    (agree : (index + k) % u32Range = other (i + k)) :
    accessAt index i k = (other (i + k), i + k) := by
  rw [accessAt, agree]

theorem unrolledLoop_eq {other : Nat → Nat} {index i turns : Nat}
    (agree : ∀ k, k < 4 * turns → (index + k) % u32Range = other (i + k)) :
    unrolledLoop index i turns = pairs other i (4 * turns) := by
  induction turns generalizing index i with
  | zero => rfl
  | succ turns ih =>
      have rest : unrolledLoop ((index + 4) % u32Range) (i + 4) turns =
          pairs other (i + 4) (4 * turns) := by
        apply ih
        intro k bound
        rw [Nat.mod_add_mod, Nat.add_assoc, Nat.add_assoc]
        exact agree (4 + k) (by omega)
      rw [unrolledLoop, rest, Nat.mul_succ, accessAt_eq (agree 0 (by omega)),
        accessAt_eq (agree 1 (by omega)), accessAt_eq (agree 2 (by omega)),
        accessAt_eq (agree 3 (by omega))]
      rfl

theorem remainder_eq {other : Nat → Nat} {index i r : Nat} (few : r < 4)
    (agree : ∀ k, k < r → (index + k) % u32Range = other (i + k)) :
    remainder index i r = pairs other i r := by
  have at_ (k : Nat) (bound : k < r) := accessAt_eq (agree k bound)
  match r, few with
  | 0, _ => rfl
  | 1, _ => rw [remainder, at_ 0 (by decide)]; rfl
  | 2, _ => rw [remainder, at_ 0 (by decide), at_ 1 (by decide)]; rfl
  | 3, _ => rw [remainder, at_ 0 (by decide), at_ 1 (by decide), at_ 2 (by decide)]; rfl

/-- A round of the device makes its accesses from the last to the first. -/
theorem duffBody_eq {other : Nat → Nat} {index i r count : Nat} (few : r < 4)
    (counted : count = if r = 0 then 4 else r)
    (agree : ∀ k, k < count → (index + k) % u32Range = other (i + k)) :
    duffBody index i r = (pairs other i count).reverse := by
  have at_ (k : Nat) (bound : k < count) := accessAt_eq (agree k bound)
  match r, few with
  | 0, _ =>
      obtain rfl : count = 4 := counted
      rw [duffBody, at_ 0 (by decide), at_ 1 (by decide), at_ 2 (by decide), at_ 3 (by decide)]
      rfl
  | 1, _ =>
      obtain rfl : count = 1 := counted
      rw [duffBody, at_ 0 (by decide)]
      · rfl
      all_goals decide
  | 2, _ =>
      obtain rfl : count = 2 := counted
      rw [duffBody, at_ 0 (by decide), at_ 1 (by decide)]
      rfl
  | 3, _ =>
      obtain rfl : count = 3 := counted
      rw [duffBody, at_ 0 (by decide), at_ 1 (by decide), at_ 2 (by decide)]
      rfl

/-- From the top of the device: `left` rounds of four are to go. -/
theorem duffLoop_top {other : Nat → Nat} {iterations index i left : Nat}
    (rounds : i + 4 * left < iterations + 4) (enough : iterations ≤ i + 4 * left)
    (some_ : 0 < left)
    (agree : ∀ k, k < 4 * left → (index + k) % u32Range = other (i + k))
    (inside : ∀ k, 0 < k → k < 4 * left → (index + k) % u32Range ≠ 0) :
    (duffLoop iterations index i 0).Perm (pairs other i (4 * left)) := by
  induction left generalizing index i with
  | zero => exact absurd some_ (Nat.lt_irrefl 0)
  | succ left ih =>
      have body : duffBody index i 0 = (pairs other i 4).reverse :=
        duffBody_eq (by decide) rfl fun k bound => agree k (by omega)
      have round : (duffBody index i 0).Perm (pairs other i 4) := by
        rw [body]
        exact List.reverse_perm _
      rw [duffLoop, if_neg (Nat.lt_irrefl 0)]
      rcases Nat.eq_zero_or_pos left with rfl | more
      · rw [if_neg (by omega), List.append_nil]
        exact round
      · rw [if_pos ⟨inside 4 (by omega) (by omega), by omega⟩,
          show 4 * (left + 1) = 4 + 4 * left by omega, ← pairs_append]
        refine round.append (ih (by omega) (by omega) more ?_ ?_)
        · intro k bound
          rw [Nat.mod_add_mod, Nat.add_assoc, Nat.add_assoc]
          exact agree (4 + k) (by omega)
        · intro k positive bound
          rw [Nat.mod_add_mod, Nat.add_assoc]
          exact inside (4 + k) (by omega) (by omega)

/-- The accesses of the plain masked loop: each index of `ptr` with the cell of its position. -/
def straightMoves (q : AlfQueue α) (pHead n : Nat) : List (Nat × Nat) :=
  pairs (fun i => q.slot (pHead + i)) 0 n

section

variable {q : AlfQueue α} {bits pHead n : Nat}

theorem maskMoves_eq (range : pHead < u32Range) : q.maskMoves pHead n = q.straightMoves pHead n := by
  apply copyLoop_eq range
  intro k _
  rw [Nat.zero_add]
  rfl

namespace PowerOfTwo

/-- Before the end of the ring the cells follow on from the first. -/
theorem cell_before (ring : q.PowerOfTwo bits) {k : Nat} (before : pHead % q.size + k < q.size) :
    q.slot (pHead + k) = pHead % q.size + k := by
  rw [ring.slot_eq, Nat.add_mod, Nat.mod_eq_of_lt (show k < q.size by omega),
    Nat.mod_eq_of_lt before]

/-- From the end of the ring on they start again. -/
theorem cell_behind (ring : q.PowerOfTwo bits) {k : Nat} (behind : q.size ≤ pHead % q.size + k)
    (few : k ≤ q.size) : q.slot (pHead + k) = pHead % q.size + k - q.size := by
  have index := Nat.mod_lt pHead ring.size_pos
  rw [ring.slot_eq, ← Nat.mod_add_mod, Nat.mod_eq_sub_mod behind, Nat.mod_eq_of_lt (by omega)]

/-- The test of the fast branches is whether the bulk stays before the last cell. -/
theorem fast_iff (ring : q.PowerOfTwo bits) (few : n ≤ q.size) :
    ((pHead &&& q.mask) + n) % u32Range ≤ q.mask ↔ pHead % q.size + n < q.size := by
  have positive := ring.size_pos
  have small := ring.size_le
  have index := Nat.mod_lt pHead positive
  rw [ring.and_mask, ring.mask_eq, Nat.mod_eq_of_lt (show pHead % q.size + n < u32Range by omega)]
  omega

theorem index_range (ring : q.PowerOfTwo bits) : pHead % q.size < u32Range := by
  have small := ring.size_le
  have index := Nat.mod_lt pHead ring.size_pos
  omega

/-- An index that has not passed the end of the ring names the cell without a mask. -/
theorem plain_cell (ring : q.PowerOfTwo bits) {k : Nat} (before : pHead % q.size + k < q.size) :
    (pHead % q.size + k) % u32Range = q.slot (pHead + k) := by
  have small := ring.size_le
  rw [ring.cell_before before, Nat.mod_eq_of_lt (by omega)]

theorem copyLoop_fast (ring : q.PowerOfTwo bits) (fast : pHead % q.size + n ≤ q.size) :
    copyLoop id (pHead % q.size) 0 n = q.straightMoves pHead n := by
  apply copyLoop_eq ring.index_range
  intro k bound
  rw [Nat.zero_add]
  exact ring.plain_cell (by omega)

theorem copyLoop_masked (ring : q.PowerOfTwo bits) (few : n ≤ q.size) :
    copyLoop (· &&& q.mask) (pHead % q.size) 0 n = q.straightMoves pHead n := by
  apply copyLoop_eq ring.index_range
  intro k bound
  have small := ring.size_le
  have index := Nat.mod_lt pHead ring.size_pos
  rw [Nat.mod_eq_of_lt (show pHead % q.size + k < u32Range by omega), ring.and_mask,
    Nat.zero_add, ring.slot_eq, Nat.mod_add_mod]

/-- The two halves of a bulk that reaches the end of the ring. -/
theorem copyLoop_halves (ring : q.PowerOfTwo bits) (few : n ≤ q.size)
    (wraps : q.size ≤ pHead % q.size + n) :
    copyLoop id (pHead % q.size) 0 (q.size - pHead % q.size) ++
        copyLoop id 0 (q.size - pHead % q.size) (n - (q.size - pHead % q.size)) =
      q.straightMoves pHead n := by
  have index := Nat.mod_lt pHead ring.size_pos
  have small := ring.size_le
  have second : copyLoop id 0 (q.size - pHead % q.size) (n - (q.size - pHead % q.size)) =
      pairs (fun i => q.slot (pHead + i)) (0 + (q.size - pHead % q.size))
        (n - (q.size - pHead % q.size)) := by
    rw [Nat.zero_add]
    apply copyLoop_eq (by decide)
    intro k bound
    rw [ring.cell_behind (by omega) (by omega), Nat.zero_add,
      Nat.mod_eq_of_lt (show k < u32Range by omega), id]
    omega
  rw [ring.copyLoop_fast (by omega), second, straightMoves, pairs_append,
    Nat.add_sub_cancel' (by omega), straightMoves]

theorem maskLessMoves_eq (ring : q.PowerOfTwo bits) (few : n ≤ q.size) :
    q.maskLessMoves pHead n = q.straightMoves pHead n := by
  unfold maskLessMoves
  dsimp only
  split
  · rename_i fast
    rw [ring.fast_iff few] at fast
    rw [ring.and_mask, ring.copyLoop_fast (Nat.le_of_lt fast)]
  · rw [ring.and_mask, ring.copyLoop_masked few]

theorem maskLess2Moves_eq (ring : q.PowerOfTwo bits) (few : n ≤ q.size) :
    q.maskLess2Moves pHead n = q.straightMoves pHead n := by
  have positive := ring.size_pos
  unfold maskLess2Moves
  dsimp only
  split
  · rename_i fast
    rw [ring.fast_iff few] at fast
    rw [ring.and_mask, ring.copyLoop_fast (Nat.le_of_lt fast)]
  · rename_i slow
    rw [ring.fast_iff few, Nat.not_lt] at slow
    rw [ring.and_mask, ring.mask_eq, Nat.sub_add_cancel positive, ring.copyLoop_halves few slow]

theorem nomaskMoves_eq (ring : q.PowerOfTwo bits) (few : n ≤ q.size) :
    q.nomaskMoves pHead n = q.straightMoves pHead n := by
  have positive := ring.size_pos
  have index := Nat.mod_lt pHead positive
  unfold nomaskMoves
  dsimp only
  rw [ring.and_mask, ring.mask_eq, Nat.sub_add_cancel positive]
  rcases Nat.le_total n (q.size - pHead % q.size) with short | long
  · rw [Nat.min_eq_left short, Nat.sub_self, ring.copyLoop_fast (by omega)]
    exact List.append_nil _
  · rw [Nat.min_eq_right long, ring.copyLoop_halves few (by omega)]

theorem unrollMoves_eq (ring : q.PowerOfTwo bits) (few : n ≤ q.size) :
    q.unrollMoves pHead n = q.straightMoves pHead n := by
  unfold unrollMoves
  dsimp only
  split
  · rename_i fast
    rw [ring.fast_iff few] at fast
    have turns : 4 * ((n - n % 4) / 4) = n - n % 4 := by omega
    have agree (k : Nat) (bound : k < n) :
        (pHead % q.size + k) % u32Range = q.slot (pHead + k) := ring.plain_cell (by omega)
    have loop : unrolledLoop (pHead % q.size) 0 ((n - n % 4) / 4) =
        pairs (fun i => q.slot (pHead + i)) 0 (4 * ((n - n % 4) / 4)) := by
      apply unrolledLoop_eq
      intro k bound
      rw [Nat.zero_add]
      exact agree k (by omega)
    have rest : remainder ((pHead % q.size + (n - n % 4)) % u32Range) (n - n % 4) (n % 4) =
        pairs (fun i => q.slot (pHead + i)) (0 + (n - n % 4)) (n % 4) := by
      rw [Nat.zero_add]
      apply remainder_eq (Nat.mod_lt _ (by decide))
      intro k bound
      rw [Nat.mod_add_mod, Nat.add_assoc]
      exact agree (n - n % 4 + k) (by omega)
    rw [ring.and_mask, loop, turns, rest, pairs_append, Nat.sub_add_cancel (Nat.mod_le n 4),
      straightMoves]
  · rw [ring.and_mask, ring.copyLoop_masked few]

/-- The device reorders the accesses, and makes four too many for an empty bulk. -/
theorem unrollDuffMoves_perm (ring : q.PowerOfTwo bits) (few : n ≤ q.size) (some_ : n ≠ 0) :
    (q.unrollDuffMoves pHead n).Perm (q.straightMoves pHead n) := by
  unfold unrollDuffMoves
  dsimp only
  split
  · rename_i fast
    rw [ring.fast_iff few] at fast
    have index : pHead % q.size < u32Range := ring.index_range
    have small := ring.size_le
    have agree (k : Nat) (bound : k < n) :
        (pHead % q.size + k) % u32Range = q.slot (pHead + k) := ring.plain_cell (by omega)
    have inside (k : Nat) (positive : 0 < k) (bound : k < n) :
        (pHead % q.size + k) % u32Range ≠ 0 := by
      rw [Nat.mod_eq_of_lt (by omega)]
      omega
    -- the rounds of four, which start behind the `n % 4` accesses of the first jump
    have rounds (some_ : 0 < n / 4) :
        (duffLoop (n - n % 4) ((pHead % q.size + n % 4) % u32Range) (n % 4) 0).Perm
          (pairs (fun i => q.slot (pHead + i)) (n % 4) (4 * (n / 4))) := by
      apply duffLoop_top (by omega) (by omega) some_
      · intro k bound
        rw [Nat.mod_add_mod, Nat.add_assoc]
        exact agree (n % 4 + k) (by omega)
      · intro k positive bound
        rw [Nat.mod_add_mod, Nat.add_assoc]
        exact inside (n % 4 + k) (by omega) (by omega)
    rw [ring.and_mask]
    rcases Nat.eq_zero_or_pos (n % 4) with whole | part
    · have all := rounds (by omega)
      rw [whole, Nat.add_zero, Nat.mod_eq_of_lt index, show 4 * (n / 4) = n by omega] at all
      rwa [whole]
    · have order : duffBody (pHead % q.size) 0 (n % 4) =
          (pairs (fun i => q.slot (pHead + i)) 0 (n % 4)).reverse := by
        apply duffBody_eq (Nat.mod_lt n (by decide)) (if_neg (by omega)).symm
        intro k bound
        rw [Nat.zero_add]
        exact agree k (by omega)
      have jump : (duffBody (pHead % q.size) 0 (n % 4)).Perm
          (pairs (fun i => q.slot (pHead + i)) 0 (n % 4)) := by
        rw [order]
        exact List.reverse_perm _
      rw [duffLoop, if_pos part, straightMoves]
      rcases Nat.eq_zero_or_pos (n / 4) with none_ | some_
      · rw [if_neg (by omega), List.append_nil]
        rwa [show n % 4 = n by omega] at jump ⊢
      · rw [if_pos (by omega), Nat.zero_add]
        have both := jump.append (rounds some_)
        have whole := pairs_append (fun i => q.slot (pHead + i)) 0 (n % 4) (4 * (n / 4))
        rw [Nat.zero_add, show n % 4 + 4 * (n / 4) = n by omega] at whole
        rwa [whole] at both
  · rw [ring.and_mask, ring.copyLoop_masked few]

/-- A bulk that fills the ring leaves `p_next` where `p_head` is, which reads as no bulk. -/
theorem memcpyMoves_eq (ring : q.PowerOfTwo bits) (few : n ≤ q.size) :
    q.memcpyMoves pHead n = if n = q.size then [] else q.straightMoves pHead n := by
  have index := Nat.mod_lt pHead ring.size_pos
  have last : (pHead + n) % u32Range &&& q.mask = q.slot (pHead + n) := rfl
  unfold memcpyMoves
  dsimp only
  rw [last, ring.and_mask]
  rcases Nat.lt_or_ge (pHead % q.size + n) q.size with fast | wraps
  · rw [ring.cell_before fast, if_pos (Nat.le_add_right _ _), Nat.add_sub_cancel_left,
      ring.copyLoop_fast (Nat.le_of_lt fast), if_neg (by omega)]
  · rw [ring.cell_behind wraps few]
    split
    · rename_i full
      rw [show pHead % q.size + n - q.size - pHead % q.size = 0 by omega, if_pos (by omega)]
      rfl
    · rename_i partial_
      rw [show pHead % q.size + n - q.size = n - (q.size - pHead % q.size) by omega,
        ring.copyLoop_halves few wraps, if_neg (by omega)]

end PowerOfTwo

/-- Up to the end of the ring the wrapping loop is the plain one. -/
theorem wrappingLoop_eq {size index i todo : Nat} (fits : index + todo ≤ size)
    (small : size < u32Range) {other : Nat → Nat}
    (agree : ∀ k, k < todo → index + k = other (i + k)) :
    wrappingLoop size index i todo = pairs other i todo := by
  induction todo generalizing index i with
  | zero => rfl
  | succ todo ih =>
      have here := agree 0 (Nat.succ_pos _)
      rw [Nat.add_zero, Nat.add_zero] at here
      have rest : wrappingLoop size (index + 1) (i + 1) todo = pairs other (i + 1) todo := by
        apply ih (by omega)
        intro k bound
        rw [Nat.add_assoc, Nat.add_assoc]
        exact agree (1 + k) (by omega)
      rw [wrappingLoop, if_neg (show index ≠ size by omega),
        Nat.mod_eq_of_lt (show index + 1 < u32Range by omega), rest, pairs_succ, here]

/-- Past the end of the ring the wrapping loop uses the cell behind the last one. -/
theorem mem_wrappingLoop {size index i todo : Nat} (before : index ≤ size)
    (small : size < u32Range) (passes : size < index + todo) :
    (size, i + (size - index)) ∈ wrappingLoop size index i todo := by
  induction todo generalizing index i with
  | zero => exact absurd passes (by omega)
  | succ todo ih =>
      rcases Nat.lt_or_eq_of_le before with earlier | rfl
      · rw [wrappingLoop, if_neg (show index ≠ size by omega),
          Nat.mod_eq_of_lt (show index + 1 < u32Range by omega)]
        have later : (size, i + 1 + (size - (index + 1))) ∈
            wrappingLoop size (index + 1) (i + 1) todo := ih (by omega) (by omega)
        rw [show i + 1 + (size - (index + 1)) = i + (size - index) by omega] at later
        exact List.mem_cons_of_mem _ later
      · rw [Nat.sub_self, wrappingLoop]
        exact List.mem_cons_self

end

end AlfQueue

namespace AlfHelper

variable {α : Type} {q : AlfQueue α} {bits pHead n : Nat}

/-- Where a pair of helpers makes the accesses of the plain masked pair. -/
def Fits (q : AlfQueue α) (pHead n : Nat) : AlfHelper → Prop
  | simple => pHead % q.size + n ≤ q.size
  | unrollDuff => n ≠ 0
  | memcpy => n ≠ q.size
  | _ => True

/-- In a ring whose size is a power of two the optimised helpers make the accesses of the plain
ones, in some order, except that `simple` runs past the end of the ring where the bulk wraps,
`unroll_duff` takes an empty bulk for one of four and `memcpy` a full one for an empty one. -/
theorem moves_perm_iff (ring : q.PowerOfTwo bits) (range : pHead < u32Range) (few : n ≤ q.size)
    (helper : AlfHelper) :
    (helper.moves q pHead n).Perm (mask.moves q pHead n) ↔ helper.Fits q pHead n := by
  have small := ring.size_le
  have positive := ring.size_pos
  have index := Nat.mod_lt pHead positive
  change (helper.moves q pHead n).Perm (q.maskMoves pHead n) ↔ _
  rw [AlfQueue.maskMoves_eq range]
  cases helper with
  | simple =>
      change (AlfQueue.wrappingLoop q.size (pHead &&& q.mask) 0 n).Perm _ ↔ _
      rw [ring.and_mask]
      constructor
      · intro same
        by_contra passes
        have behind := AlfQueue.mem_wrappingLoop (i := 0) (Nat.le_of_lt index)
          (by omega : q.size < u32Range) (Nat.lt_of_not_le passes)
        have cell := (AlfQueue.mem_pairs.mp (same.mem_iff.mp behind)).1
        have inRing := Nat.mod_lt (pHead + (0 + (q.size - pHead % q.size))) positive
        rw [← ring.slot_eq, ← cell] at inRing
        exact Nat.lt_irrefl _ inRing
      · intro fits
        change pHead % q.size + n ≤ q.size at fits
        rw [AlfQueue.wrappingLoop_eq fits (by omega)]
        · exact List.Perm.refl _
        · intro k bound
          rw [Nat.zero_add, ring.cell_before (by omega)]
  | mask =>
      change (q.maskMoves pHead n).Perm _ ↔ True
      rw [AlfQueue.maskMoves_eq range]
      exact iff_true_intro (List.Perm.refl _)
  | maskLess => exact iff_true_intro (.of_eq (ring.maskLessMoves_eq few))
  | maskLess2 => exact iff_true_intro (.of_eq (ring.maskLess2Moves_eq few))
  | nomask => exact iff_true_intro (.of_eq (ring.nomaskMoves_eq few))
  | unroll => exact iff_true_intro (.of_eq (ring.unrollMoves_eq few))
  | unrollDuff =>
      refine ⟨?_, ring.unrollDuffMoves_perm few⟩
      rintro same rfl
      -- an empty bulk takes the straight branch and enters the device at its top
      have straight : ((pHead &&& q.mask) + 0) % u32Range ≤ q.mask :=
        (ring.fast_iff (Nat.zero_le _)).mpr index
      have four : 4 ≤ (q.unrollDuffMoves pHead 0).length := by
        unfold AlfQueue.unrollDuffMoves
        dsimp only
        rw [if_pos straight, AlfQueue.duffLoop, List.length_append]
        exact Nat.le_add_right 4 _
      have empty : (q.unrollDuffMoves pHead 0).length = 0 := same.length_eq
      exact absurd four (by rw [empty]; decide)
  | memcpy =>
      change (q.memcpyMoves pHead n).Perm _ ↔ n ≠ q.size
      rw [ring.memcpyMoves_eq few]
      split
      · rename_i full
        refine ⟨fun same => ?_, fun fits => absurd full fits⟩
        have lengths := same.length_eq
        rw [AlfQueue.straightMoves, AlfQueue.pairs_length] at lengths
        exact absurd lengths.symm (by rw [full]; exact Nat.pos_iff_ne_zero.mp positive)
      · rename_i fits
        exact iff_of_true (List.Perm.refl _) fits

/-- In a ring of eight cells a bulk of five at position 6 wraps, and the loop in use copes. -/
theorem moves_perm_iff_wrapped :
    (unroll.moves (alfQueueAlloc 8 : AlfQueue Nat) 6 5).Perm
      (mask.moves (alfQueueAlloc 8 : AlfQueue Nat) 6 5) ↔
    unroll.Fits (alfQueueAlloc 8 : AlfQueue Nat) 6 5 := by
  have ring : (alfQueueAlloc 8 : AlfQueue Nat).PowerOfTwo 3 :=
    AlfQueue.powerOfTwo_alloc (show 3 ≤ 31 by decide)
  exact moves_perm_iff ring (by decide) (by decide) unroll

theorem straightMoves_cells (ring : q.PowerOfTwo bits) (few : n ≤ q.size) :
    ((q.straightMoves pHead n).map Prod.fst).Nodup := by
  have cells : (q.straightMoves pHead n).map Prod.fst =
      (List.range' 0 n).map fun i => q.slot (pHead + i) := by
    rw [AlfQueue.straightMoves, AlfQueue.pairs, List.map_map]
    rfl
  rw [cells]
  refine List.Nodup.map_on ?_ List.nodup_range'
  have lowBits : q.mask % 2 ^ bits = 2 ^ bits - 1 := by
    rw [ring.mask, Nat.mod_eq_of_lt (Nat.sub_lt (Nat.two_pow_pos bits) Nat.one_pos)]
  have bitsLe := ring.bitsLe
  have apart (i j : Nat) (before : i < j) (bound : j < n) :
      q.slot (pHead + i) ≠ q.slot (pHead + j) :=
    q.slot_ne_of_close (by omega) lowBits before (by rw [← ring.size]; omega)
  intro i inI j inJ same
  have boundI := (List.mem_range'_1.mp inI).2
  have boundJ := (List.mem_range'_1.mp inJ).2
  rcases Nat.lt_trichotomy i j with before | equal | after
  · exact absurd same (apart i j before (by omega))
  · exact equal
  · exact absurd same.symm (apart j i after (by omega))

theorem straightMoves_indices :
    (q.straightMoves pHead n).map Prod.snd = List.range' 0 n := by
  rw [AlfQueue.straightMoves, AlfQueue.pairs, List.map_map]
  exact List.map_id _

/-- Any pair of helpers that fits the bulk stores it so that any other loads it back; only the
cells of the bulk change, and `ptr` only where an element was loaded. -/
theorem load_store (ring : q.PowerOfTwo bits) (range : pHead < u32Range) {ptr : List α}
    (few : ptr.length ≤ q.size) {storing loading : AlfHelper}
    (stores : storing.Fits q pHead ptr.length) (loads : loading.Fits q pHead ptr.length)
    (home : Nat → Option α) :
    (∀ i, loading.dequeueLoad (storing.enqueueStore q pHead ptr) pHead ptr.length home i =
      if i < ptr.length then ptr[i]? else home i) ∧
    ∀ cell, (∀ i, i < ptr.length → cell ≠ q.slot (pHead + i)) →
      (storing.enqueueStore q pHead ptr).ring cell = q.ring cell := by
  have plain (helper : AlfHelper) (fits : helper.Fits q pHead ptr.length) :
      (helper.moves q pHead ptr.length).Perm (q.straightMoves pHead ptr.length) := by
    rw [← AlfQueue.maskMoves_eq range]
    exact (moves_perm_iff ring range few helper).mpr fits
  have stored := plain storing stores
  have loaded := plain loading loads
  have cells : ((q.straightMoves pHead ptr.length).map Prod.fst).Nodup :=
    straightMoves_cells ring few
  have indices : ((q.straightMoves pHead ptr.length).map Prod.snd).Nodup := by
    rw [straightMoves_indices]
    exact List.nodup_range'
  have alike : loading.moves (storing.enqueueStore q pHead ptr) pHead ptr.length =
      loading.moves q pHead ptr.length := by
    cases loading <;> rfl
  constructor
  · intro i
    unfold dequeueLoad
    rw [alike]
    split
    · rename_i bound
      have member : (q.slot (pHead + i), i) ∈ q.straightMoves pHead ptr.length :=
        AlfQueue.mem_pairs.mpr ⟨rfl, Nat.zero_le _, by omega⟩
      exact transfer_back ((stored.map Prod.fst).nodup_iff.mpr cells)
        ((stored.map Prod.snd).nodup_iff.mpr indices)
        ((stored.trans loaded.symm).map Prod.swap) (stored.mem_iff.mpr member)
    · rename_i beyond
      apply transfer_of_not_mem
      rw [List.map_map]
      intro touched
      have member := (loaded.map Prod.snd).mem_iff.mp touched
      rw [straightMoves_indices] at member
      exact beyond (by have := (List.mem_range'_1.mp member).2; omega)
  · intro cell outside
    apply transfer_of_not_mem
    intro touched
    obtain ⟨access, member, rfl⟩ := List.mem_map.mp ((stored.map Prod.fst).mem_iff.mp touched)
    obtain ⟨isCell, _, bound⟩ := AlfQueue.mem_pairs.mp member
    exact outside access.2 (by omega) isCell

/-- Five elements stored from position 6 on in a ring of eight by the loop in use come back by
the one with two halves. -/
theorem load_store_wrapped :
    unroll.Fits (alfQueueAlloc 8 : AlfQueue Nat) 6 5 ∧
    (∀ i, nomask.dequeueLoad (unroll.enqueueStore (alfQueueAlloc 8) 6 [1, 2, 3, 4, 5])
        6 5 (fun _ => none) i = if i < 5 then [1, 2, 3, 4, 5][i]? else none) ∧
    ∀ cell, (∀ i, i < 5 → cell ≠ (alfQueueAlloc 8 : AlfQueue Nat).slot (6 + i)) →
      (unroll.enqueueStore (alfQueueAlloc 8) 6 [1, 2, 3, 4, 5]).ring cell = none := by
  have ring : (alfQueueAlloc 8 : AlfQueue Nat).PowerOfTwo 3 :=
    AlfQueue.powerOfTwo_alloc (show 3 ≤ 31 by decide)
  have stores : unroll.Fits (alfQueueAlloc 8 : AlfQueue Nat) 6 [1, 2, 3, 4, 5].length := trivial
  have loads : nomask.Fits (alfQueueAlloc 8 : AlfQueue Nat) 6 [1, 2, 3, 4, 5].length := trivial
  exact ⟨stores, load_store ring (by decide) (by decide) stores loads _⟩

end AlfHelper

end Valet.Bd
