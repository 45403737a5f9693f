import Valet.Bd.Splitting
import Valet.Library.Runs

/-!
# The bitmap of a remote block

`bitmap_g` is an array of `BITMAP_INT_SIZE` ints with one bit for each page of
the gigabyte.  The functions are written here on the array, where an access
outside of it fails, with the `int` arithmetic of the source.  They do on the
array what the set of pages with data prescribes.
-/

namespace Valet.Bd

open Valet.Library

/-- `BITMAP_INT_SIZE`. -/
def bitmapIntSize : Nat := 8192

/-- `int`. -/
abbrev CInt := BitVec 32

/-- `BITMAP_MASK`. -/
def bitmapMask : CInt := 0x1f#32

/-- `ONE_GB`. -/
def oneGb : Nat := 1073741824

namespace BlockBitmap

/-- `(int)` of an `unsigned long`. -/
def intOf (value : Nat) : CInt := BitVec.ofNat 32 value

/-- `bitmap[k]`. -/
def access (bitmap : Array CInt) (k : Int) : Option CInt :=
  if 0 ≤ k then bitmap[k.toNat]? else none

/-- `i >> BITMAP_SHIFT`. -/
def wordIndex (i : CInt) : Int := (i.sshiftRight bitmapShift).toInt

/-- `1 << (i & BITMAP_MASK)`. -/
def pageBit (i : CInt) : CInt := 1#32 <<< (i &&& bitmapMask)

def valetBitmapSet (bitmap : Array CInt) (i : CInt) : Option (Array CInt) := do
  let word ← access bitmap (wordIndex i)
  return bitmap.setIfInBounds (wordIndex i).toNat (word ||| pageBit i)

def valetBitmapClear (bitmap : Array CInt) (i : CInt) : Option (Array CInt) := do
  let word ← access bitmap (wordIndex i)
  return bitmap.setIfInBounds (wordIndex i).toNat (word &&& ~~~ pageBit i)

def valetBitmapTest (bitmap : Array CInt) (i : CInt) : Option Bool := do
  let word ← access bitmap (wordIndex i)
  return (word &&& pageBit i) != 0#32

/-- The loop of the group functions, from a page on. -/
def eachPage (visit : Array CInt → CInt → Option (Array CInt)) :
    CInt → Nat → Array CInt → Option (Array CInt)
  | _, 0, bitmap => some bitmap
  | page, count + 1, bitmap => do
      let bitmap ← visit bitmap page
      eachPage visit (page + 1#32) count bitmap

/-- The group functions; a negative `len_page` means no turn. -/
def groupPages (visit : Array CInt → CInt → Option (Array CInt)) (bitmap : Array CInt)
    (offset len : Nat) : Option (Array CInt) :=
  eachPage visit (intOf (offset / valetPageSize)) (intOf (len / valetPageSize)).toInt.toNat bitmap

def valetBitmapGroupSet (bitmap : Array CInt) (offset len : Nat) : Option (Array CInt) :=
  groupPages valetBitmapSet bitmap offset len

def valetBitmapGroupClear (bitmap : Array CInt) (offset len : Nat) : Option (Array CInt) :=
  groupPages valetBitmapClear bitmap offset len

/-- `memset(bitmap, 0x00, bytes)`, for a whole number of ints. -/
def zeroBytes (bitmap : Array CInt) (bytes : Nat) : Option (Array CInt) :=
  if bytes ≤ 4 * bitmap.size then
    some (bitmap.mapIdx fun k word => if k < bytes / 4 then 0#32 else word)
  else
    none

def valetBitmapInit (bitmap : Array CInt) : Option (Array CInt) :=
  zeroBytes bitmap (oneGb / (4096 * 8))

end BlockBitmap

/-- A call that changes the bitmap. -/
inductive BitmapOp where
  | init
  | set (page : Nat)
  | clear (page : Nat)
  | groupSet (offset len : Nat)
  | groupClear (offset len : Nat)

namespace BitmapOp

/-- The page is one of the gigabyte, or the range is one of whole pages in it. -/
def InRange : BitmapOp → Prop
  | init => True
  | set page => page < swapspacePages
  | clear page => page < swapspacePages
  | groupSet offset len =>
      valetPageSize ∣ offset ∧ valetPageSize ∣ len ∧ offset + len ≤ oneGb
  | groupClear offset len =>
      valetPageSize ∣ offset ∧ valetPageSize ∣ len ∧ offset + len ≤ oneGb

/-- The pages that start in a range of bytes. -/
def rangePages (offset len : Nat) : Set Nat :=
  {page | offset ≤ page * valetPageSize ∧ page * valetPageSize < offset + len}

/-- What the call does to the set of pages with data. -/
def onSet (pages : Set Nat) : BitmapOp → Set Nat
  | init => ∅
  | set page => insert page pages
  | clear page => pages \ {page}
  | groupSet offset len => pages ∪ rangePages offset len
  | groupClear offset len => pages \ rangePages offset len

end BitmapOp

namespace BlockBitmap

def step (bitmap : Array CInt) : BitmapOp → Option (Array CInt)
  | .init => valetBitmapInit bitmap
  | .set page => valetBitmapSet bitmap (intOf page)
  | .clear page => valetBitmapClear bitmap (intOf page)
  | .groupSet offset len => valetBitmapGroupSet bitmap offset len
  | .groupClear offset len => valetBitmapGroupClear bitmap offset len

/-- The words by their index. -/
def words (bitmap : Array CInt) : BitmapWords := fun k => bitmap.getD k 0#32

/-- The pages whose bit is set. -/
def pages (bitmap : Array CInt) : Set Nat :=
  {page | valetBitmapTest bitmap (intOf page) = some true}

/-- The bitmap is whole, and a test answers for every page of the gigabyte whether it is in the
set. -/
structure Represents (bitmap : Array CInt) (pages : Set Nat) : Prop where
  size : bitmap.size = bitmapIntSize
  answers : ∀ page < swapspacePages, ∃ bit, valetBitmapTest bitmap (intOf page) = some bit ∧
    (bit = true ↔ page ∈ pages)

/-! ## The array and its words -/

variable {bitmap next : Array CInt} {page : Nat}

theorem toNat_intOf (inRange : page < swapspacePages) : (intOf page).toNat = page := by
  unfold swapspacePages at inRange
  rw [intOf, BitVec.toNat_ofNat]
  omega

theorem wordIndex_intOf (inRange : page < swapspacePages) :
    wordIndex (intOf page) = ((page >>> bitmapShift : Nat) : Int) := by
  have small : 2 * (intOf page).toNat < 2 ^ 32 := by
    rw [toNat_intOf inRange]
    unfold swapspacePages at inRange
    omega
  rw [wordIndex, BitVec.toInt_sshiftRight, BitVec.toInt_eq_toNat_of_lt small, toNat_intOf inRange]
  rfl

theorem pageBit_intOf (inRange : page < swapspacePages) :
    pageBit (intOf page) = bitOf bitmapShift page := by
  unfold pageBit
  rw [BitVec.shiftLeft_eq', BitVec.toNat_and, toNat_intOf inRange]
  rfl

theorem word_lt (inRange : page < swapspacePages) : page >>> bitmapShift < bitmapIntSize := by
  unfold swapspacePages at inRange
  rw [bitmapShift, bitmapIntSize, Nat.shiftRight_eq_div_pow]
  omega

/-- A word of a page of the gigabyte is in the array. -/
theorem access_intOf (size : bitmap.size = bitmapIntSize) (inRange : page < swapspacePages) :
    access bitmap (wordIndex (intOf page)) = some (words bitmap (page >>> bitmapShift)) := by
  have inside : page >>> bitmapShift < bitmap.size := by
    rw [size]
    exact word_lt inRange
  rw [wordIndex_intOf inRange, access, if_pos (Int.natCast_nonneg _), Int.toNat_natCast, words,
    Array.getD_eq_getD_getElem?, Array.getElem?_eq_getElem inside]
  rfl

theorem getD_setIfInBounds (k : Nat) (inside : k < bitmap.size) (word : CInt) (other : Nat) :
    (bitmap.setIfInBounds k word).getD other 0#32 =
      Function.update (fun at_ => bitmap.getD at_ 0#32) k word other := by
  rw [Array.getD_eq_getD_getElem?, Array.getElem?_setIfInBounds]
  rcases eq_or_ne k other with rfl | different
  · rw [if_pos rfl, if_pos inside, Function.update_self]
    rfl
  · rw [if_neg different, Function.update_of_ne different.symm, Array.getD_eq_getD_getElem?]

theorem words_setIfInBounds (k : Nat) (inside : k < bitmap.size) (word : CInt) :
    words (bitmap.setIfInBounds k word) = Function.update (words bitmap) k word :=
  funext (getD_setIfInBounds k inside word)

/-- `next` is a whole bitmap with these words. -/
structure Becomes (next : Array CInt) (content : BitmapWords) : Prop where
  size : next.size = bitmapIntSize
  words : BlockBitmap.words next = content

theorem test_ok (size : bitmap.size = bitmapIntSize) (inRange : page < swapspacePages) :
    valetBitmapTest bitmap (intOf page) = some (testBit (words bitmap) page) := by
  unfold valetBitmapTest
  rw [access_intOf size inRange, pageBit_intOf inRange]
  rfl

theorem set_ok (size : bitmap.size = bitmapIntSize) (inRange : page < swapspacePages) :
    ∃ next, valetBitmapSet bitmap (intOf page) = some next ∧
      Becomes next (setBit (words bitmap) page) := by
  unfold valetBitmapSet
  rw [access_intOf size inRange, pageBit_intOf inRange, wordIndex_intOf inRange, Int.toNat_natCast]
  refine ⟨_, rfl, (Array.size_setIfInBounds ..).trans size, ?_⟩
  exact words_setIfInBounds _ (by rw [size]; exact word_lt inRange) _

theorem clear_ok (size : bitmap.size = bitmapIntSize) (inRange : page < swapspacePages) :
    ∃ next, valetBitmapClear bitmap (intOf page) = some next ∧
      Becomes next (clearBit (words bitmap) page) := by
  unfold valetBitmapClear
  rw [access_intOf size inRange, pageBit_intOf inRange, wordIndex_intOf inRange, Int.toNat_natCast]
  refine ⟨_, rfl, (Array.size_setIfInBounds ..).trans size, ?_⟩
  exact words_setIfInBounds _ (by rw [size]; exact word_lt inRange) _

theorem init_ok (size : bitmap.size = bitmapIntSize) :
    ∃ next, valetBitmapInit bitmap = some next ∧ Becomes next fun _ => 0#_ := by
  have whole : oneGb / (4096 * 8) = 4 * bitmapIntSize := rfl
  unfold valetBitmapInit zeroBytes
  rw [whole, size, if_pos (Nat.le_refl _), Nat.mul_div_cancel_left _ (Nat.zero_lt_succ 3)]
  refine ⟨_, rfl, Array.size_mapIdx.trans size, funext fun k => ?_⟩
  have zero : (bitmap.mapIdx fun k word => if k < bitmapIntSize then 0#32 else word).getD k 0#32 =
      0#32 := by
    rw [Array.getD_eq_getD_getElem?, Array.getElem?_mapIdx]
    cases inside : bitmap[k]? with
    | none => rfl
    | some word =>
        have small : k < bitmapIntSize := by
          rw [← size]
          exact (Array.getElem?_eq_some_iff.mp inside).1
        simp [small]
  exact zero

/-- The pages of a loop are visited one after the other. -/
theorem eachPage_ok {visit : Array CInt → CInt → Option (Array CInt)}
    {act : BitmapWords → Nat → BitmapWords} {acts : BitmapWords → Nat → Nat → BitmapWords}
    (visits : ∀ {bitmap : Array CInt} {page : Nat}, bitmap.size = bitmapIntSize →
      page < swapspacePages → ∃ next, visit bitmap (intOf page) = some next ∧
        Becomes next (act (words bitmap) page))
    (none : ∀ content start, acts content start 0 = content)
    (more : ∀ content start count, acts content start (count + 1) =
      acts (act content start) (start + 1) count)
    {count : Nat} (size : bitmap.size = bitmapIntSize) (fits : page + count ≤ swapspacePages) :
    ∃ next, eachPage visit (intOf page) count bitmap = some next ∧
      Becomes next (acts (words bitmap) page count) := by
  induction count generalizing bitmap page with
  | zero => exact ⟨bitmap, rfl, size, (none _ _).symm⟩
  | succ count ih =>
      obtain ⟨middle, visited, kept, content⟩ := visits size (by omega : page < swapspacePages)
      obtain ⟨next, rest, becomes⟩ := ih kept (by omega : page + 1 + count ≤ swapspacePages)
      refine ⟨next, ?_, ?_⟩
      · have later : intOf page + 1#32 = intOf (page + 1) := BitVec.ofNat_add_ofNat ..
        rw [eachPage, visited, later]
        exact rest
      · rw [more, ← content]
        exact becomes

/-- The pages of a range, for the loop and for the set. -/
structure PageRange (offset len : Nat) : Prop where
  turns : (intOf (len / valetPageSize)).toInt.toNat = len / valetPageSize
  fits : offset / valetPageSize + len / valetPageSize ≤ swapspacePages
  pages : ∀ page, page ∈ BitmapOp.rangePages offset len ↔ offset / valetPageSize ≤ page ∧
    page < offset / valetPageSize + len / valetPageSize

theorem pageRange {offset len : Nat} (start : valetPageSize ∣ offset) (whole : valetPageSize ∣ len)
    (inside : offset + len ≤ oneGb) : PageRange offset len := by
  obtain ⟨first, rfl⟩ := start
  obtain ⟨count, rfl⟩ := whole
  have positive : 0 < valetPageSize := Nat.zero_lt_succ 4095
  have gigabyte : oneGb = valetPageSize * swapspacePages := rfl
  rw [gigabyte, ← Nat.mul_add] at inside
  have fits : first + count ≤ swapspacePages := Nat.le_of_mul_le_mul_left inside positive
  have small : 2 * (intOf count).toNat < 2 ^ 32 := by
    unfold swapspacePages at fits
    rw [intOf, BitVec.toNat_ofNat]
    omega
  refine ⟨?_, ?_, fun page => ?_⟩
  · rw [Nat.mul_div_cancel_left _ positive, BitVec.toInt_eq_toNat_of_lt small, Int.toNat_natCast,
      intOf, BitVec.toNat_ofNat]
    unfold swapspacePages at fits
    omega
  · rw [Nat.mul_div_cancel_left _ positive, Nat.mul_div_cancel_left _ positive]
    exact fits
  · rw [Nat.mul_div_cancel_left _ positive, Nat.mul_div_cancel_left _ positive]
    show _ * _ ≤ page * _ ∧ page * _ < _ * _ + _ * _ ↔ _
    rw [← Nat.mul_add, Nat.mul_comm page, Nat.mul_le_mul_left_iff positive,
      Nat.mul_lt_mul_left positive]

theorem groupSet_ok {offset len : Nat} (size : bitmap.size = bitmapIntSize)
    (range : PageRange offset len) : ∃ next, valetBitmapGroupSet bitmap offset len = some next ∧
      Becomes next (Bd.valetBitmapGroupSet (words bitmap) offset len) := by
  unfold valetBitmapGroupSet groupPages
  rw [range.turns]
  exact eachPage_ok set_ok (fun _ _ => rfl) (fun _ _ _ => rfl) size range.fits

theorem groupClear_ok {offset len : Nat} (size : bitmap.size = bitmapIntSize)
    (range : PageRange offset len) : ∃ next, valetBitmapGroupClear bitmap offset len = some next ∧
      Becomes next (clearBits (words bitmap) (offset / valetPageSize) (len / valetPageSize)) := by
  unfold valetBitmapGroupClear groupPages
  rw [range.turns]
  exact eachPage_ok clear_ok (fun _ _ => rfl) (fun _ _ _ => rfl) size range.fits

/-! ## The set of pages -/

variable {set : Set Nat}

theorem Represents.mem_iff (represents : Represents bitmap set) (inRange : page < swapspacePages) :
    testBit (words bitmap) page = true ↔ page ∈ set := by
  obtain ⟨bit, answer, right⟩ := represents.answers page inRange
  rw [test_ok represents.size inRange] at answer
  cases answer
  exact right

theorem represents_pages (size : bitmap.size = bitmapIntSize) : Represents bitmap (pages bitmap) := by
  refine ⟨size, fun page inRange => ⟨_, test_ok size inRange, ?_⟩⟩
  show _ ↔ valetBitmapTest bitmap (intOf page) = some true
  rw [test_ok size inRange, Option.some.injEq]

/-- A bitmap is told by its words. -/
theorem Becomes.represents {content : BitmapWords} (becomes : Becomes next content)
    (right : ∀ page < swapspacePages, testBit content page = true ↔ page ∈ set) :
    Represents next set := by
  refine ⟨becomes.size, fun page inRange => ⟨_, test_ok becomes.size inRange, ?_⟩⟩
  rw [becomes.words]
  exact right page inRange

/-- What a call does to the bitmap and to the set. -/
theorem Represents.after {op : BitmapOp} (represents : Represents bitmap set)
    (inRange : op.InRange) :
    ∃ next, step bitmap op = some next ∧ Represents next (op.onSet set) := by
  have size := represents.size
  cases op with
  | init =>
      obtain ⟨next, ran, becomes⟩ := init_ok size
      refine ⟨next, ran, becomes.represents fun page _ => ?_⟩
      rw [testBit_eq]
      simp [BitmapOp.onSet]
  | set added =>
      obtain ⟨next, ran, becomes⟩ := set_ok size inRange
      refine ⟨next, ran, becomes.represents fun page small => ?_⟩
      rw [testBit_setBit, Bool.or_eq_true, decide_eq_true_eq, represents.mem_iff small]
      exact Set.mem_insert_iff.symm
  | clear removed =>
      obtain ⟨next, ran, becomes⟩ := clear_ok size inRange
      refine ⟨next, ran, becomes.represents fun page small => ?_⟩
      rw [testBit_clearBit, Bool.and_eq_true, Bool.not_eq_true', decide_eq_false_iff_not,
        represents.mem_iff small, and_comm]
      exact Iff.rfl
  | groupSet offset len =>
      have range := pageRange inRange.1 inRange.2.1 inRange.2.2
      obtain ⟨next, ran, becomes⟩ := groupSet_ok size range
      refine ⟨next, ran, becomes.represents fun page small => ?_⟩
      rw [Bd.valetBitmapGroupSet, testBit_setBits, Bool.or_eq_true, decide_eq_true_eq,
        represents.mem_iff small, ← range.pages, or_comm]
      exact Iff.rfl
  | groupClear offset len =>
      have range := pageRange inRange.1 inRange.2.1 inRange.2.2
      obtain ⟨next, ran, becomes⟩ := groupClear_ok size range
      refine ⟨next, ran, becomes.represents fun page small => ?_⟩
      rw [testBit_clearBits, Bool.and_eq_true, Bool.not_eq_true', decide_eq_false_iff_not,
        represents.mem_iff small, ← range.pages, and_comm]
      exact Iff.rfl

/-- What the calls of a sequence do. -/
theorem Represents.run {ops : List BitmapOp} (represents : Represents bitmap set)
    (inRange : ∀ op ∈ ops, op.InRange) :
    ∃ last, exec step bitmap ops = some last ∧ Represents last (ops.foldl BitmapOp.onSet set) := by
  induction ops generalizing bitmap set with
  | nil => exact ⟨bitmap, rfl, represents⟩
  | cons op rest ih =>
      obtain ⟨middle, edge, kept⟩ := represents.after (inRange op List.mem_cons_self)
      obtain ⟨last, ran, done⟩ := ih kept fun other member =>
        inRange other (List.mem_cons_of_mem op member)
      refine ⟨last, ?_, done⟩
      rw [Library.exec, edge]
      exact ran

/-- Whatever the bitmap holds at first, no call of a sequence leaves the array, and a test finds the
pages of the set that the calls make of those that it found at first. -/
theorem bitmap_refines_set {ops : List BitmapOp} (size : bitmap.size = bitmapIntSize)
    (inRange : ∀ op ∈ ops, op.InRange) :
    ∃ last, exec step bitmap ops = some last ∧
      Represents last (ops.foldl BitmapOp.onSet (pages bitmap)) :=
  (represents_pages size).run inRange

/-- All of the gigabyte is set, and the page of the sign bit of the first word cleared. -/
def signCleared : List BitmapOp := [.init, .groupSet 0 oneGb, .clear 31]

theorem bitmap_refines_set_sign : ∃ last,
    exec step (Array.replicate bitmapIntSize 1#32) signCleared = some last ∧
      valetBitmapTest last (intOf 31) = some false ∧
      valetBitmapTest last (intOf 262143) = some true := by
  have size : (Array.replicate bitmapIntSize 1#32).size = bitmapIntSize := Array.size_replicate
  have inRange : ∀ op ∈ signCleared, op.InRange := by
    intro op member
    simp only [signCleared, List.mem_cons, List.not_mem_nil, or_false] at member
    rcases member with rfl | rfl | rfl
    · trivial
    · exact ⟨Nat.dvd_zero _, ⟨swapspacePages, rfl⟩, Nat.le_refl _⟩
    · exact (by decide : 31 < swapspacePages)
  obtain ⟨last, ran, represents⟩ := bitmap_refines_set size inRange
  obtain ⟨first, sign, out⟩ := represents.answers 31 (by decide)
  obtain ⟨second, final, inside⟩ := represents.answers 262143 (by decide)
  have cleared : first = false := by
    rw [Bool.eq_false_iff]
    exact fun set => (out.mp set).2 rfl
  have set : second = true :=
    inside.mpr ⟨Or.inr ⟨Nat.zero_le _, by decide⟩, by simp⟩
  rw [cleared] at sign
  rw [set] at final
  exact ⟨last, ran, sign, final⟩

end BlockBitmap

end Valet.Bd
