import Mathlib.Algebra.GroupWithZero.Nat

/-!
# Sizes that are not zero

Tables have one entry more than some number, or a few entries.  The places of
such a table are written as numerals, and these instances say that there are any.
-/

namespace Valet.Library

instance (priority := 2000) neZero_succ (size : Nat) : NeZero (size + 1) :=
  ⟨Nat.succ_ne_zero size⟩

instance (priority := 2000) neZero_one : NeZero (0 + 1) := ⟨Nat.succ_ne_zero 0⟩

instance (priority := 2000) neZero_two : NeZero (1 + 1) := ⟨Nat.succ_ne_zero 1⟩

instance (priority := 2000) neZero_three : NeZero (2 + 1) := ⟨Nat.succ_ne_zero 2⟩

end Valet.Library
