/-!
# Calls that do not return

A call of a C function is an attempt that yields a result or halts.
-/

namespace Valet.Library

/-- The ways in which a call does not return. -/
inductive Halt where
  /-- It repeats a failing attempt for ever. -/
  | spin
  /-- It dereferences `NULL`. -/
  | oops
  | bugOn
  | panic
  deriving DecidableEq, Repr

theorem bind_eq_ok {ε α β : Type} {attempt : Except ε α} {rest : α → Except ε β} {result : β} :
    (attempt >>= rest) = .ok result ↔ ∃ value, attempt = .ok value ∧ rest value = .ok result := by
  cases attempt with
  | error halt =>
      constructor
      · intro bad
        cases bad
      · rintro ⟨_, bad, _⟩
        cases bad
  | ok value =>
      constructor
      · intro ran
        exact ⟨value, rfl, ran⟩
      · rintro ⟨_, ⟨⟩, ran⟩
        exact ran

/-- A step is enabled where its attempt yields a state. -/
theorem toOption_eq_some {ε α : Type} {attempt : Except ε α} {result : α}
    (ran : attempt.toOption = some result) : attempt = .ok result := by
  cases attempt with
  | error halt => cases ran
  | ok value =>
      cases ran
      rfl

end Valet.Library
