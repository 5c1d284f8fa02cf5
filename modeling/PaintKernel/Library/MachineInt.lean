import Mathlib

set_option autoImplicit false

/-! Arithmetic on C's `int`. -/

namespace MachineInt

/-- The result of arithmetic on `int`; an overflow is undefined. -/
def int32 (n : Int) : Option Int := if -2 ^ 31 ≤ n ∧ n < 2 ^ 31 then some n else none

theorem int32_some {n : Int} (low : -2 ^ 31 ≤ n) (high : n < 2 ^ 31) : int32 n = some n :=
  if_pos ⟨low, high⟩

theorem int32_natCast (n : Nat) : int32 n = if n < 2 ^ 31 then some (n : Int) else none := by
  unfold int32
  split_ifs <;> first | rfl | omega

theorem int32_succ (i : Nat) :
    int32 ((i : Int) + 1) = if i + 1 < 2 ^ 31 then some ((i : Int) + 1) else none :=
  int32_natCast (i + 1)

theorem int32_bind {α : Type} (n : Nat) (next : Int → Option α) :
    (int32 n).bind next = if n < 2 ^ 31 then next n else none := by
  rw [int32_natCast]
  split_ifs <;> rfl

end MachineInt
