import Mathlib

set_option autoImplicit false

/-! A queue kept in a circular array. -/

namespace RingBuffer

variable {α : Type}

/-- From slot `start` on, wrapping after `size` slots, the array holds these elements. -/
def Holds (size : Nat) (cells : Nat → α) (start : Nat) (xs : List α) : Prop :=
  ∀ i (bound : i < xs.length), cells ((start + i) % size) = xs.get ⟨i, bound⟩

variable {size start : Nat} {cells : Nat → α} {x : α} {xs : List α}

theorem holds_nil : Holds size cells start [] := by
  intro i bound
  simp at bound

theorem slot_ne {i j : Nat} (inside : i < size) (outside : j < size) (different : i ≠ j) :
    (start + i) % size ≠ (start + j) % size := by
  intro same
  have cancelled : i ≡ j [MOD size] := Nat.ModEq.add_left_cancel' start same
  exact different (Nat.ModEq.eq_of_lt_of_lt cancelled inside outside)

theorem holds_push (holds : Holds size cells start xs) (room : xs.length < size) :
    Holds size (Function.update cells ((start + xs.length) % size) x) start (xs ++ [x]) := by
  intro i bound
  rw [List.length_append, List.length_singleton] at bound
  rcases Nat.lt_succ_iff_lt_or_eq.mp bound with old | rfl
  · rw [Function.update_of_ne (slot_ne (by omega) room (by omega)), holds i old]
    simp [List.getElem_append_left old]
  · simp

theorem holds_first (holds : Holds size cells start (x :: xs)) (inside : start < size) :
    cells start = x := by
  have first := holds 0 (by simp)
  rwa [Nat.add_zero, Nat.mod_eq_of_lt inside] at first

theorem holds_pop (holds : Holds size cells start (x :: xs)) :
    Holds size cells ((start + 1) % size) xs := by
  intro i bound
  have next := holds (i + 1) (by simpa using bound)
  calc
    cells (((start + 1) % size + i) % size) = cells ((start + (i + 1)) % size) := by
      rw [Nat.mod_add_mod, Nat.add_assoc, Nat.add_comm 1 i]
    _ = xs.get ⟨i, bound⟩ := by
      rw [next]
      simp

theorem holds_dropLast (holds : Holds size cells start xs) :
    Holds size cells start xs.dropLast := by
  intro i bound
  rw [List.length_dropLast] at bound
  rw [holds i (by omega)]
  simp [List.getElem_dropLast]

end RingBuffer
