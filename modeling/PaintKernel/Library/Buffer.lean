import Mathlib

set_option autoImplicit false

/-! Arrays that are written element by element. -/

namespace Buffer

variable {α σ : Type}

abbrev Filled (α : Type) := List (Option α)

def unfilled (size : Nat) : Filled α := List.replicate size none

def store (arr : List α) (i : Nat) (a : α) : Option (List α) :=
  if i < arr.length then some (arr.set i a) else none

def put (arr : Filled α) (i : Nat) (a : α) : Option (Filled α) := store arr i (some a)

/-- Reading is undefined outside the array and where nothing was stored. -/
def fetch (arr : Filled α) (i : Nat) : Option α := arr[i]?.join

theorem store_some {arr : List α} {i : Nat} (inside : i < arr.length) (a : α) :
    store arr i a = some (arr.take i ++ a :: arr.drop (i + 1)) := by
  rw [store, if_pos inside, List.set_eq_take_append_cons_drop, if_pos inside]

theorem store_append (front back : List α) (old a : α) :
    store (front ++ old :: back) front.length a = some (front ++ a :: back) := by
  have inside : front.length < (front ++ old :: back).length := by simp
  rw [store, if_pos inside, List.set_append_right _ _ (Nat.le_refl _), Nat.sub_self,
    List.set_cons_zero]

theorem fetch_append (front back : Filled α) (a : α) :
    fetch (front ++ some a :: back) front.length = some a := by
  rw [fetch, List.getElem?_append_right (Nat.le_refl _), Nat.sub_self, List.getElem?_cons_zero,
    Option.join_some]

theorem fetch_outside {arr : Filled α} {i : Nat} (outside : arr.length ≤ i) :
    fetch arr i = none := by
  rw [fetch, List.getElem?_eq_none outside, Option.join_none]

end Buffer
