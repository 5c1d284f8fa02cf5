import Mathlib
import PaintKernel.Library.ByteMemory

set_option autoImplicit false

/-! Copies byte by byte from the lowest address up, between ranges that may overlap. -/

namespace ForwardCopy

open ByteMemory

/-- The address whose first byte reaches index `i` of the destination. A destination that starts
inside the source gets the bytes in front of it over and over. -/
def source (dst src i : Nat) : Nat := if src < dst then src + i % (dst - src) else src + i

def copied (m : Mem) (dst src n : Nat) : Mem :=
  fun a => if dst ≤ a ∧ a < dst + n then m (source dst src (a - dst)) else m a

def written (m : Mem) (dst : Nat) (bytes : List UInt8) : Mem :=
  fun a => if dst ≤ a then bytes.getD (a - dst) (m a) else m a

variable {m : Mem} {dst src n i : Nat}

theorem source_of_lt (before : src < dst) : source dst src i = src + i % (dst - src) :=
  if_pos before

theorem source_of_apart (apart : ¬(src < dst ∧ dst ≤ src + i)) : source dst src i = src + i := by
  by_cases before : src < dst
  · rw [source_of_lt before, Nat.mod_eq_of_lt (by omega)]
  · exact if_neg before

@[simp] theorem copied_zero (m : Mem) (dst src : Nat) : copied m dst src 0 = m := by
  funext a
  exact if_neg (by omega)

theorem copied_inside (inside : i < n) : copied m dst src n (dst + i) = m (source dst src i) := by
  rw [copied, if_pos (by omega), Nat.add_sub_cancel_left]

/-- What the copy reads next is a byte it has not written, or one it has. -/
theorem copied_next : copied m dst src n (src + n) = m (source dst src n) := by
  by_cases before : src < dst
  · by_cases wrapped : dst ≤ src + n
    · have index : src + n - dst = n - (dst - src) := by omega
      have place : copied m dst src n (src + n) = m (source dst src (src + n - dst)) :=
        if_pos (by omega)
      rw [place, index, source_of_lt before, source_of_lt before,
        Nat.mod_eq_sub_mod (by omega : dst - src ≤ n)]
    · rw [source_of_apart (by omega)]
      exact if_neg (by omega)
  · rw [source_of_apart (by omega)]
    exact if_neg (by omega)

theorem copied_succ :
    copied m dst src (n + 1) = store (copied m dst src n) (dst + n) (m (source dst src n)) := by
  funext a
  by_cases last : a = dst + n
  · rw [last, store_here, copied_inside (Nat.lt_succ_self n)]
  · rw [store_elsewhere _ _ _ _ last]
    unfold copied
    split_ifs <;> first | rfl | omega

theorem copied_step :
    store (copied m dst src n) (dst + n) (copied m dst src n (src + n)) =
      copied m dst src (n + 1) := by
  rw [copied_next, copied_succ]

theorem foldl_copied :
    (List.range n).foldl (fun m i => store m (dst + i) (m (src + i))) m = copied m dst src n := by
  induction n with
  | zero => exact (copied_zero m dst src).symm
  | succ n ih =>
      rw [List.range_succ, List.foldl_append, ih]
      exact copied_step

/-- Every memory is copied as it was before exactly if the destination does not start inside the
source. -/
theorem copied_faithful_iff :
    (∀ (m : Mem) (i : Nat), i < n → copied m dst src n (dst + i) = m (src + i)) ↔
      ¬(src < dst ∧ dst < src + n) := by
  constructor
  · intro faithful inside
    have last : dst - src < n := by omega
    have moved := faithful (fun a => if a = dst then 1 else 0) (dst - src) last
    rw [copied_inside last, source_of_lt inside.1, Nat.mod_self] at moved
    simp only [Nat.add_zero, Nat.ne_of_lt inside.1, if_false,
      Nat.add_sub_of_le (Nat.le_of_lt inside.1), if_true] at moved
    exact absurd moved (by decide)
  · intro apart m i inside
    rw [copied_inside inside, source_of_apart (by omega)]

end ForwardCopy
