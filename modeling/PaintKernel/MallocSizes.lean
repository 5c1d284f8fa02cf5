import Mathlib
import PaintKernel.UserHeap

set_option autoImplicit false

/-! Single calls of `malloc`, for every size and from every state of its globals. -/

namespace PaintKernel

namespace Heap

/-- The region that `malloc` takes bytes from and the value of `space_remaining` at that point,
unless `mmap` has returned `NULL` before. -/
def refill (mmap : Nat → Option Extent) (sz : Nat) (h : Heap) (region : Extent) :
    Option (Extent × Nat) :=
  if h.spaceRemaining < roundUp sz 16 then
    (mmap (roundUp (roundUp sz 16) 4096)).map fun e => (e, roundUp (roundUp sz 16) 4096)
  else some (region, h.spaceRemaining)

def pointer (mmap : Nat → Option Extent) (n : Nat) : Nat := ((mmap n).map Extent.start).getD 0

structure Serves (mmap : Nat → Option Extent) (sz : Nat) (h : Heap) (region : Extent) : Prop where
  block : (malloc (pointer mmap) sz h).1 = 0 ∨ ∃ r space, h.refill mmap sz region =
    some (r, space) ∧
    (⟨(malloc (pointer mmap) sz h).1, sz⟩ : Extent).addresses ⊆ r.addresses
  space : ∀ r space, h.refill mmap sz region = some (r, space) → roundUp sz 16 ≤ space

structure Unused (h : Heap) (region : Extent) : Prop where
  low : region.start ≤ h.bump
  high : h.bump + h.spaceRemaining ≤ region.start + region.size

structure Answers (mmap : Nat → Option Extent) : Prop where
  enough : ∀ n e, mmap n = some e → n ≤ e.size
  nonnull : ∀ n e, mmap n = some e → e.start ≠ 0

/-- Neither of the two roundings wraps, or it does no harm. -/
structure Roundable (mmap : Nat → Option Extent) (sz : Nat) (h : Heap)
    (region : Extent) : Prop where
  block : 2 ^ 64 - 16 < sz → h.bump = 0 ∨ h.bump + sz ≤ region.start + region.size
  pages : 2 ^ 64 - 4096 < sz → sz ≤ 2 ^ 64 - 16 → h.spaceRemaining < roundUp sz 16 → mmap 0 = none

section Calls

variable {mmap : Nat → Option Extent} {sz : Nat} {h : Heap} {region : Extent}

theorem malloc_reuse (mmap : Nat → Option Extent) (region : Extent)
    (room : roundUp sz 16 ≤ h.spaceRemaining) :
    (malloc (pointer mmap) sz h).1 = h.bump ∧ h.refill mmap sz region =
      some (region, h.spaceRemaining) := by
  have enough : ¬ h.spaceRemaining < roundUp sz 16 := by omega
  simp only [malloc, refill, if_neg enough, grab, and_self]

theorem malloc_null (region : Extent) (short : h.spaceRemaining < roundUp sz 16)
    (failed : mmap (roundUp (roundUp sz 16) 4096) = none) :
    (malloc (pointer mmap) sz h).1 = 0 ∧ h.refill mmap sz region = none := by
  simp [malloc, refill, pointer, short, failed]

theorem malloc_region (region : Extent) (answers : Answers mmap)
    (short : h.spaceRemaining < roundUp sz 16) {e : Extent}
    (answered : mmap (roundUp (roundUp sz 16) 4096) = some e) :
    (malloc (pointer mmap) sz h).1 = e.start ∧
      h.refill mmap sz region = some (e, roundUp (roundUp sz 16) 4096) := by
  have nonnull := answers.nonnull _ e answered
  simp [malloc, refill, pointer, short, answered, nonnull, grab]

theorem roundUp_wraps {x y : Nat} (divides : y ∣ 2 ^ 64) (bound : x < 2 ^ 64)
    (above : 2 ^ 64 < x + y) :
    roundUp x y = 0 := by
  rcases divides with ⟨q, whole⟩
  have quotient : x / y = q - 1 := by
    apply Nat.div_eq_of_lt_le
    · rw [Nat.sub_mul, Nat.mul_comm q y]
      omega
    · have positive : 0 < q := Nat.pos_of_ne_zero fun zero => by simp [zero] at whole
      rw [Nat.sub_add_cancel positive, Nat.mul_comm]
      omega
  have parts := Nat.div_add_mod x y
  rw [quotient, Nat.mul_sub, ← whole, Nat.mul_one] at parts
  have small : y ≤ 2 ^ 64 := Nat.le_of_dvd (by decide) ⟨q, whole⟩
  have overflow : x + (y - x % y) = 2 ^ 64 := by omega
  unfold roundUp
  rw [if_neg (by omega), overflow, Nat.mod_self]

theorem serves_wrapped (bound : sz < 2 ^ 64) (above : 2 ^ 64 - 16 < sz) (unused : h.Unused region) :
    h.Serves mmap sz region ↔ h.bump = 0 ∨ h.bump + sz ≤ region.start + region.size := by
  have zero : roundUp sz 16 = 0 := roundUp_wraps (by decide) bound (by omega)
  have room : roundUp sz 16 ≤ h.spaceRemaining := by omega
  rcases malloc_reuse mmap region room with ⟨result, refilled⟩
  have inside : (⟨h.bump, sz⟩ : Extent).addresses ⊆ region.addresses ↔
      h.bump + sz ≤ region.start + region.size := by
    have nonempty : h.bump < h.bump + sz := by omega
    rw [Extent.addresses, Extent.addresses, Set.Ico_subset_Ico_iff nonempty]
    exact and_iff_right unused.low
  constructor
  · intro serves
    rcases serves.block with null | ⟨r, space, same, block⟩
    · exact .inl (result ▸ null)
    · rw [refilled, Option.some.injEq, Prod.mk.injEq] at same
      rw [result, ← same.1] at block
      exact .inr (inside.mp block)
  · intro fits
    refine ⟨?_, fun r space _ => by omega⟩
    rw [result]
    exact fits.imp_right fun below => ⟨region, _, refilled, inside.mpr below⟩

theorem serves_reuse (small : sz ≤ 2 ^ 64 - 16) (room : roundUp sz 16 ≤ h.spaceRemaining)
    (unused : h.Unused region) : h.Serves mmap sz region := by
  have enough := (roundUp_next (x := sz) (y := 16) (by decide) (by omega)).1
  have low := unused.low
  have high := unused.high
  rcases malloc_reuse mmap region room with ⟨result, refilled⟩
  constructor
  · right
    have last : h.bump + sz ≤ region.start + region.size := by omega
    refine ⟨region, _, refilled, ?_⟩
    rw [result]
    exact Set.Ico_subset_Ico low last
  · intro r space same
    rw [refilled, Option.some.injEq, Prod.mk.injEq] at same
    omega

theorem serves_region (bound : sz < 2 ^ 64) (small : sz ≤ 2 ^ 64 - 16)
    (short : h.spaceRemaining < roundUp sz 16) (answers : Answers mmap) :
    h.Serves mmap sz region ↔ (2 ^ 64 - 4096 < sz → mmap 0 = none) := by
  rcases roundUp_next (x := sz) (y := 16) (by decide) (by omega) with ⟨enough, close, aligned⟩
  have pages : roundUp sz 16 ≤ roundUp (roundUp sz 16) 4096 ∧ sz ≤ 2 ^ 64 - 4096 ∨
      roundUp (roundUp sz 16) 4096 = 0 ∧ 2 ^ 64 - 4096 < sz := by
    by_cases large : 2 ^ 64 - 4096 < sz
    · exact .inr ⟨roundUp_wraps (by decide) (by omega) (by omega), large⟩
    · exact .inl ⟨(roundUp_next (x := roundUp sz 16) (y := 4096) (by decide)
        (by omega)).1, by omega⟩
  cases answered : mmap (roundUp (roundUp sz 16) 4096) with
  | none =>
      rcases malloc_null region short answered with ⟨result, refilled⟩
      refine iff_of_true ⟨.inl result, fun r space same => ?_⟩ fun large => ?_
      · rw [refilled] at same
        cases same
      · rcases pages with ⟨_, below⟩ | ⟨zero, _⟩
        · omega
        · rwa [zero] at answered
  | some e =>
      rcases malloc_region region answers short answered with ⟨result, refilled⟩
      have size := answers.enough _ e answered
      rcases pages with ⟨grown, below⟩ | ⟨zero, above⟩
      · refine iff_of_true ⟨.inr ⟨e, _, refilled, ?_⟩, fun r space same => ?_⟩ fun large => by omega
        · have last : e.start + sz ≤ e.start + e.size := by omega
          rw [result]
          exact Set.Ico_subset_Ico (le_refl _) last
        · rw [refilled, Option.some.injEq, Prod.mk.injEq] at same
          omega
      · refine iff_of_false (fun serves => ?_) fun refused => ?_
        · have space := serves.space _ _ refilled
          omega
        · have none := refused above
          rw [zero, none] at answered
          cases answered

/-- From every state and for every size, `malloc` serves the request or refuses it exactly when
the roundings do no harm. -/
theorem malloc_serves_iff (bound : sz < 2 ^ 64) (unused : h.Unused region)
    (answers : Answers mmap) :
    h.Serves mmap sz region ↔ h.Roundable mmap sz region := by
  by_cases large : 2 ^ 64 - 16 < sz
  · rw [serves_wrapped bound large unused]
    exact ⟨fun fits => ⟨fun _ => fits, fun _ small => by omega⟩, fun roundable =>
      roundable.block large⟩
  · by_cases short : h.spaceRemaining < roundUp sz 16
    · rw [serves_region bound (by omega) short answers]
      exact ⟨fun refused => ⟨fun above => absurd above large, fun above _ _ => refused above⟩,
        fun roundable above => roundable.pages above (by omega) short⟩
    · refine iff_of_true (serves_reuse (by omega) (by omega) unused) ⟨fun above =>
        absurd above large, ?_⟩
      exact fun _ _ short' => absurd short' short

end Calls

def firstMmap (n : Nat) : Option Extent :=
  if n < 2 ^ 30 then some ⟨0x60000000, (n / 4096 + 1) * 4096⟩ else none

theorem firstMmap_answers : Answers firstMmap where
  enough := by
    intro n e answered
    unfold firstMmap at answered
    split_ifs at answered
    rw [← Option.some.inj answered]
    show n ≤ (n / 4096 + 1) * 4096
    omega
  nonnull := by
    intro n e answered
    unfold firstMmap at answered
    split_ifs at answered
    rw [← Option.some.inj answered]
    exact Nat.succ_ne_zero _

theorem first_block_served : Serves firstMmap 100 ⟨0, 0⟩ ⟨0, 0⟩ :=
  (malloc_serves_iff (by decide) ⟨by decide, by decide⟩ firstMmap_answers).mpr
    ⟨fun above => absurd above (by decide), fun above => absurd above (by decide)⟩

/-- `malloc(SIZE_MAX)` returns the current `bump`, and `malloc(SIZE_MAX - 4000)` a new region of no
bytes. -/
theorem large_sizes_not_served :
    (malloc (pointer firstMmap) (2 ^ 64 - 1) ⟨0x60000010, 4080⟩).1 = 0x60000010 ∧
      ¬ Serves firstMmap (2 ^ 64 - 1) ⟨0x60000010, 4080⟩ ⟨0x60000000, 4096⟩ ∧
      malloc (pointer firstMmap) (2 ^ 64 - 4001) ⟨0, 0⟩ = (0x60000000, ⟨0x5FFFF060, 4000⟩) ∧
      ¬ Serves firstMmap (2 ^ 64 - 4001) ⟨0, 0⟩ ⟨0, 0⟩ := by
  refine ⟨by decide, fun serves => ?_, by decide, fun serves => ?_⟩
  · have fits := (serves_wrapped (by decide) (by decide) ⟨by decide, by decide⟩).mp serves
    revert fits
    decide
  · have refused := (serves_region (by decide) (by decide) (by decide) firstMmap_answers).mp
      serves (by decide)
    cases refused

end Heap

end PaintKernel
