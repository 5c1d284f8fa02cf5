import Mathlib

set_option autoImplicit false

/-! Numerals as lists of digits, the most significant digit first. -/

namespace Numerals

variable {base : Nat}

def value (base : Nat) (ds : List Nat) : Nat := Nat.ofDigits base ds.reverse

def digits (base n : Nat) : List Nat := if n = 0 then [0] else (Nat.digits base n).reverse

/-- The digits denote the number and the first one is a zero only if it stands alone. -/
structure Canonical (base n : Nat) (ds : List Nat) : Prop where
  nonempty : ds ≠ []
  digit : ∀ d ∈ ds, d < base
  denotes : value base ds = n
  leading : ds.head? = some 0 → ds = [0]

section Value

theorem value_append (front back : List Nat) :
    value base (front ++ back) = value base front * base ^ back.length + value base back := by
  rw [value, List.reverse_append, Nat.ofDigits_append, List.length_reverse, value, value]
  ring

theorem value_cons (d : Nat) (ds : List Nat) :
    value base (d :: ds) = d * base ^ ds.length + value base ds := by
  rw [← List.singleton_append, value_append]
  simp [value]

theorem foldl_value (ds : List Nat) (n : Nat) :
    ds.foldl (fun n d => n * base + d) n = n * base ^ ds.length + value base ds := by
  induction ds generalizing n with
  | nil => simp [value]
  | cons d rest ih =>
      rw [List.foldl_cons, ih, value_cons, List.length_cons, pow_succ]
      ring

theorem le_foldl (positive : 0 < base) (ds : List Nat) (n : Nat) :
    n ≤ ds.foldl (fun n d => n * base + d) n := by
  rw [foldl_value]
  calc n ≤ n * base ^ ds.length := Nat.le_mul_of_pos_right n (Nat.pow_pos positive)
    _ ≤ n * base ^ ds.length + value base ds := Nat.le_add_right _ _

theorem value_map_le {f : Nat → Nat} (smaller : ∀ d, f d ≤ d) (ds : List Nat) :
    value base (ds.map f) ≤ value base ds := by
  induction ds with
  | nil => exact Nat.le_refl _
  | cons d rest ih =>
      rw [List.map_cons, value_cons, value_cons, List.length_map]
      exact Nat.add_le_add (Nat.mul_le_mul_right _ (smaller d)) ih

theorem value_map_eq_iff {f : Nat → Nat} (positive : 0 < base) (smaller : ∀ d, f d ≤ d)
    (ds : List Nat) :
    value base (ds.map f) = value base ds ↔ ∀ d ∈ ds, f d = d := by
  induction ds with
  | nil => simp
  | cons d rest ih =>
      have head : f d * base ^ rest.length ≤ d * base ^ rest.length :=
        Nat.mul_le_mul_right _ (smaller d)
      have tail : value base (rest.map f) ≤ value base rest := value_map_le smaller rest
      rw [List.forall_mem_cons, ← ih, List.map_cons, value_cons, value_cons, List.length_map]
      constructor
      · intro same
        have first : f d * base ^ rest.length = d * base ^ rest.length := by omega
        exact ⟨Nat.eq_of_mul_eq_mul_right (Nat.pow_pos positive) first, by omega⟩
      · intro same
        rw [same.1, same.2]

theorem value_zeros (k : Nat) (ds : List Nat) :
    value base (List.replicate k 0 ++ ds) = value base ds := by
  rw [value, List.reverse_append, List.reverse_replicate, Nat.ofDigits_append_replicate_zero, value]

theorem value_injective {ds es : List Nat} (proper : 1 < base) (left : ∀ d ∈ ds, d < base)
    (right : ∀ d ∈ es, d < base) (length : ds.length = es.length)
    (same : value base ds = value base es) : ds = es := by
  have reversed : ds.reverse = es.reverse :=
    Nat.ofDigits_inj_of_len_eq proper (by simpa using length)
    (by simpa using left) (by simpa using right) same
  exact List.reverse_injective reversed

end Value

section Fixed

def lastDigits (base width n : Nat) : List Nat :=
  ((List.range width).map fun k => n / base ^ k % base).reverse

theorem lastDigits_length (base width n : Nat) : (lastDigits base width n).length = width := by
  simp [lastDigits]

theorem lastDigits_map {α : Type} (f : Nat → α) (base width n : Nat) :
    (lastDigits base (width + 1) n).map f = (List.range (width + 1)).map fun j =>
      f (n / base ^ (width - j) % base) := by
  apply List.ext_getElem
  · rw [List.length_map, List.length_map, lastDigits_length, List.length_range]
  · intro j _ _
    simp [lastDigits]

theorem lastDigits_lt (positive : 0 < base) (width n : Nat) :
    ∀ d ∈ lastDigits base width n, d < base := by
  intro d member
  obtain ⟨k, _, rfl⟩ := List.mem_map.mp (List.mem_reverse.mp member)
  exact Nat.mod_lt _ positive

theorem value_lastDigits (base width n : Nat) :
    value base (lastDigits base width n) = n % base ^ width := by
  rw [value, lastDigits, List.reverse_reverse]
  induction width with
  | zero => simp [Nat.mod_one]
  | succ width ih =>
      rw [List.range_succ, List.map_append, List.map_singleton, Nat.ofDigits_append, ih,
        List.length_map, List.length_range, Nat.ofDigits_singleton, Nat.mod_pow_succ]

end Fixed

section Digits

theorem value_digits (base n : Nat) : value base (digits base n) = n := by
  rw [value, digits]
  split_ifs with zero
  · simp [zero]
  · rw [List.reverse_reverse, Nat.ofDigits_digits]

theorem digits_eq (proper : 1 < base) (n : Nat) :
    digits base n = (if n < base then [] else digits base (n / base)) ++ [n % base] := by
  by_cases zero : n = 0
  · rw [digits, if_pos zero, if_pos (by omega), zero, Nat.zero_mod, List.nil_append]
  · rw [digits, if_neg zero, Nat.digits_def' proper (Nat.pos_of_ne_zero zero), List.reverse_cons]
    by_cases small : n < base
    · rw [if_pos small, Nat.div_eq_of_lt small, Nat.digits_zero, List.reverse_nil]
    · have more : n / base ≠ 0 := (Nat.div_pos (by omega) (by omega)).ne'
      rw [if_neg small, digits, if_neg more]

theorem digits_of_lt (proper : 1 < base) {n : Nat} (small : n < base) : digits base n = [n] := by
  rw [digits_eq proper, if_pos small, Nat.mod_eq_of_lt small, List.nil_append]

theorem digits_of_le (proper : 1 < base) {n : Nat} (large : base ≤ n) :
    digits base n = digits base (n / base) ++ [n % base] := by
  rw [digits_eq proper, if_neg (by omega)]

theorem digits_ne_nil (base n : Nat) : digits base n ≠ [] := by
  rw [digits]
  split_ifs with zero
  · exact List.cons_ne_nil _ _
  · rw [ne_eq, List.reverse_eq_nil_iff, Nat.digits_eq_nil_iff_eq_zero]
    exact zero

theorem digit_lt (proper : 1 < base) (n : Nat) : ∀ d ∈ digits base n, d < base := by
  intro d member
  rw [digits] at member
  split_ifs at member with zero
  · have none' : d = 0 := by simpa using member
    omega
  · exact Nat.digits_lt_base proper (List.mem_reverse.mp member)

theorem digits_length_le (proper : 1 < base) (n : Nat) {k : Nat} (positive : 0 < k) :
    (digits base n).length ≤ k ↔ n < base ^ k := by
  rw [digits]
  split_ifs with zero
  · rw [zero]
    exact iff_of_true positive (Nat.pow_pos (by omega))
  · rw [List.length_reverse, Nat.digits_length_le_iff proper]

theorem digits_canonical (proper : 1 < base) (n : Nat) : Canonical base n (digits base n) where
  nonempty := digits_ne_nil base n
  digit := digit_lt proper n
  denotes := value_digits base n
  leading := by
    intro first
    rw [digits] at first ⊢
    split_ifs at first ⊢ with zero
    · rfl
    · have some' : Nat.digits base n ≠ [] := Nat.digits_ne_nil_iff_ne_zero.mpr zero
      have last := Nat.getLast_digit_ne_zero base zero
      rw [List.head?_reverse, List.getLast?_eq_some_getLast some'] at first
      exact absurd (Option.some.inj first) last

theorem lastDigits_eq (proper : 1 < base) (n : Nat) {width : Nat}
    (room : (digits base n).length ≤ width) :
    lastDigits base width n = List.replicate (width - (digits base n).length) 0 ++
      digits base n := by
  have positive : 0 < width := (List.length_pos_of_ne_nil (digits_ne_nil base n)).trans_le room
  have small := (digits_length_le proper n positive).mp room
  apply value_injective proper (lastDigits_lt (by omega) width n)
  · intro d member
    rcases List.mem_append.mp member with zero | digit
    · rw [List.eq_of_mem_replicate zero]
      omega
    · exact digit_lt proper n d digit
  · rw [lastDigits_length, List.length_append, List.length_replicate]
    omega
  · rw [value_lastDigits, value_zeros, value_digits, Nat.mod_eq_of_lt small]

theorem Canonical.unique (proper : 1 < base) {n : Nat} {ds : List Nat}
    (canonical : Canonical base n ds) :
    ds = digits base n := by
  have denotes : Nat.ofDigits base ds.reverse = n := canonical.denotes
  by_cases zero : ds.head? = some 0
  · have alone := canonical.leading zero
    rw [alone] at denotes
    rw [alone, digits, if_pos (by simpa using denotes.symm)]
  · have first : ∀ some' : ds.reverse ≠ [], ds.reverse.getLast some' ≠ 0 := by
      intro some' last
      apply zero
      rw [← List.getLast?_reverse, List.getLast?_eq_some_getLast some', last]
    have back := Nat.digits_ofDigits base proper ds.reverse (by simpa using canonical.digit) first
    rw [denotes] at back
    have positive : n ≠ 0 := by
      intro none'
      rw [none', Nat.digits_zero] at back
      exact canonical.nonempty (List.reverse_eq_nil_iff.mp back.symm)
    rw [digits, if_neg positive, back, List.reverse_reverse]

theorem canonical_iff (proper : 1 < base) {n : Nat} (ds : List Nat) :
    Canonical base n ds ↔ ds = digits base n := by
  constructor
  · exact Canonical.unique proper
  · rintro rfl
    exact digits_canonical proper n

end Digits

end Numerals
