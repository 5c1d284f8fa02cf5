import Mathlib
import PaintKernel.Printf
import PaintKernel.Library.Terminated

set_option autoImplicit false

/-! `strcmp` and `strncmp`, on what the two pointers lead to. -/

namespace PaintKernel

open MachineInt Terminated

def strcmp : List UInt8 → List UInt8 → Option Int
  | a :: s1, b :: s2 => if (a ≠ 0 ∧ b ≠ 0) ∧
      a = b then strcmp s1 s2 else some (charInt a - charInt b)
  | _, _ => none

def strncmpLoop : Nat → Nat → List UInt8 → List UInt8 → Option Int
  | 0, _, _, _ => some 0
  | left + 1, i, a :: s1, b :: s2 =>
      if a ≠ b then some (charInt a - charInt b)
      else do
        let _ ← int32 (i + 1)
        strncmpLoop left (i + 1) s1 s2
  | _, _, _, _ => none

def strncmp (s1 s2 : List UInt8) (n : Nat) : Option Int := strncmpLoop n 0 s1 s2

theorem charInt_injective : Function.Injective charInt := by
  intro a b same
  have sizeA := a.toNat_lt
  have sizeB := b.toNat_lt
  rw [charInt_eq, charInt_eq] at same
  apply UInt8.toNat_inj.mp
  split_ifs at same <;> omega

section Order

abbrev CString.DifferAt (s1 s2 : CString) (front : List UInt8) (a b : UInt8) : Prop :=
  Terminated.DifferAt 0 s1.bytes s2.bytes front a b

theorem strcmp_append {front : List UInt8} (inside : 0 ∉ front) {a b : UInt8} (last : a ≠ b ∨ a = 0)
    (rest rest' : List UInt8) :
    strcmp (front ++ a :: rest) (front ++ b :: rest') = some (charInt a - charInt b) := by
  induction front with
  | nil =>
      have stops : ¬((a ≠ 0 ∧ b ≠ 0) ∧ a = b) :=
        fun goes => last.elim (fun differ => differ goes.2) goes.1.1
      rw [List.nil_append, List.nil_append, strcmp, if_neg stops]
  | cons c front ih =>
      have nonzero : c ≠ 0 := (List.ne_of_not_mem_cons inside).symm
      rw [List.cons_append, List.cons_append, strcmp, if_pos ⟨⟨nonzero, nonzero⟩, rfl⟩,
        ih (List.not_mem_of_not_mem_cons inside)]

theorem strcmp_differ {s1 s2 : CString} {front : List UInt8} {a b : UInt8}
    (found : s1.DifferAt s2 front a b) :
    strcmp s1.buffer s2.buffer = some (charInt a - charInt b) := by
  obtain ⟨back, whole⟩ := found.left
  obtain ⟨back', whole'⟩ := found.right
  have inside : 0 ∉ front := fun member => s1.terminated (found.front_prefix.subset member)
  rw [CString.buffer, CString.buffer, ← whole, ← whole', List.append_assoc, List.append_assoc]
  exact strcmp_append inside (Or.inl found.differ) _ _

theorem strcmp_same (s : CString) : strcmp s.buffer s.buffer = some 0 := by
  have result := strcmp_append s.terminated (Or.inr rfl) (b := 0) [] []
  rwa [Int.sub_self] at result

/-- The order that `strcmp` has: signed, with the terminator between the two halves. -/
def CString.signed (s : CString) : List Int := s.buffer.map charInt

def CString.unsigned (s : CString) : List Nat := s.bytes.map UInt8.toNat

theorem CString.eq_of_bytes {s1 s2 : CString} (same : s1.bytes = s2.bytes) : s1 = s2 := by
  cases s1
  cases s2
  cases same
  rfl

theorem CString.DifferAt.signed_lt {s1 s2 : CString} {front : List UInt8} {a b : UInt8}
    (found : s1.DifferAt s2 front a b) : s1.signed < s2.signed ↔ charInt a < charInt b := by
  have order := (found.map charInt_injective).lt_iff
  rw [CString.signed, CString.signed, CString.buffer, CString.buffer, List.map_append,
    List.map_append]
  exact order

theorem CString.DifferAt.unsigned_lt {s1 s2 : CString} {front : List UInt8} {a b : UInt8}
    (found : s1.DifferAt s2 front a b) : s1.unsigned < s2.unsigned ↔ a.toNat < b.toNat := by
  have injective : Function.Injective UInt8.toNat := fun _ _ same => UInt8.toNat_inj.mp same
  have ends : ∀ s : CString, (0 : UInt8).toNat ∉ s.bytes.map UInt8.toNat := by
    intro s member
    obtain ⟨c, there, zero⟩ := List.mem_map.mp member
    exact s.terminated (injective zero ▸ there)
  have order := (found.map injective).lt_iff
  rwa [append_lt_append_iff (e := (0 : UInt8).toNat) Nat.zero_le (ends s1) (ends s2)] at order

/-- `strcmp` compares in the signed order. -/
theorem strcmp_signed (s1 s2 : CString) :
    ∃ r, strcmp s1.buffer s2.buffer = some r ∧ (r < 0 ↔ s1.signed < s2.signed) ∧ (r = 0 ↔ s1 = s2) ∧
      (0 < r ↔ s2.signed < s1.signed) := by
  rcases differAt_or_eq s1.terminated s2.terminated with same | ⟨front, a, b, found⟩
  · obtain rfl := CString.eq_of_bytes same
    refine ⟨0, strcmp_same s1, ?_, iff_of_true rfl rfl, ?_⟩
    · exact iff_of_false (Int.lt_irrefl 0) (lt_irrefl _)
    · exact iff_of_false (Int.lt_irrefl 0) (lt_irrefl _)
  · have different : s1 ≠ s2 := fun same => found.ne (congrArg CString.bytes same)
    have values : charInt a ≠ charInt b := charInt_injective.ne found.differ
    refine ⟨charInt a - charInt b, strcmp_differ found, ?_, ?_, ?_⟩
    · rw [CString.DifferAt.signed_lt found]
      omega
    · exact iff_of_false (by omega) different
    · rw [CString.DifferAt.signed_lt found.symm]
      omega

def ComparesUnsigned (s1 s2 : CString) : Prop :=
  ∃ r, strcmp s1.buffer s2.buffer = some r ∧ (r < 0 ↔ s1.unsigned < s2.unsigned) ∧
    (r = 0 ↔ s1 = s2) ∧
    (0 < r ↔ s2.unsigned < s1.unsigned)

/-- Where the strings differ, both have a byte below 128 or neither has; a terminator counts as 0.
-/
def CString.SameHalf (s1 s2 : CString) : Prop :=
  ∀ front a b, s1.DifferAt s2 front a b → (a.toNat < 128 ↔ b.toNat < 128)

def StrcmpLe (s1 s2 : CString) : Prop := ∃ r ≤ 0, strcmp s1.buffer s2.buffer = some r

theorem strcmpLe_iff (s1 s2 : CString) : StrcmpLe s1 s2 ↔ s1.signed ≤ s2.signed := by
  obtain ⟨r, result, _, _, greater⟩ := strcmp_signed s1 s2
  rw [← not_lt, ← greater, StrcmpLe, result]
  constructor
  · rintro ⟨r', below, same⟩
    cases same
    omega
  · intro below
    exact ⟨r, by omega, rfl⟩

theorem comparesUnsigned_iff (s1 s2 : CString) : ComparesUnsigned s1 s2 ↔ s1.SameHalf s2 := by
  obtain ⟨r, result, less, equal, greater⟩ := strcmp_signed s1 s2
  have halves : ∀ {front a b}, s1.DifferAt s2 front a b →
      (((charInt a < charInt b ↔ a.toNat < b.toNat) ∧ (charInt b < charInt a ↔ b.toNat < a.toNat)) ↔
        (a.toNat < 128 ↔ b.toNat < 128)) := by
    intro front a b found
    have sizeA := a.toNat_lt
    have sizeB := b.toNat_lt
    rw [charInt_eq, charInt_eq]
    split_ifs <;> omega
  constructor
  · rintro ⟨r', result', less', _, greater'⟩ front a b found
    obtain rfl : r' = r := Option.some.inj (result'.symm.trans result)
    rw [← halves found, ← CString.DifferAt.signed_lt found, ← CString.DifferAt.signed_lt found.symm,
      ← CString.DifferAt.unsigned_lt found, ← CString.DifferAt.unsigned_lt
        found.symm, ← less, ← greater]
    exact ⟨less', greater'⟩
  · intro same
    rcases differAt_or_eq s1.terminated s2.terminated with bytes | ⟨front, a, b, found⟩
    · obtain rfl := CString.eq_of_bytes bytes
      have zero : r = 0 := equal.mpr rfl
      exact ⟨r, result, iff_of_false (by omega) (lt_irrefl _), equal,
        iff_of_false (by omega) (lt_irrefl _)⟩
    · have bytes := (halves found).mpr (same front a b found)
      refine ⟨r, result, ?_, equal, ?_⟩
      · rw [less, CString.DifferAt.signed_lt found, CString.DifferAt.unsigned_lt found]
        exact bytes.1
      · rw [greater, CString.DifferAt.signed_lt found.symm, CString.DifferAt.unsigned_lt found.symm]
        exact bytes.2

theorem strcmp_neg (s1 s2 : CString) :
    strcmp s2.buffer s1.buffer = (strcmp s1.buffer s2.buffer).map fun r => -r := by
  rcases differAt_or_eq s1.terminated s2.terminated with same | ⟨front, a, b, found⟩
  · obtain rfl := CString.eq_of_bytes same
    rw [strcmp_same]
    rfl
  · rw [strcmp_differ found, strcmp_differ found.symm, Option.map_some, Int.neg_sub]

/-- The order is C's exactly for strings that differ within one half of the bytes; it is an order on
all strings. -/
theorem strcmp_order (s1 s2 : CString) :
    (ComparesUnsigned s1 s2 ↔ s1.SameHalf s2) ∧
      (strcmp s1.buffer s2.buffer = some 0 ↔ s1 = s2) ∧
      strcmp s2.buffer s1.buffer = (strcmp s1.buffer s2.buffer).map (fun r => -r) ∧
      IsTrans CString StrcmpLe := by
  refine ⟨comparesUnsigned_iff s1 s2, ?_, strcmp_neg s1 s2, ⟨fun s1 s2 s3 first second => ?_⟩⟩
  · obtain ⟨r, result, _, equal, _⟩ := strcmp_signed s1 s2
    rw [result, Option.some_inj, equal]
  · rw [strcmpLe_iff] at first second ⊢
    exact first.trans second

theorem strcmp_high_byte : ¬ComparesUnsigned ⟨[128], by decide⟩ ⟨[65], by decide⟩ := by
  rintro ⟨r, result, less, _, _⟩
  have value : strcmp [128, 0] [65, 0] = some (-193) := by decide
  obtain rfl : r = -193 := Option.some.inj (result.symm.trans value)
  have order : ([128] : List Nat) < [65] := less.mp (by decide)
  exact absurd order (by decide)

end Order

section Bounded

/-- `strncmp` reads the strings up to their terminators, at most `n` bytes; it tells whether they
are equal there, and with `n` beyond both terminators it has the sign of `strcmp`. -/
def StrncmpExact (s1 s2 : CString) (n : Nat) : Prop :=
  ∃ r, (∀ arr1 arr2, s1.buffer.take n <+: arr1 → s2.buffer.take n <+: arr2 →
    strncmp arr1 arr2 n = some r) ∧
    (r = 0 ↔ s1.bytes.take n = s2.bytes.take n) ∧
    (s1.bytes.length < n → s2.bytes.length < n → ∀ r', strcmp s1.buffer s2.buffer = some r' →
      r.sign = r'.sign)

theorem strncmpLoop_common (common : List UInt8) (left i : Nat) (s1 s2 : List UInt8) :
    strncmpLoop (common.length + left) i (common ++ s1) (common ++ s2) =
      if common = [] ∨ i + common.length < 2 ^ 31 then strncmpLoop left (i + common.length) s1 s2
        else none := by
  induction common generalizing i with
  | nil => simp
  | cons c rest ih =>
      have unfolded : strncmpLoop (rest.length + left + 1) i (c :: (rest ++ s1))
          (c :: (rest ++ s2)) =
          (int32 ((i : Int) + 1)).bind fun _ =>
            strncmpLoop (rest.length + left) (i + 1) (rest ++ s1) (rest ++ s2) := by
        rw [strncmpLoop, if_neg (not_not.mpr rfl)]
        rfl
      rw [List.cons_append, List.cons_append, List.length_cons, Nat.add_right_comm,
        unfolded, int32_succ]
      by_cases small : i + 1 < 2 ^ 31
      · rw [if_pos small, Option.bind_some, ih, Nat.add_right_comm i, Nat.add_assoc i]
        cases rest with
        | nil => exact (if_pos (Or.inr small)).symm
        | cons d rest => simp
      · have large : ¬(c :: rest = [] ∨ i + (rest.length + 1) < 2 ^ 31) := by
          rintro (none' | fits)
          · exact List.cons_ne_nil _ _ none'
          · omega
        rw [if_neg small, if_neg large, Option.bind_none]

theorem strncmp_append (common : List UInt8) (left : Nat) (s1 s2 : List UInt8) :
    strncmp (common ++ s1) (common ++ s2) (common.length + left) =
      if common.length < 2 ^ 31 then strncmpLoop left common.length s1 s2 else none := by
  rw [strncmp, strncmpLoop_common, Nat.zero_add]
  cases common with
  | nil => rfl
  | cons c rest => simp

theorem strncmp_common {common arr1 arr2 : List UInt8} (left : common <+: arr1)
    (right : common <+: arr2) :
    strncmp arr1 arr2 common.length = if common.length < 2 ^ 31 then some 0 else none := by
  obtain ⟨rest, rfl⟩ := left
  obtain ⟨rest', rfl⟩ := right
  exact strncmp_append common 0 rest rest'

theorem strncmp_differ {s1 s2 : CString} {front : List UInt8} {a b : UInt8}
    (found : s1.DifferAt s2 front a b) {n : Nat} (within : front.length < n)
    {arr1 arr2 : List UInt8} (left : s1.buffer.take n <+: arr1)
    (right : s2.buffer.take n <+: arr2) :
    strncmp arr1 arr2 n = if front.length < 2 ^ 31 then some (charInt a - charInt b) else none := by
  have here : front ++ [a] <+: s1.buffer.take n :=
    List.prefix_take_iff.mpr ⟨found.left, by simp; omega⟩
  have here' : front ++ [b] <+: s2.buffer.take n :=
    List.prefix_take_iff.mpr ⟨found.right, by simp; omega⟩
  obtain ⟨rest, rfl⟩ := here.trans left
  obtain ⟨rest', rfl⟩ := here'.trans right
  obtain ⟨more, rfl⟩ : ∃ more, n = front.length + (more + 1) := ⟨n - front.length - 1, by omega⟩
  rw [List.append_assoc, List.append_assoc, List.singleton_append, List.singleton_append,
    strncmp_append]
  congr 1
  exact if_pos found.differ

theorem CString.buffer_length (s : CString) : s.buffer.length = s.bytes.length + 1 := by
  rw [CString.buffer, List.length_append, List.length_singleton]

theorem strncmp_beyond (s : CString) {n : Nat} (beyond : s.bytes.length + 1 < n) :
    strncmp s.buffer s.buffer n = none := by
  have length := s.buffer_length
  obtain ⟨more, rfl⟩ : ∃ more, n = s.buffer.length + (more + 1) :=
    ⟨n - s.buffer.length - 1, by omega⟩
  have loop := strncmp_append s.buffer (more + 1) [] []
  rw [List.append_nil] at loop
  rw [loop]
  split_ifs <;> rfl

theorem strncmpExact_common {s1 s2 : CString} {n : Nat}
    (common : s1.buffer.take n = s2.buffer.take n) (cut : s1.bytes.take n = s2.bytes.take n)
    (within : n ≤ s1.bytes.length + 1) (reached : s1.bytes.length < n → s1 = s2) :
    StrncmpExact s1 s2 n ↔ n < 2 ^ 31 := by
  have length := s1.buffer_length
  have size : (s1.buffer.take n).length = n := List.length_take_of_le (by omega)
  have result : ∀ arr1 arr2, s1.buffer.take n <+: arr1 → s2.buffer.take n <+: arr2 →
      strncmp arr1 arr2 n = if n < 2 ^ 31 then some 0 else none := by
    intro arr1 arr2 left right
    rw [← common] at right
    have equal := strncmp_common left right
    rwa [size] at equal
  constructor
  · rintro ⟨r, exact', _, _⟩
    have defined := exact' _ _ List.prefix_rfl List.prefix_rfl
    rw [result _ _ List.prefix_rfl List.prefix_rfl] at defined
    by_contra large
    rw [if_neg large] at defined
    cases defined
  · intro small
    refine ⟨0, fun arr1 arr2 left right => ?_, iff_of_true rfl cut, fun before _ r' whole => ?_⟩
    · rw [result arr1 arr2 left right, if_pos small]
    · rw [← reached before, strcmp_same] at whole
      rw [← Option.some.inj whole]

theorem strncmpExact_differ {s1 s2 : CString} {front : List UInt8} {a b : UInt8}
    (found : s1.DifferAt s2 front a b) {n : Nat} (within : front.length < n) :
    StrncmpExact s1 s2 n ↔ front.length < 2 ^ 31 := by
  constructor
  · rintro ⟨r, exact', _, _⟩
    have defined := exact' _ _ List.prefix_rfl List.prefix_rfl
    rw [strncmp_differ found within List.prefix_rfl List.prefix_rfl] at defined
    by_contra large
    rw [if_neg large] at defined
    cases defined
  · intro small
    have values : charInt a ≠ charInt b := charInt_injective.ne found.differ
    refine ⟨charInt a - charInt b, fun arr1 arr2 left right => ?_, ?_, fun _ _ r' whole => ?_⟩
    · rw [strncmp_differ found within left right, if_pos small]
    · rw [found.take_eq_iff]
      omega
    · rw [strcmp_differ found] at whole
      rw [← Option.some.inj whole]

/-- `strncmp` compares strings unless they are equal and end before the last byte asked for, or its
counter overflows before a difference. -/
theorem strncmp_exact_iff (s1 s2 : CString) (n : Nat) :
    StrncmpExact s1 s2 n ↔
      ¬(s1 = s2 ∧ s1.bytes.length + 1 < n) ∧
        (n < 2 ^ 31 ∨ s1.buffer.take (2 ^ 31) ≠ s2.buffer.take (2 ^ 31)) := by
  rcases differAt_or_eq s1.terminated s2.terminated with same | ⟨front, a, b, found⟩
  · obtain rfl := CString.eq_of_bytes same
    by_cases within : n ≤ s1.bytes.length + 1
    · rw [strncmpExact_common rfl rfl within fun _ => rfl]
      simp [within]
    · refine iff_of_false ?_ fun holds => holds.1 ⟨rfl, Nat.lt_of_not_le within⟩
      rintro ⟨r, exact', _, _⟩
      have defined := exact' s1.buffer s1.buffer (List.take_prefix n _) (List.take_prefix n _)
      rw [strncmp_beyond s1 (by omega)] at defined
      cases defined
  · have different : s1 ≠ s2 := fun same => found.ne (congrArg CString.bytes same)
    have inside := found.front_prefix.length_le
    have early : s1.buffer.take (2 ^ 31) ≠ s2.buffer.take (2 ^ 31) ↔ front.length < 2 ^ 31 := by
      rw [ne_eq, CString.buffer, CString.buffer, found.take_terminated, Nat.not_le]
    rw [early]
    by_cases beyond : front.length < n
    · rw [strncmpExact_differ found beyond]
      constructor
      · intro small
        exact ⟨fun same => different same.1, Or.inr small⟩
      · rintro ⟨_, small | small⟩ <;> omega
    · rw [strncmpExact_common ((found.take_terminated n).mpr (by omega))
        ((found.take_eq_iff n).mpr (by omega)) (by omega)
        (by omega)]
      constructor
      · intro small
        exact ⟨fun same => different same.1, Or.inl small⟩
      · rintro ⟨_, small | small⟩ <;> omega

theorem strncmp_reads_on :
    strncmp [65, 0, 1] [65, 0, 1] 3 = some 0 ∧ strncmp [65, 0, 1] [65, 0, 2] 3 = some (-1) ∧
      ¬StrncmpExact ⟨[65], by decide⟩ ⟨[65], by decide⟩ 3 := by
  have same : strncmp [65, 0, 1] [65, 0, 1] 3 = some 0 := by decide
  have other : strncmp [65, 0, 1] [65, 0, 2] 3 = some (-1) := by decide
  refine ⟨same, other, ?_⟩
  rintro ⟨r, exact', _, _⟩
  have first := exact' [65, 0, 1] [65, 0, 1] (by decide) (by decide)
  have second := exact' [65, 0, 1] [65, 0, 2] (by decide) (by decide)
  rw [same] at first
  rw [other, ← first] at second
  exact absurd second (by decide)

end Bounded

end PaintKernel
