import Mathlib
import PaintKernel.Printf
import PaintKernel.Library.Numerals

set_option autoImplicit false

/-! `atoi` and `atoi_x`: the number that a string starts with. -/

namespace PaintKernel

open MachineInt Numerals

/-- The loop of `atoi` and `atoi_x`, with `left` characters to go before `strlen(str)`; `next` is
what a digit does to the result. -/
def atoiLoop (next : UInt8 → Option (Int → Option Int))
    (str : List UInt8) : Nat → Nat → Int → Option Int
  | 0, _, res => some res
  | left + 1, i, res => do
      let c ← str[i]?
      match next c with
      | some accumulate =>
          let res ← accumulate res
          let _ ← int32 (i + 1)
          atoiLoop next str left (i + 1) res
      | none => return res

def atoiDigit (c : UInt8) : Option (Int → Option Int) :=
  if charInt (byte '0') ≤ charInt c ∧ charInt c ≤ charInt (byte '9') then
    some fun res => do int32 ((← int32 ((← int32 (res * 10)) + charInt c)) - charInt (byte '0'))
  else none

def atoi (str : List UInt8) : Option Int := atoiLoop atoiDigit str (strlen str) 0 0

/-- The letters count from 0. -/
def atoiXDigit (c : UInt8) : Option (Int → Option Int) :=
  if charInt (byte '0') ≤ charInt c ∧ charInt c ≤ charInt (byte '9') then
    some fun res => do int32 ((← int32 (res * 16)) + (charInt c - charInt (byte '0')))
  else if charInt (byte 'a') ≤ charInt c ∧ charInt c ≤ charInt (byte 'f') then
    some fun res => do int32 ((← int32 (res * 16)) + (charInt c - charInt (byte 'a')))
  else if charInt (byte 'A') ≤ charInt c ∧ charInt c ≤ charInt (byte 'F') then
    some fun res => do int32 ((← int32 (res * 16)) + (charInt c - charInt (byte 'A')))
  else none

def atoiX (str : List UInt8) : Option Int := atoiLoop atoiXDigit str (strlen str) 0 0

section Loop

variable {next : UInt8 → Option (Int → Option Int)} {base slack : Nat} {symbol worth : Nat → Nat}

def Accumulates (next : UInt8 → Option (Int → Option Int)) (base slack : Nat) (symbol : Nat → UInt8)
    (worth : Nat → Nat) : Prop :=
  ∀ d < base, ∃ accumulate, next (symbol d) = some accumulate ∧ ∀ n : Nat,
    accumulate n = if n * base + worth d + slack <
      2 ^ 31 then some ((n * base + worth d : Nat) : Int) else none

theorem Accumulates.loop {symbol : Nat → UInt8} (step : Accumulates next base slack symbol worth)
    {str back : List UInt8} {ds : List Nat} (digit : ∀ d ∈ ds, d < base) (left i n : Nat)
    (here : str.drop i = ds.map symbol ++ back) :
    atoiLoop next str (ds.length + left) i n =
      if ds = [] ∨ ((ds.map worth).foldl (fun n d => n * base + d) n + slack < 2 ^ 31 ∧
        i + ds.length < 2 ^ 31) then
        atoiLoop next str left (i + ds.length) ((ds.map worth).foldl (fun n d =>
          n * base + d) n : Nat)
      else none := by
  induction ds generalizing i n with
  | nil => simp
  | cons d rest ih =>
      rw [List.forall_mem_cons] at digit
      rcases step d digit.1 with ⟨accumulate, known, sums⟩
      have read : str[i]? = some (symbol d) := by
        rw [← List.head?_drop, here]
        rfl
      have behind : str.drop (i + 1) = rest.map symbol ++ back := by
        rw [← List.tail_drop, here]
        rfl
      have grows : n * base + worth d ≤ (rest.map worth).foldl (fun n d => n * base + d)
          (n * base + worth d) :=
        le_foldl (by omega) _ _
      have unfolded : atoiLoop next str (rest.length + left + 1) i n =
          (accumulate n).bind fun res =>
          (int32 ((i : Int) + 1)).bind fun _ =>
            atoiLoop next str (rest.length + left) (i + 1) res := by
        rw [atoiLoop, read]
        simp only [Option.bind_eq_bind, Option.bind_some, known]
      rw [List.length_cons, Nat.add_right_comm, unfolded, sums, int32_succ, List.map_cons,
        List.foldl_cons]
      by_cases small : n * base + worth d + slack < 2 ^ 31 ∧ i + 1 < 2 ^ 31
      · rw [if_pos small.1, if_pos small.2, Option.bind_some, Option.bind_some,
          ih digit.2 _ _ behind, Nat.add_right_comm i, ← Nat.add_assoc i]
        cases rest with
        | nil =>
            have fits : (([].map worth).foldl (fun n d => n * base + d) (n * base + worth d) +
                slack < 2 ^ 31 ∧
                i + ([] : List Nat).length + 1 < 2 ^ 31) := small
            rw [if_pos (Or.inl rfl), if_pos (Or.inr fits)]
        | cons d' rest => simp
      · have large : ¬(d :: rest = [] ∨
            ((rest.map worth).foldl (fun n d => n * base + d) (n * base + worth d) + slack
            < 2 ^ 31 ∧ i + (rest.length + 1) < 2 ^ 31)) := by
          rintro (none' | fits)
          · exact List.cons_ne_nil _ _ none'
          · exact small ⟨by omega, by omega⟩
        rw [if_neg large]
        by_cases sum : n * base + worth d + slack < 2 ^ 31
        · rw [if_pos sum, Option.bind_some, if_neg fun counts => small ⟨sum, counts⟩,
            Option.bind_none]
        · rw [if_neg sum, Option.bind_none]

end Loop

section Decimal

def isDecimal (c : UInt8) : Bool := decide ('0'.toNat ≤ c.toNat ∧ c.toNat ≤ '9'.toNat)

def CString.leadingDigits (s : CString) : List UInt8 := s.bytes.takeWhile isDecimal

def decimalDigits (text : List UInt8) : List Nat := text.map fun c => c.toNat - '0'.toNat

def CString.leadingNumber (s : CString) : Nat := value 10 (decimalDigits s.leadingDigits)

theorem decimal_range (c : UInt8) :
    (charInt (byte '0') ≤ charInt c ∧ charInt c ≤ charInt (byte '9')) ↔ isDecimal c = true := by
  have zero : charInt (byte '0') = 48 := by decide
  have nine : charInt (byte '9') = 57 := by decide
  have bounds : isDecimal c = true ↔ 48 ≤ c.toNat ∧ c.toNat ≤ 57 := decide_eq_true_iff
  have size := c.toNat_lt
  rw [bounds, zero, nine, charInt_eq]
  split_ifs <;> omega

theorem atoiDigit_none {c : UInt8} (other : isDecimal c = false) : atoiDigit c = none := by
  have outside : ¬(charInt (byte '0') ≤ charInt c ∧ charInt c ≤ charInt (byte '9')) := by
    rw [decimal_range, other]
    exact Bool.false_ne_true
  exact if_neg outside

theorem atoiDigit_accumulates :
    Accumulates atoiDigit 10 48 (fun d => UInt8.ofNat (d + '0'.toNat)) id := by
  intro d small
  have known : ∀ d < 10, charInt (UInt8.ofNat (d + '0'.toNat)) = ((d + 48 : Nat) : Int) ∧
      (charInt (byte '0') ≤ charInt (UInt8.ofNat (d + '0'.toNat)) ∧
        charInt (UInt8.ofNat (d + '0'.toNat)) ≤ charInt (byte '9')) := by decide
  have digit := known d small
  have zero : charInt (byte '0') = ((48 : Nat) : Int) := by decide
  refine ⟨_, if_pos digit.2, fun n => ?_⟩
  change (int32 ((n : Int) * (10 : Nat))).bind (fun scaled =>
    (int32 (scaled + charInt (UInt8.ofNat (d + '0'.toNat)))).bind fun sum =>
      int32 (sum - charInt (byte '0'))) = _
  rw [digit.1, zero, ← Nat.cast_mul, int32_bind, ← Nat.cast_add,
    int32_bind, ← Nat.cast_sub (by omega), int32_natCast, ← Nat.add_assoc, Nat.add_sub_cancel, id]
  split_ifs <;> first | rfl | omega

/-- The digits that the loop gets to: `strlen` gives the length as a `uint32_t`. -/
def CString.readDigits (s : CString) : List UInt8 := s.leadingDigits.take (s.bytes.length % 2 ^ 32)

theorem CString.readDigits_prefix (s : CString) : ∃ back, s.bytes = s.readDigits ++ back := by
  have first : s.readDigits <+: s.leadingDigits := List.take_prefix _ _
  have second : s.leadingDigits <+: s.bytes := List.takeWhile_prefix _
  rcases first.trans second with ⟨back, whole⟩
  exact ⟨back, whole.symm⟩

/-- After the digits the loop is at its end or at another character. -/
theorem atoi_stops (s : CString) (res : Int) :
    atoiLoop atoiDigit s.buffer (s.bytes.length % 2 ^ 32 - s.readDigits.length) s.readDigits.length
      res = some res := by
  by_cases finished : s.bytes.length % 2 ^ 32 ≤ s.readDigits.length
  · rw [Nat.sub_eq_zero_of_le finished, atoiLoop]
  · have all : s.readDigits = s.leadingDigits := by
      apply List.take_of_length_le
      rw [CString.readDigits, List.length_take] at finished
      omega
    have more : (s.bytes.dropWhile isDecimal) ≠ [] := by
      intro none'
      have whole := List.takeWhile_append_dropWhile (p := isDecimal) (l := s.bytes)
      rw [none', List.append_nil] at whole
      rw [all, CString.leadingDigits, whole] at finished
      exact finished (Nat.mod_le _ _)
    obtain ⟨c, rest, after⟩ := List.exists_cons_of_ne_nil more
    have other : isDecimal c = false := by
      have first := List.head?_dropWhile_not isDecimal s.bytes
      rw [after] at first
      exact first
    have read : s.buffer[s.readDigits.length]? = some c := by
      have whole : s.buffer = s.leadingDigits ++ (c :: (rest ++ [0])) := by
        rw [CString.buffer, ← List.cons_append, ← after, ← List.append_assoc, CString.leadingDigits,
          List.takeWhile_append_dropWhile]
      rw [all, whole, List.getElem?_append_right (Nat.le_refl _), Nat.sub_self,
        List.getElem?_cons_zero]
    obtain ⟨left, positive⟩ :=
      Nat.exists_eq_succ_of_ne_zero (Nat.sub_ne_zero_of_lt (Nat.lt_of_not_le finished))
    rw [positive, atoiLoop, read]
    simp only [Option.bind_eq_bind, Option.bind_some, atoiDigit_none other]
    rfl

theorem atoi_eq (s : CString) :
    atoi s.buffer =
      if s.readDigits = [] ∨ (value 10 (decimalDigits s.readDigits) + 48 < 2 ^ 31 ∧
          s.readDigits.length < 2 ^ 31) then
        some ((value 10 (decimalDigits s.readDigits) : Nat) : Int)
      else none := by
  have decimal : ∀ c ∈ s.readDigits, isDecimal c = true := fun c member =>
    List.mem_takeWhile_imp (List.mem_of_mem_take member)
  have digit : ∀ d ∈ decimalDigits s.readDigits, d < 10 := by
    intro d member
    obtain ⟨c, there, rfl⟩ := List.mem_map.mp member
    have range : 48 ≤ c.toNat ∧ c.toNat ≤ 57 := of_decide_eq_true (decimal c there)
    change c.toNat - 48 < 10
    omega
  have symbols : (decimalDigits s.readDigits).map (fun d => UInt8.ofNat (d + '0'.toNat)) =
      s.readDigits := by
    rw [decimalDigits, List.map_map]
    conv_rhs => rw [← List.map_id s.readDigits]
    apply List.map_congr_left
    intro c member
    have range : 48 ≤ c.toNat ∧ c.toNat ≤ 57 := of_decide_eq_true (decimal c member)
    have back : c.toNat - '0'.toNat + '0'.toNat = c.toNat := Nat.sub_add_cancel range.1
    rw [Function.comp_apply, back, UInt8.ofNat_toNat, id]
  obtain ⟨back, whole⟩ := s.readDigits_prefix
  have here : s.buffer.drop 0 = (decimalDigits s.readDigits).map
      (fun d => UInt8.ofNat (d + '0'.toNat)) ++ (back ++ [0]) := by
    rw [symbols, List.drop_zero, CString.buffer, whole, List.append_assoc]
  have length : s.bytes.length % 2 ^ 32 = (decimalDigits s.readDigits).length +
      (s.bytes.length % 2 ^ 32 - s.readDigits.length) := by
    have below : s.readDigits.length ≤ s.bytes.length % 2 ^ 32 := List.length_take_le _ _
    rw [decimalDigits, List.length_map]
    omega
  have run := atoiDigit_accumulates.loop digit
    (s.bytes.length % 2 ^ 32 - s.readDigits.length) 0 0 here
  have size : (decimalDigits s.readDigits).length = s.readDigits.length := List.length_map _
  have stops := atoi_stops s (value 10 (decimalDigits s.readDigits) : Nat)
  rw [← length, List.map_id, size, Nat.zero_add, foldl_value, Nat.zero_mul, Nat.zero_add,
    stops] at run
  simp only [decimalDigits, List.map_eq_nil_iff] at run ⊢
  rw [atoi, strlen_eq]
  exact run

/-- What `strlen` cuts off is worth nothing only in a row of zeros. -/
theorem readDigits_value (s : CString) :
    value 10 (decimalDigits s.readDigits) = s.leadingNumber ↔
      s.leadingDigits.length ≤ s.bytes.length % 2 ^ 32 ∨ s.leadingNumber = 0 := by
  have split : decimalDigits s.leadingDigits =
      decimalDigits s.readDigits ++
        decimalDigits (s.leadingDigits.drop (s.bytes.length % 2 ^ 32)) := by
    rw [decimalDigits, decimalDigits, decimalDigits, CString.readDigits, ← List.map_append,
      List.take_append_drop]
  have length : (decimalDigits (s.leadingDigits.drop (s.bytes.length % 2 ^ 32))).length =
      s.leadingDigits.length - s.bytes.length % 2 ^ 32 := by
    rw [decimalDigits, List.length_map, List.length_drop]
  have number : s.leadingNumber = value 10 (decimalDigits s.readDigits) *
      10 ^ (s.leadingDigits.length - s.bytes.length % 2 ^ 32) +
        value 10 (decimalDigits (s.leadingDigits.drop (s.bytes.length % 2 ^ 32))) := by
    rw [CString.leadingNumber, split, value_append, length]
  by_cases short : s.leadingDigits.length ≤ s.bytes.length % 2 ^ 32
  · have all : s.readDigits = s.leadingDigits := List.take_of_length_le short
    rw [all]
    exact iff_of_true rfl (Or.inl short)
  · have factor : 10 ≤ 10 ^ (s.leadingDigits.length - s.bytes.length % 2 ^ 32) :=
      Nat.le_self_pow (by omega) 10
    have product := Nat.mul_le_mul_left (value 10 (decimalDigits s.readDigits)) factor
    constructor
    · intro same
      exact Or.inr (by omega)
    · intro cut
      have zero := cut.resolve_left short
      omega

/-- `atoi` is exact where the number leaves room for the code of `'0'` in an `int`, the counter of
the loop fits and `strlen` cuts off no digit that counts. -/
theorem atoi_exact_iff (s : CString) :
    atoi s.buffer = some (s.leadingNumber : Int) ↔
      s.leadingNumber + '0'.toNat ≤ 2147483647 ∧
        min s.leadingDigits.length (s.bytes.length % 2 ^ 32) ≤ 2147483647 ∧
        (s.leadingDigits.length ≤ s.bytes.length % 2 ^ 32 ∨ s.leadingNumber = 0) := by
  have length : s.readDigits.length = min s.leadingDigits.length (s.bytes.length % 2 ^ 32) := by
    rw [CString.readDigits, List.length_take, Nat.min_comm]
  have code : '0'.toNat = 48 := rfl
  rw [atoi_eq, ← readDigits_value, ← length, code]
  constructor
  · intro exact'
    split_ifs at exact' with room
    have same : value 10 (decimalDigits s.readDigits) = s.leadingNumber := by
      exact_mod_cast Option.some.inj exact'
    rw [← same]
    rcases room with none' | room
    · rw [none']
      exact ⟨by decide, by decide, rfl⟩
    · exact ⟨by omega, by omega, rfl⟩
  · rintro ⟨room, counts, same⟩
    rw [if_pos (Or.inr ⟨by omega, by omega⟩), same]

def roomless : CString := ⟨ascii ['2', '1', '4', '7', '4', '8', '3', '6', '0', '0'], by decide⟩

theorem atoi_overflows :
    roomless.leadingNumber ≤ 2147483647 ∧
      atoi roomless.buffer ≠ some (roomless.leadingNumber : Int) := by
  decide

end Decimal

end PaintKernel
