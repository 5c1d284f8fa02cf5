import Mathlib
import PaintKernel.Atoi
import PaintKernel.NumberPrinters
import PaintKernel.Library.Run

set_option autoImplicit false

/-! `itoa_x`: hexadecimal text of a given width. -/

namespace PaintKernel

open Buffer MachineInt Numerals Transition

/-- The first loop of `itoa_x`, with `left` rounds to go before `i` is 20: the last index and the
array. -/
def itoaXFill (bound : Nat) : Nat → Nat → Nat → Filled UInt8 → Option (Nat × Filled UInt8)
  | 0, i, _, arrBackwards => some (i, arrBackwards)
  | left + 1, i, value, arrBackwards => do
      let arrBackwards ← put arrBackwards i (digitByte 'A' (value % 16))
      if value / 16 = 0 ∧ bound ≤ i then return (i, arrBackwards)
      else itoaXFill bound left (i + 1) (value / 16) arrBackwards

def itoaXCopy (arrBackwards : Filled UInt8) (i : Nat) (arr : List UInt8) : Option (List UInt8) := do
  let arr ← (List.range (i + 1)).foldlM
    (fun arr j => do store arr j (← fetch arrBackwards (i - j))) arr
  store arr (i + 1) 0

/-- What `itoa_x` leaves in `arr`; `num_digits - 1` is compared as a `size_t`. -/
def itoaX (value : UInt64) (arr : List UInt8) (numDigits : Int32) : Option (List UInt8) := do
  let bound ← int32 (numDigits.toInt - 1)
  let filled ← itoaXFill (bound % 2 ^ 64).toNat 20 0 value.toNat (unfilled 20)
  itoaXCopy filled.2 filled.1 arr

def backwards (value i : Nat) : Filled UInt8 :=
  ((List.range i).map fun k => some (digitByte 'A' (value / 16 ^ k % 16))) ++ unfilled (20 - i)

theorem backwards_put (value : Nat) {i : Nat} (room : i < 20) :
    put (backwards value i) i (digitByte 'A' (value / 16 ^ i % 16)) =
      some (backwards value (i + 1)) := by
  have tail : (unfilled (20 - i) : Filled UInt8) = none :: unfilled (20 - (i + 1)) := by
    rw [unfilled, unfilled, ← List.replicate_succ]
    congr 1
    omega
  have stored := store_append ((List.range i).map fun k =>
    some (digitByte 'A' (value / 16 ^ k % 16)))
    (unfilled (20 - (i + 1))) none (some (digitByte 'A' (value / 16 ^ i % 16)))
  rw [List.length_map, List.length_range] at stored
  rw [put, backwards, tail, stored, backwards, List.range_succ, List.map_append, List.map_singleton,
    List.append_assoc, List.singleton_append]

theorem itoaXFill_eq {value bound : Nat} (small : value < 16 ^ (bound + 1)) (left i : Nat)
    (rounds : i + left = 20) (before : i ≤ bound) :
    itoaXFill bound left i (value / 16 ^ i) (backwards value i) =
      some (min bound 20, backwards value (min (bound + 1) 20)) := by
  induction left generalizing i with
  | zero =>
      rw [itoaXFill, show i = 20 by omega, Nat.min_eq_right (by omega), Nat.min_eq_right (by omega)]
  | succ left ih =>
      have next : value / 16 ^ i / 16 = value / 16 ^ (i + 1) := by
        rw [Nat.div_div_eq_div_mul, pow_succ]
      rw [itoaXFill, backwards_put value (by omega), next]
      simp only [Option.bind_eq_bind, Option.bind_some]
      by_cases last : i = bound
      · have done : value / 16 ^ (i + 1) = 0 := Nat.div_eq_of_lt (last ▸ small)
        rw [if_pos ⟨done, last.ge⟩, ← last, Nat.min_eq_left (by omega), Nat.min_eq_left (by omega)]
        rfl
      · rw [if_neg fun exit => last (Nat.le_antisymm before exit.2)]
        exact ih (i + 1) (by omega) (by omega)

theorem backwards_fetch (value : Nat) {k i : Nat} (filled : k < i) :
    fetch (backwards value i) k = some (digitByte 'A' (value / 16 ^ k % 16)) := by
  rw [fetch, backwards, List.getElem?_append_left (by simpa using filled), List.getElem?_map,
    List.getElem?_range filled]
  rfl

theorem itoaXCopy_eq (value i : Nat) {arr : List UInt8} (room : i + 1 < arr.length) :
    itoaXCopy (backwards value (i + 1)) i arr =
      some ((lastDigits 16 (i + 1) value).map (digitByte 'A') ++ 0 :: arr.drop (i + 2)) := by
  let copied := fun j =>
    ((List.range j).map fun j => digitByte 'A' (value / 16 ^ (i - j) % 16)) ++ arr.drop j
  have rest : ∀ j < i + 2, arr.drop j = arr[j]! :: arr.drop (j + 1) := by
    intro j inside
    rw [List.drop_eq_getElem_cons (by omega), getElem!_pos arr j (by omega)]
  have stored : ∀ j < i + 2, ∀ c : UInt8, store (copied j) j c =
      some (((List.range j).map fun j => digitByte 'A' (value / 16 ^ (i - j) % 16)) ++
        c :: arr.drop (j + 1)) := by
    intro j inside c
    have written := store_append ((List.range j).map fun j =>
      digitByte 'A' (value / 16 ^ (i - j) % 16))
      (arr.drop (j + 1)) arr[j]! c
    rwa [List.length_map, List.length_range, ← rest j inside] at written
  have copy : (List.range (i + 1)).foldlM
      (fun arr j => do store arr j (← fetch (backwards value (i + 1)) (i - j)))
      (copied 0) = some (copied (i + 1)) := by
    apply foldlM_states copied
    intro j inside
    have next : copied (j + 1) =
        ((List.range j).map fun j => digitByte 'A' (value / 16 ^ (i - j) % 16)) ++
        digitByte 'A' (value / 16 ^ (i - j) % 16) :: arr.drop (j + 1) := by
      simp only [copied, List.range_succ, List.map_append, List.map_singleton, List.append_assoc,
        List.singleton_append]
    rw [backwards_fetch value (show i - j < i + 1 by omega), next]
    exact stored j (by omega) _
  rw [itoaXCopy, lastDigits_map]
  have start : copied 0 = arr := rfl
  rw [start] at copy
  rw [copy]
  exact stored (i + 1) (by omega) 0

theorem itoaX_filled (value : UInt64) {width : Nat} {numDigits : Int32}
    (asked : numDigits.toInt = width) (room : (digits 16 value.toNat).length ≤ width)
    (arr : List UInt8) :
    itoaX value arr numDigits =
      itoaXCopy (backwards value.toNat (min width 20)) (min (width - 1) 20) arr := by
  have positive : 0 < width :=
    (List.length_pos_of_ne_nil (digits_ne_nil 16 value.toNat)).trans_le room
  have below : numDigits.toInt < 2 ^ 31 := Int32.toInt_lt numDigits
  have bound : int32 (numDigits.toInt - 1) = some ((width - 1 : Nat) : Int) := by
    rw [asked, int32_some (by omega) (by omega)]
    congr 1
    omega
  have unsigned : (((width - 1 : Nat) : Int) % 2 ^ 64).toNat = width - 1 := by omega
  have small : value.toNat < 16 ^ (width - 1 + 1) := by
    rw [Nat.sub_add_cancel positive]
    exact (digits_length_le (by decide) _ positive).mp room
  have filled := itoaXFill_eq small 20 0 rfl (Nat.zero_le _)
  have start : backwards value.toNat 0 = unfilled 20 := rfl
  rw [pow_zero, Nat.div_one, start, Nat.sub_add_cancel positive] at filled
  rw [itoaX, bound, Option.bind_eq_bind, Option.bind_some, unsigned, filled]
  rfl

theorem itoaX_eq (value : UInt64) {width : Nat} {numDigits : Int32}
    (asked : numDigits.toInt = width) (room : (digits 16 value.toNat).length ≤ width)
    (fits : width ≤ 20) {arr : List UInt8} (inside : width < arr.length) :
    itoaX value arr numDigits =
      some ((lastDigits 16 width value.toNat).map (digitByte 'A') ++
        0 :: arr.drop (width + 1)) := by
  obtain ⟨last, rfl⟩ : ∃ last, width = last + 1 := by
    have positive := List.length_pos_of_ne_nil (digits_ne_nil 16 value.toNat)
    exact ⟨width - 1, by omega⟩
  rw [itoaX_filled value asked room, Nat.min_eq_left fits, Nat.add_sub_cancel,
    Nat.min_eq_left (by omega), itoaXCopy_eq value.toNat last inside]

/-- For a larger width the copy starts with a byte behind the array. -/
theorem itoaX_wide (value : UInt64) {width : Nat} {numDigits : Int32}
    (asked : numDigits.toInt = width) (room : (digits 16 value.toNat).length ≤ width)
    (wide : 20 < width) (arr : List UInt8) :
    itoaX value arr numDigits = none := by
  have outside : fetch (backwards value.toNat 20) 20 = none :=
    fetch_outside (by simp [backwards, unfilled])
  rw [itoaX_filled value asked room, Nat.min_eq_right (by omega),
    Nat.min_eq_right (by omega), itoaXCopy, List.range_succ_eq_map, List.foldlM_cons,
      Nat.sub_zero, outside]
  rfl

def ItoaXPads (value : UInt64) (numDigits : Int32) : Prop :=
  ∃ ds : List Nat, (ds.length : Int) = numDigits.toInt ∧ (∀ d ∈ ds, d < 16) ∧
    Numerals.value 16 ds = value.toNat ∧
    ∀ arr : List UInt8, ds.length < arr.length →
      itoaX value arr numDigits = some (ds.map (digitByte 'A') ++ 0 :: arr.drop (ds.length + 1))

theorem not_pads_wide {value : UInt64} {width : Nat} {numDigits : Int32}
    (asked : numDigits.toInt = width) (room : (digits 16 value.toNat).length ≤ width)
    (wide : 20 < width) : ¬ItoaXPads value numDigits := by
  rintro ⟨ds, _, _, _, written⟩
  have enough := written (List.replicate (ds.length + 1) 0) (by simp)
  rw [itoaX_wide value asked room wide] at enough
  cases enough

/-- `itoa_x` pads to every width that its array has room for. -/
theorem itoaX_pads_iff (value : UInt64) (numDigits : Int32)
    (room : ((digits 16 value.toNat).length : Int) ≤ numDigits.toInt) :
    ItoaXPads value numDigits ↔ numDigits.toInt ≤ 20 := by
  obtain ⟨width, asked⟩ : ∃ width : Nat, numDigits.toInt = width :=
    ⟨numDigits.toInt.toNat, by omega⟩
  have room' : (digits 16 value.toNat).length ≤ width := by omega
  constructor
  · intro pads
    by_contra wide
    exact not_pads_wide asked room' (by omega) pads
  · intro fits
    have positive : 0 < width :=
      (List.length_pos_of_ne_nil (digits_ne_nil 16 value.toNat)).trans_le room'
    have small := (digits_length_le (by decide) _ positive).mp room'
    refine ⟨lastDigits 16 width value.toNat, by rw [lastDigits_length, asked],
      lastDigits_lt (by decide) _ _, ?_, ?_⟩
    · rw [value_lastDigits, Nat.mod_eq_of_lt small]
    · intro arr inside
      rw [lastDigits_length] at inside ⊢
      exact itoaX_eq value asked room' (by omega) inside

theorem itoaX_pads_twenty : ((digits 16 (255 : UInt64).toNat).length : Int) ≤ (20 : Int32).toInt ∧
    (ItoaXPads 255 20 ↔ (20 : Int32).toInt ≤ 20) := by
  have room : ((digits 16 (255 : UInt64).toNat).length : Int) ≤ (20 : Int32).toInt := by decide
  exact ⟨room, itoaX_pads_iff 255 20 room⟩

theorem itoaX_leaves_array : ((digits 16 (0 : UInt64).toNat).length : Int) ≤ (21 : Int32).toInt ∧
    ¬ItoaXPads 0 21 := by
  have room : (digits 16 (0 : UInt64).toNat).length ≤ 21 := by decide
  have asked : (21 : Int32).toInt = (21 : Nat) := by decide
  exact ⟨by decide, not_pads_wide asked room (by decide)⟩

section RoundTrip

/-- `atoi_x` takes the letters for the digits from 0 on. -/
theorem atoiXDigit_accumulates : Accumulates atoiXDigit 16 0 (digitByte 'A') (· % 10) := by
  intro d small
  obtain ⟨zero, worth, found⟩ : ∃ zero : UInt8,
      charInt (digitByte 'A' d) - charInt zero = ((d % 10 : Nat) : Int) ∧
      atoiXDigit (digitByte 'A' d) =
        some (fun res => do
          int32 ((← int32 (res * 16)) + (charInt (digitByte 'A' d) - charInt zero))) := by
    by_cases numeral : d < 10
    · have known : ∀ d < 10, (charInt (byte '0') ≤ charInt (digitByte 'A' d) ∧
          charInt (digitByte 'A' d) ≤ charInt (byte '9')) ∧
            charInt (digitByte 'A' d) - charInt (byte '0') = ((d % 10 : Nat) : Int) := by decide
      obtain ⟨range, worth⟩ := known d numeral
      exact ⟨byte '0', worth, if_pos range⟩
    · have known : ∀ d < 16, ¬d < 10 → ¬(charInt (byte '0') ≤ charInt (digitByte 'A' d) ∧
          charInt (digitByte 'A' d) ≤ charInt (byte '9')) ∧
          ¬(charInt (byte 'a') ≤ charInt (digitByte 'A' d) ∧
            charInt (digitByte 'A' d) ≤ charInt (byte 'f')) ∧
          (charInt (byte 'A') ≤ charInt (digitByte 'A' d) ∧
            charInt (digitByte 'A' d) ≤ charInt (byte 'F')) ∧
            charInt (digitByte 'A' d) - charInt (byte 'A') = ((d % 10 : Nat) : Int) := by decide
      obtain ⟨first, second, third, worth⟩ := known d small numeral
      exact ⟨byte 'A', worth, (if_neg first).trans ((if_neg second).trans (if_pos third))⟩
  refine ⟨_, found, fun n => ?_⟩
  change (int32 ((n : Int) * (16 : Nat))).bind (fun scaled =>
    int32 (scaled + (charInt (digitByte 'A' d) - charInt zero))) = _
  rw [worth, ← Nat.cast_mul, int32_bind, ← Nat.cast_add, int32_natCast, Nat.add_zero]
  split_ifs <;> first | rfl | omega

theorem atoiX_digits {ds : List Nat} (digit : ∀ d ∈ ds, d < 16) (short : ds.length < 2 ^ 31)
    (fits : value 16 ds < 2 ^ 31) (rest : List UInt8) :
    atoiX (ds.map (digitByte 'A') ++ 0 :: rest) =
      some ((value 16 (ds.map (· % 10)) : Nat) : Int) := by
  have nonzero : ∀ d < 16, digitByte 'A' d ≠ 0 := by decide
  have terminated : 0 ∉ ds.map (digitByte 'A') := by
    intro member
    obtain ⟨d, there, zero⟩ := List.mem_map.mp member
    exact nonzero d (digit d there) zero
  have smaller : value 16 (ds.map (· % 10)) ≤ value 16 ds :=
    value_map_le (fun d => Nat.mod_le d 10) ds
  have loop := atoiXDigit_accumulates.loop digit 0 0 0
    (List.drop_zero (l := ds.map (digitByte 'A') ++ 0 :: rest))
  have length : strlen (ds.map (digitByte 'A') ++ 0 :: rest) = ds.length + 0 := by
    rw [strlen_append terminated, List.length_map, Nat.mod_eq_of_lt (by omega), Nat.add_zero]
  rw [foldl_value, Nat.zero_mul, Nat.zero_add, if_pos (Or.inr ⟨by omega, by omega⟩)] at loop
  rw [atoiX, length]
  exact loop

/-- The text of a number comes back exactly when it has no letter. -/
theorem hex_round_trip_iff (value : UInt64) (numDigits : Int32) (small : value.toNat < 2 ^ 31)
    (room : ((digits 16 value.toNat).length : Int) ≤ numDigits.toInt)
    (fits : numDigits.toInt ≤ 20) :
    (∀ arr : List UInt8, numDigits.toInt < arr.length →
        (itoaX value arr numDigits).bind atoiX = some (value.toNat : Int)) ↔
      ∀ d ∈ digits 16 value.toNat, d < 10 := by
  obtain ⟨width, asked⟩ : ∃ width : Nat, numDigits.toInt = width :=
    ⟨numDigits.toInt.toNat, by omega⟩
  have room' : (digits 16 value.toNat).length ≤ width := by omega
  have padded := lastDigits_eq (by decide) value.toNat room'
  have denotes : Numerals.value 16 (lastDigits 16 width value.toNat) = value.toNat := by
    rw [padded, value_zeros, value_digits]
  have read : ∀ arr : List UInt8, width < arr.length → (itoaX value arr numDigits).bind atoiX =
      some ((Numerals.value 16 ((lastDigits 16 width value.toNat).map (· % 10)) : Nat) : Int) := by
    intro arr inside
    rw [itoaX_eq value asked room' (by omega) inside, Option.bind_some]
    apply atoiX_digits (lastDigits_lt (by decide) _ _)
    · rw [lastDigits_length]
      omega
    · rw [denotes]
      exact small
  have letters : Numerals.value 16 ((lastDigits 16 width value.toNat).map (· % 10)) = value.toNat ↔
      ∀ d ∈ digits 16 value.toNat, d < 10 := by
    have same : Numerals.value 16 ((digits 16 value.toNat).map (· % 10)) =
        Numerals.value 16 (digits 16 value.toNat) ↔
        ∀ d ∈ digits 16 value.toNat, d % 10 = d :=
          value_map_eq_iff (by decide) (fun d => Nat.mod_le d 10) _
    rw [value_digits] at same
    rw [padded, List.map_append, List.map_replicate, Nat.zero_mod, value_zeros, same]
    exact forall₂_congr fun d _ => Nat.mod_eq_iff_lt (by decide)
  rw [← letters]
  constructor
  · intro back
    have enough := back (List.replicate (width + 1) 0) (by simp; omega)
    rw [read _ (by simp)] at enough
    exact_mod_cast Option.some.inj enough
  · intro same arr inside
    rw [read arr (by omega), same]

theorem hex_round_trip_numerals : (18 : UInt64).toNat < 2 ^ 31 ∧
    ((digits 16 (18 : UInt64).toNat).length : Int) ≤ (4 : Int32).toInt ∧ (4 : Int32).toInt ≤ 20 ∧
    ((∀ arr : List UInt8, (4 : Int32).toInt < arr.length →
        (itoaX 18 arr 4).bind atoiX = some ((18 : UInt64).toNat : Int)) ↔
      ∀ d ∈ digits 16 (18 : UInt64).toNat, d < 10) := by
  have small : (18 : UInt64).toNat < 2 ^ 31 := by decide
  have room : ((digits 16 (18 : UInt64).toNat).length : Int) ≤ (4 : Int32).toInt := by decide
  have fits : (4 : Int32).toInt ≤ 20 := by decide
  exact ⟨small, room, fits, hex_round_trip_iff 18 4 small room fits⟩

theorem hex_round_trip_letter : (10 : UInt64).toNat < 2 ^ 31 ∧
    ((digits 16 (10 : UInt64).toNat).length : Int) ≤ (1 : Int32).toInt ∧ (1 : Int32).toInt ≤ 20 ∧
    (itoaX 10 [1, 1] 1).bind atoiX = some 0 := by
  decide

end RoundTrip

end PaintKernel
