import Mathlib
import PaintKernel.Printf
import PaintKernel.Graphics
import PaintKernel.Library.Buffer
import PaintKernel.Library.Numerals

set_option autoImplicit false

/-! The number printers: `kprint_d` and `kprint_x` of the kernel, the number branches of `printf`
and `gkprint_d`, which draws its digits on the screen. -/

namespace PaintKernel

open Buffer ByteMemory Numerals Output

def digitByte (ten : Char) (d : Nat) : UInt8 :=
  if d < 10 then UInt8.ofNat (d + (byte '0').toNat) else UInt8.ofNat (d - 10 + (byte ten).toNat)

theorem digitByte_lower {d : Nat} (small : d < 16) :
    digitByte 'a' d = UInt8.ofNat d.digitChar.toNat := by
  revert d
  decide

theorem digitText_digits {base : Nat} (proper : 1 < base) (known : base ≤ 16) (n : Nat) :
    digitText base n = (digits base n).map (digitByte 'a') := by
  induction n using Nat.strong_induction_on with
  | _ n ih =>
      have last : UInt8.ofNat (n % base).digitChar.toNat = digitByte 'a' (n % base) :=
        (digitByte_lower ((Nat.mod_lt n (by omega)).trans_le known)).symm
      rw [digitText_eq proper, digits_eq proper, List.map_append, List.map_singleton, last]
      split_ifs with small
      · rfl
      · rw [ih _ (Nat.div_lt_self (by omega) proper)]

section Gkprint

variable {σ : Type}

/-- The first loop of `gkprint_d`: the last counter and the array. Below 0 the counter would wrap to
`2 ^ 64 - 1`, which is no index of the array. -/
def gkprintDFill (value : Nat) (arr : Filled UInt8) : Nat → Option (Nat × Filled UInt8)
  | 0 => do
      let arr ← put arr 0 (UInt8.ofNat (value % 10))
      if value / 10 = 0 then return (0, arr) else none
  | counter + 1 => do
      let arr ← put arr (counter + 1) (UInt8.ofNat (value % 10))
      if value / 10 = 0 then return (counter + 1, arr) else gkprintDFill (value / 10) arr counter

def gkprintDigit (gkprintC : UInt8 → Nat → Nat → Nat → σ → σ) (xPos yPos color counter : Nat)
    (arr : Filled UInt8) (s : σ) (i : Nat) : Option σ := do
  let digit ← fetch arr i
  if 0 ≤ digit.toInt8 ∧ digit.toInt8 ≤ 9 then
    return gkprintC (48 + digit) ((xPos + (i - counter) * 8) % 2 ^ 32) yPos color s
  else return s

def gkprintD (gkprintC : UInt8 → Nat → Nat → Nat → σ → σ) (value : UInt64)
    (xPos yPos color : Nat) (s : σ) :
    Option σ := do
  let filled ← gkprintDFill value.toNat (unfilled 20) 19
  (List.range' filled.1 (20 - filled.1)).foldlM
    (gkprintDigit gkprintC xPos yPos color filled.1 filled.2) s

def Framebuffer.gkprintD (fb : Framebuffer) (beyond : Nat → UInt8) : UInt64 → Nat → Nat → Nat →
    Mem → Option Mem :=
  PaintKernel.gkprintD (fb.gkprintC beyond)

def drawText (gkprintC : UInt8 → Nat → Nat → Nat → σ → σ) (xPos yPos color : Nat)
    (text : List UInt8) (s : σ) : σ :=
  text.zipIdx.foldl (fun s place => gkprintC place.1 ((xPos + 8 * place.2) % 2 ^ 32) yPos color s) s

theorem gkprintDFill_eq (counter value : Nat) (arr : Filled UInt8) (inside : counter < arr.length)
    (room : (digits 10 value).length ≤ counter + 1) :
    gkprintDFill value arr counter = some (counter + 1 - (digits 10 value).length,
      arr.take (counter + 1 - (digits 10 value).length) ++
        ((digits 10 value).map fun d => some (UInt8.ofNat d)) ++ arr.drop (counter + 1)) := by
  induction counter generalizing value arr with
  | zero =>
      have small : value < 10 := by
        simpa using (digits_length_le (by decide) value (by decide)).mp room
      rw [gkprintDFill, put, store_some inside, digits_of_lt (by decide) small,
        Nat.mod_eq_of_lt small]
      simp [Nat.div_eq_of_lt small]
  | succ counter ih =>
      rw [gkprintDFill, put, store_some inside]
      by_cases small : value < 10
      · rw [digits_of_lt (by decide) small, Nat.mod_eq_of_lt small]
        simp [Nat.div_eq_of_lt small]
      · have more : ¬value / 10 = 0 := by omega
        have split : digits 10 value = digits 10 (value / 10) ++ [value % 10] :=
          digits_of_le (by decide) (Nat.not_lt.mp small)
        rw [split, List.length_append, List.length_singleton] at room ⊢
        have front : (arr.take (counter + 1)).length = counter + 1 :=
          List.length_take_of_le (by omega)
        have whole : counter <
            (arr.take (counter + 1) ++ some (UInt8.ofNat (value % 10)) :: arr.drop
              (counter + 2)).length := by
          rw [List.length_append, front]
          omega
        simp only [Option.bind_eq_bind, Option.bind_some, if_neg more]
        rw [ih _ _ whole (by omega), Nat.add_sub_add_right, List.map_append, List.map_singleton,
          List.take_append_of_le_length (by omega), List.take_take, Nat.min_eq_left (by omega),
          List.drop_append_of_le_length (by omega), List.drop_eq_nil_of_le (by omega)]
        simp

theorem gkprintDigit_foldlM (gkprintC : UInt8 → Nat → Nat → Nat → σ → σ)
    (xPos yPos color counter : Nat) (ds : List Nat) (digit : ∀ d ∈ ds, d < 10)
    (front : Filled UInt8) (k : Nat) (start : front.length = counter + k) (s : σ) :
    (List.range' (counter + k) ds.length).foldlM (gkprintDigit gkprintC xPos yPos color counter
        (front ++ ds.map fun d => some (UInt8.ofNat d))) s =
      some (((ds.map (digitByte 'a')).zipIdx k).foldl
        (fun s place => gkprintC place.1 ((xPos + 8 * place.2) % 2 ^ 32) yPos color s) s) := by
  induction ds generalizing front k s with
  | nil => rfl
  | cons d rest ih =>
      rw [List.forall_mem_cons] at digit
      have read : fetch (front ++ (d :: rest).map fun d => some (UInt8.ofNat d)) (counter + k) =
          some (UInt8.ofNat d) := by
        rw [← start]
        exact fetch_append _ _ _
      have drawn : gkprintDigit gkprintC xPos yPos color counter
          (front ++ (d :: rest).map fun d => some (UInt8.ofNat d)) s (counter + k) =
            some (gkprintC (digitByte 'a' d) ((xPos + 8 * k) % 2 ^ 32) yPos color s) := by
        have numeral : ∀ d < 10, (0 ≤ (UInt8.ofNat d).toInt8 ∧ (UInt8.ofNat d).toInt8 ≤ 9) ∧
            48 + UInt8.ofNat d = digitByte 'a' d := by decide
        have at' := numeral d digit.1
        rw [gkprintDigit, read]
        simp only [Option.bind_eq_bind, Option.bind_some]
        rw [if_pos at'.1, at'.2, Nat.add_sub_cancel_left, Nat.mul_comm k]
        rfl
      have whole : front ++ (d :: rest).map (fun d => some (UInt8.ofNat d)) =
          (front ++ [some (UInt8.ofNat d)]) ++ rest.map fun d => some (UInt8.ofNat d) := by simp
      rw [List.length_cons, List.range'_succ, List.foldlM_cons, drawn, Option.bind_eq_bind,
        Option.bind_some, whole, Nat.add_assoc, ih digit.2 _ (k + 1) (by simp [start]; omega)]
      rfl

theorem gkprintD_eq (gkprintC : UInt8 → Nat → Nat → Nat → σ → σ) (value : UInt64)
    (xPos yPos color : Nat) (s : σ) :
    gkprintD gkprintC value xPos yPos color s =
      some (drawText gkprintC xPos yPos color ((digits 10 value.toNat).map (digitByte 'a')) s) := by
  have room : (digits 10 value.toNat).length ≤ 20 :=
    (digits_length_le (by decide) _ (by decide)).mpr (value.toNat_lt.trans (by decide))
  have positive := List.length_pos_of_ne_nil (digits_ne_nil 10 value.toNat)
  have filled := gkprintDFill_eq 19 value.toNat (unfilled 20) (by decide) room
  have front : ((unfilled 20 : Filled UInt8).take (20 - (digits 10 value.toNat).length)).length =
      20 - (digits 10 value.toNat).length + 0 := List.length_take_of_le (by simp [unfilled])
  have back : (unfilled 20 : Filled UInt8).drop 20 = [] := rfl
  rw [gkprintD, filled, back, List.append_nil]
  simp only [Option.bind_eq_bind, Option.bind_some]
  rw [show 20 - (20 - (digits 10 value.toNat).length) = (digits 10 value.toNat).length by omega]
  exact gkprintDigit_foldlM gkprintC xPos yPos color _ _ (digit_lt (by decide) _) _ 0 front s

theorem drawText_sysGwrite (fb : Framebuffer) (beyond : Nat → UInt8) (xPos yPos color : Nat)
    (text : List UInt8) (screen : Mem) :
    drawText (fb.gkprintC beyond) xPos yPos color text screen =
      fb.sysGwrite beyond xPos yPos color (fun i => text.getD i 0) text.length screen := by
  have places : text.zipIdx = (List.range text.length).map fun i => (text.getD i 0, i) := by
    apply List.ext_getElem
    · simp
    · intro i inside _
      rw [List.length_zipIdx] at inside
      simp [inside]
  rw [drawText, places, List.foldl_map, Framebuffer.sysGwrite]

theorem Framebuffer.gkprintD_eq (fb : Framebuffer) (beyond : Nat → UInt8) (value : UInt64)
    (xPos yPos color : Nat) (screen : Mem) :
    fb.gkprintD beyond value xPos yPos color screen =
      some (fb.sysGwrite beyond xPos yPos color (fun i => (digitText 10 value.toNat).getD i 0)
        (digitText 10 value.toNat).length screen) := by
  rw [Framebuffer.gkprintD, PaintKernel.gkprintD_eq, drawText_sysGwrite,
    digitText_digits (by decide) (by decide)]

end Gkprint

/-- All printers print the one numeral of the value without leading zeros, decimal or hexadecimal;
`gkprint_d` stays in its array. -/
theorem number_printers (value : UInt64) :
    ∃ decimal hexadecimal : List Nat,
      (∀ ds, Canonical 10 value.toNat ds ↔ ds = decimal) ∧
        (∀ ds, Canonical 16 value.toNat ds ↔ ds = hexadecimal) ∧
      kprintD value = some (decimal.map (digitByte 'a')) ∧
      printPiece (.dec value) = some (decimal.map (digitByte 'a')) ∧
      (∀ {σ : Type} (gkprintC : UInt8 → Nat → Nat → Nat → σ → σ) (xPos yPos color : Nat) (s : σ),
        gkprintD gkprintC value xPos yPos color s =
          some (drawText gkprintC xPos yPos color (decimal.map (digitByte 'a')) s)) ∧
      kprintX value = some (hexadecimal.map (digitByte 'a')) ∧
      printPiece (.hex value) = some (hexadecimal.map (digitByte 'a')) := by
  have kernel := kprintPiece_prints.exact
  have user := printPiece_prints.exact
  have decimal : digitText 10 value.toNat = (digits 10 value.toNat).map (digitByte 'a') :=
    digitText_digits (by decide) (by decide) _
  have hexadecimal : digitText 16 value.toNat = (digits 16 value.toNat).map (digitByte 'a') :=
    digitText_digits (by decide) (by decide) _
  refine ⟨digits 10 value.toNat, digits 16 value.toNat, canonical_iff (by decide),
    canonical_iff (by decide),
    ?_, ?_, fun gkprintC xPos yPos color s => gkprintD_eq gkprintC value xPos yPos color s, ?_, ?_⟩
  · rw [← decimal]
    exact kernel (.dec value) trivial
  · rw [← decimal]
    exact user (.dec value) trivial
  · rw [← hexadecimal]
    exact kernel (.hex value) trivial
  · rw [← hexadecimal]
    exact user (.hex value) trivial

end PaintKernel
