import Mathlib
import PaintKernel.Library.ByteMemory

set_option autoImplicit false

/-! Pictures stored row by row in byte memory.

A pixel takes `step` bytes, the first `channels` of which are its colour; a row takes `stride`
bytes. Bytes past the last pixel of a row belong to no pixel. -/

namespace Raster

open ByteMemory

structure Layout where
  width : Nat
  step : Nat
  stride : Nat
  channels : Nat
  channels_le : channels ≤ step
  step_pos : 0 < step
  fits : width * step ≤ stride

abbrev Region := Nat → Nat → Prop

def Rectangle (x y width height : Nat) : Region := fun a b =>
  (x ≤ a ∧ a < x + width) ∧ (y ≤ b ∧ b < y + height)

abbrev Picture := Nat → Nat → Nat → UInt8

namespace Layout

variable (r : Layout)

def offset (x y : Nat) : Nat := x * r.step + y * r.stride

def column (n : Nat) : Nat := n % r.stride / r.step
def row (n : Nat) : Nat := n / r.stride
def channel (n : Nat) : Nat := n % r.stride % r.step

def Inside (region : Region) (n : Nat) : Prop :=
  r.column n < r.width ∧ r.channel n < r.channels ∧ region (r.column n) (r.row n)

open Classical in
noncomputable def paint (region : Region) (picture : Picture) (m : Mem) : Mem := fun n =>
  if r.Inside region n then picture (r.column n) (r.row n) (r.channel n) else m n

variable {r} {region other : Region} {picture picture' : Picture} {m : Mem} {x y c n : Nat}

theorem offset_inside (inside : x < r.width) (small : c < r.step) :
    x * r.step + c < r.stride := by
  calc
    x * r.step + c < (x + 1) * r.step := by
      rw [Nat.add_one_mul]
      omega
    _ ≤ r.width * r.step := Nat.mul_le_mul_right _ inside
    _ ≤ r.stride := r.fits

theorem offset_mod (inside : x < r.width) (small : c < r.step) :
    (r.offset x y + c) % r.stride = x * r.step + c := by
  rw [offset, Nat.add_right_comm, Nat.add_mul_mod_self_right,
    Nat.mod_eq_of_lt (offset_inside inside small)]

theorem column_offset (inside : x < r.width) (small : c < r.step) :
    r.column (r.offset x y + c) = x := by
  calc
    r.column (r.offset x y + c) = (r.step * x + c) / r.step := by
      rw [column, offset_mod inside small, Nat.mul_comm]
    _ = x + c / r.step := Nat.mul_add_div r.step_pos x c
    _ = x := by rw [Nat.div_eq_of_lt small, Nat.add_zero]

theorem channel_offset (inside : x < r.width) (small : c < r.step) :
    r.channel (r.offset x y + c) = c := by
  calc
    r.channel (r.offset x y + c) = (r.step * x + c) % r.step := by
      rw [channel, offset_mod inside small, Nat.mul_comm]
    _ = c % r.step := Nat.mul_add_mod _ _ _
    _ = c := Nat.mod_eq_of_lt small

theorem row_offset (inside : x < r.width) (small : c < r.step) :
    r.row (r.offset x y + c) = y := by
  have below := offset_inside inside small
  calc
    r.row (r.offset x y + c) = (x * r.step + c + y * r.stride) / r.stride := by
      rw [row, offset, Nat.add_right_comm]
    _ = (x * r.step + c) / r.stride + y := Nat.add_mul_div_right _ _ (by omega)
    _ = y := by rw [Nat.div_eq_of_lt below, Nat.zero_add]

theorem offset_decode (n : Nat) : r.offset (r.column n) (r.row n) + r.channel n = n := by
  have pixel := Nat.div_add_mod (n % r.stride) r.step
  have line := Nat.div_add_mod n r.stride
  rw [Nat.mul_comm] at pixel line
  unfold offset column row channel
  omega

theorem inside_offset (inside : x < r.width) (small : c < r.channels) :
    r.Inside region (r.offset x y + c) ↔ region x y := by
  have below := lt_of_lt_of_le small r.channels_le
  rw [Inside, column_offset inside below, row_offset inside below, channel_offset inside below]
  exact ⟨fun h => h.2.2, fun h => ⟨inside, small, h⟩⟩

theorem paint_inside (inside : r.Inside region n) :
    r.paint region picture m n = picture (r.column n) (r.row n) (r.channel n) := if_pos inside

theorem paint_outside (outside : ¬ r.Inside region n) : r.paint region picture m n = m n :=
  if_neg outside

theorem paint_offset (inside : x < r.width) (small : c < r.channels) (painted : region x y) :
    r.paint region picture m (r.offset x y + c) = picture x y c := by
  have below := lt_of_lt_of_le small r.channels_le
  rw [paint_inside ((inside_offset inside small).mpr painted), column_offset inside below,
    row_offset inside below, channel_offset inside below]

theorem paint_empty (empty : ∀ x y, x < r.width → ¬ region x y) : r.paint region picture m = m := by
  funext n
  exact paint_outside (fun inside => empty _ _ inside.1 inside.2.2)

theorem paint_congr (same : ∀ x y, x < r.width → (region x y ↔ other x y))
    (agree : ∀ x y c, x < r.width → region x y → c < r.channels → picture x y c = picture' x y c) :
    r.paint region picture m = r.paint other picture' m := by
  funext n
  by_cases inside : r.Inside region n
  · rw [paint_inside inside, paint_inside ⟨inside.1, inside.2.1, (same _ _ inside.1).mp inside.2.2⟩]
    exact agree _ _ _ inside.1 inside.2.2 inside.2.1
  · rw [paint_outside inside, paint_outside]
    exact fun there => inside ⟨there.1, there.2.1, (same _ _ there.1).mpr there.2.2⟩

theorem paint_paint : r.paint region picture (r.paint other picture m) =
    r.paint (fun x y => other x y ∨ region x y) picture m := by
  funext n
  by_cases inside : r.Inside region n
  · rw [paint_inside inside, paint_inside ⟨inside.1, inside.2.1, .inr inside.2.2⟩]
  · rw [paint_outside inside]
    by_cases there : r.Inside other n
    · rw [paint_inside there, paint_inside ⟨there.1, there.2.1, .inl there.2.2⟩]
    · rw [paint_outside there, paint_outside]
      rintro ⟨column, channel, here | here⟩
      · exact there ⟨column, channel, here⟩
      · exact inside ⟨column, channel, here⟩

/-- A loop whose steps each paint a part of one picture. -/
theorem paint_foldl {A : Type} (parts : List A) (part : A → Region) (body : Mem → A → Mem)
    (paints : ∀ m, ∀ a ∈ parts, body m a = r.paint (part a) picture m) (m : Mem) :
    parts.foldl body m = r.paint (fun x y => ∃ a ∈ parts, part a x y) picture m := by
  induction parts generalizing m with
  | nil => exact (paint_empty (by simp)).symm
  | cons a rest ih =>
      rw [List.foldl_cons, ih (fun m b member => paints m b (by simp [member])),
        paints m a (by simp), paint_paint]
      exact paint_congr (by simp) (fun _ _ _ _ _ _ => rfl)

theorem paint_grid (x y width height : Nat) (body : Nat → Nat → Mem → Mem)
    (paints : ∀ i < width, ∀ j < height, ∀ m,
      body i j m = r.paint (fun a b => a = x + i ∧ b = y + j) picture m) (m : Mem) :
    (List.range width).foldl (fun m i => (List.range height).foldl (fun m j => body i j m) m) m =
      r.paint (Rectangle x y width height) picture m := by
  have column : ∀ m, ∀ i ∈ List.range width, (List.range height).foldl (fun m j => body i j m) m =
      r.paint (fun a b => a = x + i ∧ (y ≤ b ∧ b < y + height)) picture m := by
    intro m i member
    rw [paint_foldl _ (fun j a b => a = x + i ∧ b = y + j) _
      (fun m j inside => paints i (List.mem_range.mp member) j (List.mem_range.mp inside) m)]
    refine paint_congr ?_ (fun _ _ _ _ _ _ => rfl)
    intro a b _
    simp only [List.mem_range]
    constructor
    · rintro ⟨j, short, rfl, rfl⟩
      omega
    · rintro ⟨rfl, rows⟩
      exact ⟨b - y, by omega, rfl, by omega⟩
  rw [paint_foldl _ (fun i a b => a = x + i ∧ (y ≤ b ∧ b < y + height)) _ column]
  refine paint_congr ?_ (fun _ _ _ _ _ _ => rfl)
  intro a b _
  simp only [List.mem_range, Rectangle]
  constructor
  · rintro ⟨i, narrow, rfl, rows⟩
    omega
  · rintro ⟨columns, rows⟩
    exact ⟨a - x, by omega, by omega, rows⟩

/-- Two paintings commute at every byte where one leaves what the other sets. -/
theorem paint_comm_iff :
    r.paint region picture (r.paint other picture' m) n =
        r.paint other picture' (r.paint region picture m) n ↔
      (r.Inside region n → r.Inside other n →
        picture (r.column n) (r.row n) (r.channel n) =
          picture' (r.column n) (r.row n) (r.channel n)) := by
  by_cases here : r.Inside region n <;> by_cases there : r.Inside other n
  · simp [paint_inside here, paint_inside there, here, there]
  · simp [paint_inside here, paint_outside there, there]
  · simp [paint_outside here, paint_inside there, here]
  · simp [paint_outside here, paint_outside there, here]

end Layout

end Raster
