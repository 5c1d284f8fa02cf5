import Mathlib
import PaintKernel.Cursor

set_option autoImplicit false

/-! Text in graphics mode: which bytes `sys_gwrite` changes, for every position. -/

namespace PaintKernel

open ByteMemory Raster

def glyphBit (c : UInt8) (w h : Nat) : Bool := ((letters.getD c.toNat []).getD h 0).toNat.testBit w

section Stores

variable (fb : Framebuffer) (beyond : Nat → UInt8) (x y color : Nat)

theorem drawPixel_blind (r g b : UInt8) : Blind (fb.drawPixel x y r g b) :=
  ((store_blind _ b).andThen (store_blind _ g)).andThen (store_blind _ r)

theorem drawPixel_overwrites (r g b : UInt8) :
    Overwrites (fb.drawPixel x y r g b) ((x * (fb.bpp / 8) + y * fb.pitch) % 2 ^ 32) :=
  ((store_overwrites _ b).before (store_blind _ g)).before (store_blind _ r)

theorem gkprintC_blind (c : UInt8) : Blind (fb.gkprintC beyond c x y color) :=
  blind_foldl (fun _ => blind_foldl (fun _ => drawPixel_blind fb _ _ _ _ _) _) _

theorem gkprintC_overwrites (c : UInt8) {w h : Nat} (narrow : w < 8) (short : h < 8) :
    Overwrites (fb.gkprintC beyond c x y color)
      (((w + x) % 2 ^ 32 * (fb.bpp / 8) + (h + y) % 2 ^ 32 * fb.pitch) % 2 ^ 32) := by
  refine overwrites_foldl (fun _ => blind_foldl (fun _ => drawPixel_blind fb _ _ _ _ _) _)
    (List.mem_range.mpr narrow) ?_
  exact overwrites_foldl (fun _ => drawPixel_blind fb _ _ _ _ _) (List.mem_range.mpr short)
    (drawPixel_overwrites fb _ _ _ _ _)

theorem sysGwrite_overwrites (arr : Nat → UInt8) {i w h size : Nat} (inside : i < size)
    (narrow : w < 8) (short : h < 8) :
    Overwrites (fb.sysGwrite beyond x y color arr size)
      (((w + (x + 8 * i) % 2 ^ 32) % 2 ^ 32 * (fb.bpp / 8) + (h + y) % 2 ^ 32 * fb.pitch) %
        2 ^ 32) :=
  overwrites_foldl (fun _ => gkprintC_blind fb beyond _ _ _ _) (List.mem_range.mpr inside)
    (gkprintC_overwrites fb beyond _ _ _ _ narrow short)

end Stores

def Framebuffer.TextByte (fb : Framebuffer) (x y size n : Nat) : Prop :=
  ∃ i < size, ∃ w < 8, ∃ h < 8, ∃ c < 3, x + 8 * i + w < fb.width ∧ y + h < fb.height ∧
    n = fb.layout.offset (x + 8 * i + w) (y + h) + c

/-- The pixels of the text on the screen show its glyphs, no other byte changes and the bytes of the
text are indices of the font. -/
structure Framebuffer.TextExact (fb : Framebuffer) (beyond : Nat → UInt8) (x y color : UInt32)
    (arr : Nat → UInt8) (size : Nat) : Prop where
  drawn : ∀ screen, ∀ i < size, ∀ w < 8, ∀ h < 8, x.toNat + 8 * i + w < fb.width →
    y.toNat + h < fb.height →
    ∀ c < 3, fb.sysGwrite beyond x.toNat y.toNat color.toNat arr size screen
        (fb.layout.offset (x.toNat + 8 * i + w) (y.toNat + h) + c) =
      if glyphBit (arr i) w h then channels (red color.toNat) (green color.toNat)
        (blue color.toNat) c else 0
  kept : ∀ screen n, ¬fb.TextByte x.toNat y.toNat size n →
    fb.sysGwrite beyond x.toNat y.toNat color.toNat arr size screen n = screen n
  table : ∀ i < size, (arr i).toNat < letters.length

section Exact

variable {fb : Framebuffer} {beyond : Nat → UInt8} {arr : Nat → UInt8} {size : Nat}

theorem text_off_screen {x y color : Nat} {w h i : Nat} (inside : i < size) (narrow : w < 8)
    (short : h < 8) (other : ¬fb.TextByte x y size
      (((w + (x + 8 * i) % 2 ^ 32) % 2 ^ 32 * (fb.bpp / 8) + (h + y) % 2 ^ 32 * fb.pitch) %
        2 ^ 32)) :
    ∃ screen n, ¬fb.TextByte x y size n ∧ fb.sysGwrite beyond x y color arr size screen n ≠
      screen n := by
  obtain ⟨screen, changed⟩ :=
    (sysGwrite_overwrites fb beyond x y color arr inside narrow short).changes
  exact ⟨screen, _, other, changed⟩

theorem pixel_offset {x y w h i : Nat} (column : x + 8 * i + w ≤ fb.width) (row : y + h ≤ fb.height)
    (size : fb.layout.offset (x + 8 * i + w) (y + h) < 2 ^ 32) :
    ((w + (x + 8 * i) % 2 ^ 32) % 2 ^ 32 * (fb.bpp / 8) + (h + y) % 2 ^ 32 * fb.pitch) % 2 ^ 32 =
      fb.layout.offset (x + 8 * i + w) (y + h) := by
  have widths := fb.width_lt
  have heights := fb.height_lt
  have columns : (w + (x + 8 * i) % 2 ^ 32) % 2 ^ 32 = x + 8 * i + w := by omega
  have rows : (h + y) % 2 ^ 32 = y + h := by omega
  rw [columns, rows]
  exact Nat.mod_eq_of_lt size

/-- Text that is not all on the screen changes a byte that is not its own. -/
theorem text_spills {x y color : Nat} (some' : 0 < size)
    (off : fb.width < x + 8 * size ∨ fb.height < y + 8) :
    ∃ screen n, ¬fb.TextByte x y size n ∧ fb.sysGwrite beyond x y color arr size screen n ≠
      screen n := by
  have area := fb.size_lt
  have line : fb.width * (fb.bpp / 8) ≤ fb.pitch := fb.row_fits
  by_cases outside : fb.width ≤ x ∨ fb.height ≤ y
  · -- Nothing of the text is on the screen.
    refine text_off_screen (i := 0) (w := 0) (h := 0) some' (by omega) (by omega) ?_
    rintro ⟨i, _, w, _, h, _, c, _, column, row, _⟩
    omega
  · rw [not_or, Nat.not_le, Nat.not_le] at outside
    by_cases tall : y + 8 ≤ fb.height
    · -- The first pixel to the right of the screen, in the last row of the text.
      have right : x + 8 * ((fb.width - x) / 8) + (fb.width - x) % 8 = fb.width := by omega
      have rows : (y + 7 + 1) * fb.pitch ≤ fb.height * fb.pitch := Nat.mul_le_mul_right _ tall
      rw [Nat.add_one_mul] at rows
      have small : fb.layout.offset fb.width (y + 7) < 2 ^ 32 := by
        change fb.width * (fb.bpp / 8) + (y + 7) * fb.pitch < 2 ^ 32
        omega
      refine text_off_screen (i := (fb.width - x) / 8) (w := (fb.width - x) % 8) (h := 7)
        (by omega) (by omega)
        (by omega) ?_
      rw [pixel_offset right.le (by omega) (by rwa [right]), right]
      rintro ⟨i, _, w, _, h, short, c, small, column, _, same⟩
      have pixel : (x + 8 * i + w + 1) * (fb.bpp / 8) ≤ fb.width * (fb.bpp / 8) :=
        Nat.mul_le_mul_right _ column
      have step := three_le_step fb
      have above : (y + h) * fb.pitch ≤ (y + 7) * fb.pitch := Nat.mul_le_mul_right _ (by omega)
      rw [Nat.add_one_mul] at pixel
      change fb.width * (fb.bpp / 8) + (y + 7) * fb.pitch =
        (x + 8 * i + w) * (fb.bpp / 8) + (y + h) * fb.pitch + c at same
      omega
    · -- The first pixel below the screen, in the first column of the text.
      have bottom : y + (fb.height - y) = fb.height := by omega
      have column : x * (fb.bpp / 8) ≤ fb.width * (fb.bpp / 8) :=
        Nat.mul_le_mul_right _ outside.1.le
      have rows : 1 * fb.pitch ≤ fb.height * fb.pitch := Nat.mul_le_mul_right _ (by omega)
      have small : fb.layout.offset (x + 8 * 0 + 0) (y + (fb.height - y)) < 2 ^ 32 := by
        rw [bottom]
        change x * (fb.bpp / 8) + fb.height * fb.pitch < 2 ^ 32
        omega
      refine text_off_screen (i := 0) (w := 0) (h := fb.height - y) some' (by omega) (by omega) ?_
      rw [pixel_offset (by omega) bottom.le small, bottom]
      rintro ⟨i, _, w, _, h, _, c, small, column, row, same⟩
      have last := offset_lt column row
      change x * (fb.bpp / 8) + fb.height * fb.pitch = _ at same
      omega

theorem glyph_color {c : UInt8} (known : c.toNat < letters.length) (w h color k : Nat) :
    channels (UInt8.ofNat (multiplier beyond c w h * (red color).toNat))
        (UInt8.ofNat (multiplier beyond c w h * (green color).toNat))
        (UInt8.ofNat (multiplier beyond c w h * (blue color).toNat)) k =
      if glyphBit c w h then channels (red color) (green color) (blue color) k else 0 := by
  have table : letter beyond c h = (letters.getD c.toNat []).getD h 0 :=
    if_pos (UInt8.lt_iff_toNat_lt.mpr known)
  rw [multiplier, table, shifted_bit]
  change channels (UInt8.ofNat ((glyphBit c w h).toNat * _))
    (UInt8.ofNat ((glyphBit c w h).toNat * _))
    (UInt8.ofNat ((glyphBit c w h).toNat * _)) k = _
  cases glyphBit c w h with
  | false =>
      rw [Bool.toNat_false, Nat.zero_mul, Nat.zero_mul, Nat.zero_mul, if_neg Bool.false_ne_true]
      rcases k with _ | _ | k <;> rfl
  | true => simp only [Bool.toNat_true, Nat.one_mul, UInt8.ofNat_toNat, if_true]

theorem not_textExact {x y color : UInt32} (some' : 0 < size)
    (off : fb.width < x.toNat + 8 * size ∨ fb.height < y.toNat + 8) :
    ¬fb.TextExact beyond x y color arr size := by
  intro exact'
  obtain ⟨screen, n, other, changed⟩ : ∃ screen n, ¬fb.TextByte x.toNat y.toNat size n ∧
      fb.sysGwrite beyond x.toNat y.toNat color.toNat arr size screen n ≠ screen n :=
        text_spills some' off
  exact changed (exact'.kept screen n other)

theorem text_on_screen {x y color : UInt32} (columns : x.toNat + 8 * size ≤ fb.width)
    (rows : y.toNat + 8 ≤ fb.height) (font : ∀ i < size, (arr i).toNat < letters.length) :
    fb.TextExact beyond x y color arr size := by
  have visible : fb.Shows (Rectangle x.toNat y.toNat (8 * size) 8) := by
    rintro a b ⟨⟨_, right⟩, _, bottom⟩
    omega
  refine ⟨fun screen i inside w narrow h short column row c small => ?_,
    fun screen n other => ?_, font⟩
  · have region : Rectangle x.toNat y.toNat (8 * size) 8 (x.toNat + 8 * i + w) (y.toNat + h) :=
      ⟨⟨by omega, by omega⟩, by omega, by omega⟩
    have place : (x.toNat + 8 * i + w - x.toNat) / 8 = i ∧
        (x.toNat + 8 * i + w - x.toNat) % 8 = w := by omega
    rw [sysGwrite_paint visible, Layout.paint_offset column small region, textPicture,
      place.1, place.2, Nat.add_sub_cancel_left, glyph_color (font i inside)]
  · rw [sysGwrite_paint visible, Layout.paint_outside]
    rintro ⟨column, channel, ⟨left, right⟩, top, bottom⟩
    have place : x.toNat + 8 * ((fb.layout.column n - x.toNat) / 8) +
        (fb.layout.column n - x.toNat) % 8 =
        fb.layout.column n := by omega
    have line : y.toNat + (fb.layout.row n - y.toNat) = fb.layout.row n := by omega
    refine other ⟨(fb.layout.column n - x.toNat) / 8, by omega,
      (fb.layout.column n - x.toNat) % 8, by omega,
      fb.layout.row n - y.toNat, by omega, fb.layout.channel n, channel, ?_, ?_, ?_⟩
    · rw [place]
      exact column
    · omega
    · rw [place, line, Layout.offset_decode]

/-- Text is drawn exactly if it is empty or all on the screen, and has characters of the font only.
-/
theorem text_exact_iff (fb : Framebuffer) (beyond : Nat → UInt8) (x y color : UInt32)
    (arr : Nat → UInt8) (size : Nat) :
    fb.TextExact beyond x y color arr size ↔
      (size = 0 ∨ (x.toNat + 8 * size ≤ fb.width ∧ y.toNat + 8 ≤ fb.height)) ∧
        ∀ i < size, (arr i).toNat < 128 := by
  have length : letters.length = 128 := rfl
  constructor
  · intro exact'
    refine ⟨?_, fun i inside => (exact'.table i inside).trans_eq length⟩
    by_contra off
    exact not_textExact (by omega) (by omega) exact'
  · rintro ⟨rfl | ⟨columns, rows⟩, font⟩
    · refine ⟨fun _ i inside => absurd inside (Nat.not_lt_zero i), fun _ _ _ => rfl,
        fun i inside => ?_⟩
      exact absurd inside (Nat.not_lt_zero i)
    · exact text_on_screen columns rows fun i inside => (font i inside).trans_eq length.symm

/-- An A to the right of the screen; its first column comes out in the first column of the screen.
-/
theorem text_right_of_screen :
    ¬squareScreen.TextExact (fun _ => 0) 200 0 0xFFFFFF (fun _ => 65) 1 :=
  not_textExact Nat.one_pos (Or.inl (by decide))

end Exact

end PaintKernel
