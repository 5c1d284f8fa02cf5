import Mathlib
import PaintKernel.Font
import PaintKernel.Library.Raster

set_option autoImplicit false

/-! Drawing into the framebuffer. -/

namespace PaintKernel

open ByteMemory Raster

/-- The fields of `global_framebuffer` that the kernel reads, for a picture that fits its rows
and offsets that fit `int`. -/
structure Framebuffer where
  width : Nat
  height : Nat
  pitch : Nat
  bpp : Nat
  depth : bpp = 24 ∨ bpp = 32
  row_fits : width * (bpp / 8) ≤ pitch
  size_lt : height * pitch < 2 ^ 31
  width_lt : width < 2 ^ 16
  height_lt : height < 2 ^ 16

def red (color : Nat) : UInt8 := UInt8.ofNat ((color &&& 0xFF0000) >>> 16)
def green (color : Nat) : UInt8 := UInt8.ofNat ((color &&& 0x00FF00) >>> 8)
def blue (color : Nat) : UInt8 := UInt8.ofNat (color &&& 0x0000FF)

def putPixel (screen : Mem) (pixel : Nat) (r g b : UInt8) : Mem :=
  store (store (store screen pixel b) (pixel + 1) g) (pixel + 2) r

def loopValues (first bound step : Nat) : List Nat :=
  List.range' first ((bound - first + step - 1) / step) step

/-- One bit of a glyph, 0 or 1. The row is a `char`, but its sign extension is masked out. -/
def multiplier (beyond : Nat → UInt8) (c : UInt8) (w h : Nat) : Nat :=
  ((letter beyond c h).toNat &&& 2 ^ w) >>> w

theorem shifted_bit (n i : Nat) : (n &&& 2 ^ i) >>> i = (n.testBit i).toNat := by
  rw [Nat.and_two_pow, Nat.shiftRight_eq_div_pow, Nat.mul_div_cancel _ (Nat.two_pow_pos i)]

namespace Framebuffer

variable (fb : Framebuffer)

def pixelwidth : Nat := fb.bpp / 8

/-- Coordinates and offsets are `uint32_t` here. -/
def drawPixel (x y : Nat) (r g b : UInt8) (screen : Mem) : Mem :=
  let pixel := x * (fb.bpp / 8) + y * fb.pitch
  store (store (store screen (pixel % 2 ^ 32) b) ((pixel + 1) % 2 ^ 32) g) ((pixel + 2) % 2 ^ 32) r

def kdrawRectangle (x y width height color : Nat) (screen : Mem) : Mem :=
  if x ≥ fb.width ∨ y ≥ fb.height then screen
  else
    let width := if (x + width) % 2 ^ 32 ≥ fb.width then fb.width - x else width
    let height := if (y + height) % 2 ^ 32 ≥ fb.height then fb.height - y else height
    let rows := loopValues (y * fb.pitch % 2 ^ 32)
      ((y + height) % 2 ^ 32 * fb.pitch % 2 ^ 32) fb.pitch
    let columns := loopValues (x * fb.pixelwidth % 2 ^ 32)
      ((x + width) % 2 ^ 32 * fb.pixelwidth % 2 ^ 32) fb.pixelwidth
    rows.foldl (fun screen row => columns.foldl (fun screen column =>
      putPixel screen (column + row) (red color) (green color) (blue color)) screen) screen

def sysDrawRectangle (x y width height color : Nat) (screen : Mem) : Mem :=
  if width = 1 ∧ height = 1 then fb.drawPixel x y (red color) (green color) (blue color) screen
  else fb.kdrawRectangle x y width height color screen

def gkprintC (beyond : Nat → UInt8) (c : UInt8) (x y color : Nat) (screen : Mem) : Mem :=
  (List.range 8).foldl (fun screen w => (List.range 8).foldl (fun screen h =>
    let multiplier := multiplier beyond c w h
    fb.drawPixel ((w + x) % 2 ^ 32) ((h + y) % 2 ^ 32)
      (UInt8.ofNat (multiplier * (red color).toNat))
      (UInt8.ofNat (multiplier * (green color).toNat))
        (UInt8.ofNat (multiplier * (blue color).toNat))
      screen) screen) screen

def sysGwrite (beyond : Nat → UInt8) (x y color : Nat) (arr : Nat → UInt8) (size : Nat)
    (screen : Mem) : Mem :=
  (List.range size).foldl (fun screen i =>
    fb.gkprintC beyond (arr i) ((x + 8 * i) % 2 ^ 32) y color screen) screen

def layout : Layout where
  width := fb.width
  step := fb.bpp / 8
  stride := fb.pitch
  channels := 3
  channels_le := by
    have := fb.depth
    omega
  step_pos := by
    have := fb.depth
    omega
  fits := fb.row_fits

end Framebuffer

def channels (r g b : UInt8) : Nat → UInt8
  | 0 => b
  | 1 => g
  | _ => r

def solid (color : Nat) : Picture := fun _ _ => channels (red color) (green color) (blue color)

/-- How much of `size` is drawn from `first` on; a sum that wraps is below `first`. -/
def clippedSize (first size limit : Nat) : Nat :=
  if first + size < 2 ^ 32 then min size (limit - first) else 0

section Loops

variable {first bound step n : Nat}

theorem loopValues_eq (pos : 0 < step) :
    loopValues (first * step) (bound * step) step =
      List.range' (first * step) (bound - first) step := by
  have count : (bound * step - first * step + step - 1) / step = bound - first := by
    rw [← Nat.sub_mul, Nat.add_sub_assoc pos, Nat.mul_comm, Nat.mul_add_div pos,
      Nat.div_eq_of_lt (by omega), Nat.add_zero]
  rw [loopValues, count]

theorem loopValues_size (pos : 0 < step) :
    loopValues (first * step) (bound * step) step =
      loopValues (first * step) ((first + (bound - first)) * step) step := by
  rw [loopValues_eq pos, loopValues_eq pos, Nat.add_sub_cancel_left]

theorem mem_loopValues (pos : 0 < step) :
    n ∈ loopValues (first * step) (bound * step) step ↔ ∃ i, (first ≤ i ∧ i < bound) ∧
      n = i * step := by
  rw [loopValues_eq pos, List.mem_range']
  constructor
  · rintro ⟨i, below, rfl⟩
    exact ⟨first + i, by omega, by ring⟩
  · rintro ⟨i, within, rfl⟩
    refine ⟨i - first, by omega, ?_⟩
    rw [Nat.mul_comm step, ← Nat.add_mul]
    congr 1
    omega

theorem loopValues_empty (pos : 0 < step) : loopValues bound bound step = [] := by
  rw [loopValues, Nat.sub_self, Nat.zero_add, Nat.div_eq_of_lt (Nat.sub_lt pos Nat.one_pos),
    List.range'_zero]

end Loops

section Paint

variable {fb : Framebuffer} {x y width height color right bottom first size limit : Nat}
  {screen : Mem}

theorem three_le_step (fb : Framebuffer) : 3 ≤ fb.bpp / 8 := fb.layout.channels_le

theorem putPixel_paint (picture : Picture) (r g b : UInt8) (inside : x < fb.width)
    (colour : ∀ c, c < 3 → picture x y c = channels r g b c) :
    putPixel screen (fb.layout.offset x y) r g b =
      fb.layout.paint (fun a b => a = x ∧ b = y) picture screen := by
  funext n
  by_cases here : fb.layout.Inside (fun a b => a = x ∧ b = y) n
  · have place := fb.layout.offset_decode n
    rcases here with ⟨within, channel, column, row⟩
    rw [Layout.paint_inside ⟨within, channel, column, row⟩, column, row, colour _ channel]
    rw [column, row] at place
    generalize fb.layout.channel n = c at place channel
    subst place
    simp only [putPixel, store, channels]
    change c < 3 at channel
    interval_cases c <;> simp
  · have other : ∀ c < 3, n ≠ fb.layout.offset x y + c := by
      rintro c small rfl
      exact here ((Layout.inside_offset (r := fb.layout) inside small).mpr ⟨rfl, rfl⟩)
    rw [Layout.paint_outside here]
    simp only [putPixel, store]
    rw [if_neg (other 2 (by decide)), if_neg (other 1 (by decide)),
      if_neg (by simpa using other 0 (by decide))]

theorem offset_lt (inside : x < fb.width) (below : y < fb.height) :
    fb.layout.offset x y + 3 ≤ fb.height * fb.pitch := by
  have fits := Layout.offset_inside (r := fb.layout) (c := 2) inside
    (lt_of_lt_of_le (by decide) (three_le_step fb))
  have rows : (y + 1) * fb.pitch ≤ fb.height * fb.pitch := Nat.mul_le_mul_right _ below
  rw [Nat.add_one_mul] at rows
  simp only [Framebuffer.layout, Layout.offset] at fits ⊢
  omega

theorem drawPixel_paint (picture : Picture) (r g b : UInt8) (inside : x < fb.width)
    (below : y < fb.height) (colour : ∀ c, c < 3 → picture x y c = channels r g b c) :
    fb.drawPixel x y r g b screen = fb.layout.paint (fun a b => a = x ∧ b = y) picture screen := by
  rw [← putPixel_paint picture r g b inside colour]
  have last := offset_lt inside below
  have size := fb.size_lt
  have place : fb.layout.offset x y = x * (fb.bpp / 8) + y * fb.pitch := rfl
  simp only [Framebuffer.drawPixel, putPixel, ← place]
  rw [Nat.mod_eq_of_lt (by omega), Nat.mod_eq_of_lt (by omega), Nat.mod_eq_of_lt (by omega)]

theorem pixelwidth_pos : 0 < fb.pixelwidth := fb.layout.step_pos

theorem columns_paint {w b : Nat} (inside : x + w ≤ fb.width) (screen : Mem) :
    (loopValues (x * fb.pixelwidth) ((x + w) * fb.pixelwidth) fb.pixelwidth).foldl
        (fun screen column =>
          putPixel screen (column + b * fb.pitch) (red color) (green color) (blue color)) screen =
      fb.layout.paint (fun a b' => (x ≤ a ∧ a < x + w) ∧ b' = b) (solid color) screen := by
  rw [Layout.paint_foldl (r := fb.layout) _ (fun column a b' =>
    column = a * fb.pixelwidth ∧ b' = b)]
  · refine Layout.paint_congr ?_ (fun _ _ _ _ _ _ => rfl)
    intro a b' _
    simp only [mem_loopValues pixelwidth_pos]
    constructor
    · rintro ⟨_, ⟨i, within, rfl⟩, same, rfl⟩
      rw [Nat.eq_of_mul_eq_mul_right pixelwidth_pos same] at within
      exact ⟨within, rfl⟩
    · rintro ⟨within, rfl⟩
      exact ⟨_, ⟨a, within, rfl⟩, rfl, rfl⟩
  · intro m column member
    rcases (mem_loopValues pixelwidth_pos).mp member with ⟨a, within, rfl⟩
    have pixel : a * fb.pixelwidth + b * fb.pitch = fb.layout.offset a b := rfl
    rw [pixel, putPixel_paint (solid color) _ _ _ (by omega) (fun _ _ => rfl)]
    refine Layout.paint_congr ?_ (fun _ _ _ _ _ _ => rfl)
    intro a' b' _
    rw [Nat.mul_left_inj pixelwidth_pos.ne', eq_comm]

theorem rows_paint {w h : Nat} (inside : x + w ≤ fb.width) (pitch_pos : 0 < fb.pitch)
    (screen : Mem) :
    (loopValues (y * fb.pitch) ((y + h) * fb.pitch) fb.pitch).foldl (fun screen row =>
        (loopValues (x * fb.pixelwidth) ((x + w) * fb.pixelwidth) fb.pixelwidth).foldl
          (fun screen column =>
            putPixel screen (column + row) (red color) (green color) (blue color)) screen) screen =
      fb.layout.paint (Rectangle x y w h) (solid color) screen := by
  rw [Layout.paint_foldl (r := fb.layout) _ (fun row a b => (x ≤ a ∧ a < x + w) ∧
    row = b * fb.pitch)]
  · refine Layout.paint_congr ?_ (fun _ _ _ _ _ _ => rfl)
    intro a b _
    simp only [mem_loopValues pitch_pos, Rectangle]
    constructor
    · rintro ⟨_, ⟨i, within, rfl⟩, columns, same⟩
      rw [Nat.eq_of_mul_eq_mul_right pitch_pos same] at within
      exact ⟨columns, within⟩
    · rintro ⟨columns, within⟩
      exact ⟨_, ⟨b, within, rfl⟩, columns, rfl⟩
  · intro m row member
    rcases (mem_loopValues pitch_pos).mp member with ⟨b, within, rfl⟩
    rw [columns_paint inside]
    refine Layout.paint_congr ?_ (fun _ _ _ _ _ _ => rfl)
    intro a b' _
    rw [Nat.mul_left_inj pitch_pos.ne', eq_comm (a := b)]

theorem pitch_pos (inside : x < fb.width) : 0 < fb.pitch := by
  have pixel := three_le_step fb
  have line := Nat.mul_le_mul_right (fb.bpp / 8) (show 1 ≤ fb.width by omega)
  have fits := fb.row_fits
  omega

/-- Where a loop stops, after the clipping and both wraps. -/
theorem clipped_end (inside : first < limit) (narrow : limit < 2 ^ 16) (word : size < 2 ^ 32) :
    (first + if (first + size) % 2 ^ 32 ≥ limit then limit - first else size) % 2 ^ 32 ≤ limit ∧
      (first + if (first + size) % 2 ^ 32 ≥ limit then limit - first else size) % 2 ^ 32 - first =
        clippedSize first size limit := by
  unfold clippedSize
  split_ifs <;> constructor <;> omega

theorem offsets_small (inside : x < fb.width) (below : y < fb.height) (wide : right ≤ fb.width)
    (tall : bottom ≤ fb.height) :
    (y * fb.pitch < 2 ^ 31 ∧ bottom * fb.pitch < 2 ^ 31) ∧
      x * fb.pixelwidth < 2 ^ 31 ∧ right * fb.pixelwidth < 2 ^ 31 := by
  have size := fb.size_lt
  have rowStart := Nat.mul_le_mul_right fb.pitch (Nat.le_of_lt below)
  have rowEnd := Nat.mul_le_mul_right fb.pitch tall
  have columnStart := Nat.mul_le_mul_right fb.pixelwidth (Nat.le_of_lt inside)
  have columnEnd := Nat.mul_le_mul_right fb.pixelwidth wide
  have line := Nat.mul_le_mul_right fb.pitch (show 1 ≤ fb.height by omega)
  have fits : fb.width * fb.pixelwidth ≤ fb.pitch := fb.row_fits
  omega

theorem clippedSize_le (inside : first < limit) : first + clippedSize first size limit ≤ limit := by
  unfold clippedSize
  split <;> omega

/-- Whatever its size is, the rectangle is painted as far as it is clipped. -/
theorem kdrawRectangle_region (inside : x < fb.width) (below : y < fb.height)
    (wide : width < 2 ^ 32) (tall : height < 2 ^ 32) :
    fb.kdrawRectangle x y width height color screen =
      fb.layout.paint (Rectangle x y (clippedSize x width fb.width)
        (clippedSize y height fb.height)) (solid color) screen := by
  rcases clipped_end inside fb.width_lt wide with ⟨right, columns⟩
  rcases clipped_end below fb.height_lt tall with ⟨bottom, rows⟩
  rcases offsets_small inside below right bottom with ⟨⟨rowStart, rowEnd⟩, columnStart, columnEnd⟩
  have onScreen : ¬ (x ≥ fb.width ∨ y ≥ fb.height) := by omega
  have int : ∀ n, n < 2 ^ 31 → n % 2 ^ 32 = n :=
    fun n small => Nat.mod_eq_of_lt (Nat.lt_trans small (by omega))
  rw [Framebuffer.kdrawRectangle, if_neg onScreen]
  dsimp only
  rw [int _ rowStart, int _ rowEnd, int _ columnStart, int _ columnEnd,
    loopValues_size (pitch_pos inside), rows, loopValues_size pixelwidth_pos, columns]
  exact rows_paint (clippedSize_le inside) (pitch_pos inside) screen

theorem kdrawRectangle_paint (wide : x + width < 2 ^ 32) (tall : y + height < 2 ^ 32) :
    fb.kdrawRectangle x y width height color screen =
      fb.layout.paint (fun a b => Rectangle x y width height a b ∧
        b < fb.height) (solid color) screen := by
  by_cases onScreen : x < fb.width ∧ y < fb.height
  · rw [kdrawRectangle_region onScreen.1 onScreen.2 (by omega) (by omega), clippedSize, clippedSize,
      if_pos wide, if_pos tall]
    apply Layout.paint_congr
    · intro a b inside
      change a < fb.width at inside
      unfold Rectangle
      omega
    · exact fun _ _ _ _ _ _ => rfl
  · have off : x ≥ fb.width ∨ y ≥ fb.height := by omega
    rw [Framebuffer.kdrawRectangle, if_pos off]
    apply (Layout.paint_empty _).symm
    rintro a b inside ⟨⟨columns, rows⟩, visible⟩
    change a < fb.width at inside
    omega

/-- An empty rectangle draws nothing, wherever it is. -/
theorem kdrawRectangle_empty (empty : width = 0 ∨ height = 0) :
    fb.kdrawRectangle x y width height color screen = screen := by
  unfold Framebuffer.kdrawRectangle
  split
  · rfl
  · rename_i on
    rw [not_or, Nat.not_le, Nat.not_le] at on
    rcases on with ⟨inside, below⟩
    have widths := fb.width_lt
    have heights := fb.height_lt
    rcases empty with rfl | rfl
    · have none : ¬ x ≥ fb.width := by omega
      have word : x % 2 ^ 32 = x := by omega
      simp only [if_neg none, Nat.add_zero, word, loopValues_empty pixelwidth_pos, List.foldl_nil]
      exact List.foldl_fixed' (fun _ => rfl) _
    · have none : ¬ y ≥ fb.height := by omega
      have word : y % 2 ^ 32 = y := by omega
      simp only [if_neg none, Nat.add_zero, word, loopValues_empty (pitch_pos inside),
        List.foldl_nil]

def Framebuffer.Shows (fb : Framebuffer) (region : Region) : Prop :=
  ∀ a b, region a b → a < fb.width ∧ b < fb.height

theorem sysDrawRectangle_paint (visible : fb.Shows (Rectangle x y width height)) :
    fb.sysDrawRectangle x y width height color screen =
      fb.layout.paint (Rectangle x y width height) (solid color) screen := by
  by_cases empty : width = 0 ∨ height = 0
  · have notPixel : ¬ (width = 1 ∧ height = 1) := by omega
    rw [Framebuffer.sysDrawRectangle, if_neg notPixel, kdrawRectangle_empty empty]
    refine (Layout.paint_empty ?_).symm
    rintro a b _ ⟨columns, rows⟩
    omega
  · have corner := visible (x + width - 1) (y + height - 1) ⟨by omega, by omega⟩
    have widths := fb.width_lt
    have heights := fb.height_lt
    unfold Framebuffer.sysDrawRectangle
    split
    · rename_i pixel
      rcases pixel with ⟨rfl, rfl⟩
      rw [drawPixel_paint (solid color) _ _ _ (by omega) (by omega) (fun _ _ => rfl)]
      refine Layout.paint_congr ?_ (fun _ _ _ _ _ _ => rfl)
      intro a b _
      unfold Rectangle
      omega
    · rw [kdrawRectangle_paint (by omega) (by omega)]
      refine Layout.paint_congr ?_ (fun _ _ _ _ _ _ => rfl)
      intro a b _
      exact and_iff_left_of_imp (fun inside => (visible a b inside).2)

/-- The picture that `sys_gwrite` draws: foreground where a glyph has a bit, black elsewhere. -/
def textPicture (beyond : Nat → UInt8) (x y color : Nat) (arr : Nat → UInt8) : Picture := fun a b =>
  let multiplier := multiplier beyond (arr ((a - x) / 8)) ((a - x) % 8) (b - y)
  channels (UInt8.ofNat (multiplier * (red color).toNat))
    (UInt8.ofNat (multiplier * (green color).toNat))
    (UInt8.ofNat (multiplier * (blue color).toNat))

variable {beyond : Nat → UInt8} {arr : Nat → UInt8} {i size : Nat}

theorem gkprintC_paint (visible : fb.Shows (Rectangle (x + 8 * i) y 8 8)) :
    fb.gkprintC beyond (arr i) ((x + 8 * i) % 2 ^ 32) y color screen =
      fb.layout.paint (Rectangle (x + 8 * i) y 8 8) (textPicture beyond x y color arr) screen := by
  have corner := visible (x + 8 * i + 7) (y + 7) ⟨by omega, by omega⟩
  have widths := fb.width_lt
  have heights := fb.height_lt
  rw [Framebuffer.gkprintC]
  apply Layout.paint_grid (r := fb.layout)
  intro w narrow h short m
  have column : (w + (x + 8 * i) % 2 ^ 32) % 2 ^ 32 = x + 8 * i + w := by omega
  have row : (h + y) % 2 ^ 32 = y + h := by omega
  rw [column, row]
  apply drawPixel_paint
  · omega
  · omega
  · intro c _
    have character : (x + 8 * i + w - x) / 8 = i := by omega
    have bit : (x + 8 * i + w - x) % 8 = w := by omega
    rw [textPicture, character, bit, Nat.add_sub_cancel_left]

theorem sysGwrite_paint (visible : fb.Shows (Rectangle x y (8 * size) 8)) :
    fb.sysGwrite beyond x y color arr size screen =
      fb.layout.paint (Rectangle x y (8 * size) 8) (textPicture beyond x y color arr) screen := by
  rw [Framebuffer.sysGwrite,
    Layout.paint_foldl (r := fb.layout) _ (fun i => Rectangle (x + 8 * i) y 8 8)]
  · refine Layout.paint_congr ?_ (fun _ _ _ _ _ _ => rfl)
    intro a b _
    simp only [List.mem_range, Rectangle]
    constructor
    · rintro ⟨i, below, columns, rows⟩
      omega
    · rintro ⟨columns, rows⟩
      exact ⟨(a - x) / 8, by omega, by omega, rows⟩
  · intro m i member
    rw [List.mem_range] at member
    refine gkprintC_paint (fun a b inside => visible a b ?_)
    unfold Rectangle at inside ⊢
    omega

end Paint

def Framebuffer.Bounds (fb : Framebuffer) (draw : Mem → Mem) : Prop :=
  ∀ screen n, fb.height * fb.pitch ≤ n → draw screen n = screen n

section Bounds

variable {fb : Framebuffer} {x y right bottom color : Nat} {r g b : UInt8}

theorem bounds_foldl {items : List Nat} {draw : Nat → Mem → Mem}
    (each : ∀ item ∈ items, fb.Bounds (draw item)) :
    fb.Bounds fun screen => items.foldl (fun screen item => draw item screen) screen := by
  intro screen n outside
  induction items generalizing screen with
  | nil => rfl
  | cons item rest ih =>
      rw [List.forall_mem_cons] at each
      calc
        (item :: rest).foldl (fun screen item => draw item screen) screen n = draw item screen n :=
          ih each.2 (draw item screen)
        _ = screen n := each.1 screen n outside

theorem putPixel_bounds (inside : x < fb.width) (below : y < fb.height) :
    fb.Bounds fun screen => putPixel screen (x * fb.pixelwidth + y * fb.pitch) r g b := by
  intro screen n outside
  have last := offset_lt inside below
  simp only [Framebuffer.layout, Layout.offset] at last
  simp only [putPixel, Framebuffer.pixelwidth]
  rw [store_elsewhere _ _ _ _ (by omega), store_elsewhere _ _ _ _ (by omega),
    store_elsewhere _ _ _ _ (by omega)]

theorem drawPixel_bounds (inside : x < fb.width) (below : y < fb.height) :
    fb.Bounds (fb.drawPixel x y r g b) := by
  intro screen n outside
  have last := offset_lt inside below
  have size := fb.size_lt
  simp only [Framebuffer.layout, Layout.offset] at last
  simp only [Framebuffer.drawPixel]
  rw [Nat.mod_eq_of_lt (by omega), Nat.mod_eq_of_lt (by omega), Nat.mod_eq_of_lt (by omega),
    store_elsewhere _ _ _ _ (by omega), store_elsewhere _ _ _ _ (by omega),
    store_elsewhere _ _ _ _ (by omega)]

theorem rows_bounds (wide : right ≤ fb.width) (tall : bottom ≤ fb.height) (visible : 0 < fb.pitch) :
    fb.Bounds fun screen => (loopValues (y * fb.pitch) (bottom * fb.pitch) fb.pitch).foldl
      (fun screen row =>
        (loopValues (x * fb.pixelwidth) (right * fb.pixelwidth) fb.pixelwidth).foldl
        (fun screen column => putPixel screen (column + row) r g b) screen) screen := by
  refine bounds_foldl fun row member => ?_
  rcases (mem_loopValues visible).mp member with ⟨j, rows, rfl⟩
  refine bounds_foldl fun column member => ?_
  rcases (mem_loopValues pixelwidth_pos).mp member with ⟨i, columns, rfl⟩
  exact putPixel_bounds (by omega) (by omega)

theorem kdrawRectangle_bounds (width height : Nat) :
    fb.Bounds (fb.kdrawRectangle x y width height color) := by
  unfold Framebuffer.kdrawRectangle
  by_cases off : x ≥ fb.width ∨ y ≥ fb.height
  · simp only [if_pos off]
    exact fun _ _ _ => rfl
  · simp only [if_neg off]
    rw [not_or, Nat.not_le, Nat.not_le] at off
    generalize clippedWidth : (if (x + width) % 2 ^ 32 ≥ fb.width then fb.width - x else width) = w
    generalize clippedHeight : (if (y + height) % 2 ^ 32 ≥ fb.height then fb.height - y
      else height) = h
    have widths := fb.width_lt
    have heights := fb.height_lt
    have right : (x + w) % 2 ^ 32 ≤ fb.width := by
      subst clippedWidth
      split <;> omega
    have bottom : (y + h) % 2 ^ 32 ≤ fb.height := by
      subst clippedHeight
      split <;> omega
    rcases offsets_small off.1 off.2 right bottom with ⟨⟨rowStart, rowEnd⟩, columnStart, columnEnd⟩
    simp (disch := omega) only [Nat.mod_eq_of_lt]
    exact rows_bounds right bottom (pitch_pos off.1)

theorem gkprintC_bounds (beyond : Nat → UInt8) (c : UInt8) (wide : x + 8 ≤ fb.width)
    (tall : y + 8 ≤ fb.height) :
    fb.Bounds (fb.gkprintC beyond c x y color) := by
  have widths := fb.width_lt
  have heights := fb.height_lt
  refine bounds_foldl fun w narrow => ?_
  rw [List.mem_range] at narrow
  refine bounds_foldl fun h short => ?_
  rw [List.mem_range] at short
  exact drawPixel_bounds (by omega) (by omega)

end Bounds

end PaintKernel
