import Mathlib
import PaintKernel.Mouse

set_option autoImplicit false

/-! Moving the cursor leaves the picture under it alone. -/

namespace PaintKernel

open ByteMemory Raster

def colorAt (screen : Mem) (n : Nat) : Nat := packColor (screen n) (screen (n + 1)) (screen (n + 2))

def savedPicture (x y : Nat) (savedPixels : Nat → Nat) : Picture := fun a b =>
  solid (savedPixels ((a - x) + (b - y) * 5)) a b

section Pixels

variable {fb : Framebuffer} {x y : Nat} {screen : Mem} {savedPixels : Nat → Nat}

theorem toUInt32_add (i : Nat) (bound : i + x < 2 ^ 32) : toUInt32 (i + x) = x + i := by
  unfold toUInt32
  omega

theorem toUInt32_cast (bound : x < 2 ^ 32) : toUInt32 x = x := by
  unfold toUInt32
  omega

theorem restoreBackground_paint (right : x + 5 ≤ fb.width) (bottom : y + 5 ≤ fb.height) :
    fb.restoreBackground x y savedPixels screen =
      fb.layout.paint (Rectangle x y 5 5) (savedPicture x y savedPixels) screen := by
  have widths := fb.width_lt
  have heights := fb.height_lt
  rw [Framebuffer.restoreBackground]
  apply Layout.paint_grid (r := fb.layout)
  intro i narrow j short m
  rw [toUInt32_add i (by omega), toUInt32_add j (by omega)]
  apply drawPixel_paint
  · omega
  · omega
  · intro c _
    rw [savedPicture, Nat.add_sub_cancel_left, Nat.add_sub_cancel_left]
    rfl

theorem saveRow (n row index : Nat) :
    (List.range n).foldl (fb.savePixel screen row) (index, savedPixels) =
      (((index + n * fb.pixelwidth : Nat) : Int), fun k =>
        if row * 5 ≤ k ∧ k < row * 5 + n then colorAt screen (index + (k - row * 5) * fb.pixelwidth)
        else savedPixels k) := by
  induction n with
  | zero =>
      simp only [List.range_zero, List.foldl_nil, Nat.zero_mul, Nat.add_zero,
        Prod.mk.injEq, true_and]
      funext k
      exact (if_neg (by omega)).symm
  | succ n ih =>
      rw [List.range_succ, List.foldl_append, ih, List.foldl_cons, List.foldl_nil,
        Framebuffer.savePixel]
      simp only [Prod.mk.injEq]
      constructor
      · push_cast
        ring
      · funext k
        by_cases here : k = n + row * 5
        · subst here
          rw [Function.update_self, if_pos (by omega), show n + row * 5 - row * 5 = n by omega]
          rfl
        · rw [Function.update_of_ne here]
          congr 1
          rw [eq_iff_iff]
          omega

theorem saveRows (n index : Nat) :
    (List.range n).foldl (fun state row =>
      let (index, savedPixels) := (List.range 5).foldl (fb.savePixel screen row) state
      (index + (fb.pitch - fb.pixelwidth * 5), savedPixels)) ((index : Int), savedPixels) =
      (((index + n * fb.pitch : Nat) : Int), fun k =>
        if k < n * 5 then colorAt screen (index + k % 5 * fb.pixelwidth + k / 5 * fb.pitch)
        else savedPixels k) := by
  induction n with
  | zero => simp
  | succ n ih =>
      rw [List.range_succ (n := n), List.foldl_append, ih, List.foldl_cons, List.foldl_nil, saveRow]
      simp only [Prod.mk.injEq]
      constructor
      · push_cast
        ring
      · funext k
        by_cases here : n * 5 ≤ k ∧ k < n * 5 + 5
        · rw [if_pos here, if_pos (by omega), show k % 5 = k - n * 5 by omega,
            show k / 5 = n by omega, Nat.add_right_comm]
        · rw [if_neg here]
          congr 1
          rw [eq_iff_iff]
          omega

theorem saveBackground_at {i j : Nat} (narrow : i < 5) (short : j < 5) :
    fb.saveBackground x y screen savedPixels (i + j * 5) =
      colorAt screen (fb.layout.offset (x + i) (y + j)) := by
  have start : (x : Int) * fb.pixelwidth + y * fb.pitch = ((fb.layout.offset x y : Nat) : Int) := by
    simp [Layout.offset, Framebuffer.layout, Framebuffer.pixelwidth]
  have place : fb.layout.offset (x + i) (y + j) =
      fb.layout.offset x y + i * fb.pixelwidth + j * fb.pitch := by
    simp only [Layout.offset, Framebuffer.layout, Framebuffer.pixelwidth]
    ring
  rw [Framebuffer.saveBackground, start, saveRows]
  calc
    _ = colorAt screen (fb.layout.offset x y + (i + j * 5) % 5 * fb.pixelwidth +
        (i + j * 5) / 5 * fb.pitch) := if_pos (by omega)
    _ = colorAt screen (fb.layout.offset (x + i) (y + j)) := by
      rw [place, Nat.add_mul_mod_self_right, Nat.mod_eq_of_lt narrow,
        Nat.add_mul_div_right _ _ (by decide), Nat.div_eq_of_lt narrow, Nat.zero_add]

/-- Colours saved from a background are that background under the cursor. -/
theorem savedPicture_saved {background : Mem} (saved : ∀ i < 5, ∀ j < 5,
      savedPixels (i + j * 5) = colorAt background (fb.layout.offset (x + i) (y + j)))
    {a b c : Nat} (inside : Rectangle x y 5 5 a b) (channel : c < 3) :
    savedPicture x y savedPixels a b c = background (fb.layout.offset a b + c) := by
  rcases inside with ⟨columns, rows⟩
  rw [savedPicture, saved _ (by omega) _ (by omega), Nat.add_sub_cancel' columns.1,
    Nat.add_sub_cancel' rows.1, solid, colorAt, channels_packColor]
  interval_cases c <;> rfl

end Pixels

/-- The cursor is white and on the screen, everything around it is the background, and the
background under it is saved. -/
structure CursorOver (fb : Framebuffer) (background : Mem) (s : Desktop) : Prop where
  onScreen : fb.OnScreen s.data
  outside : ∀ n, (∀ i < 5, ∀ j < 5, ∀ c < 3,
      n ≠ fb.layout.offset (s.data.xPos.toNat + i) (s.data.yPos.toNat + j) + c) →
    s.screen n = background n
  white : ∀ i < 5, ∀ j < 5, ∀ c < 3,
    s.screen (fb.layout.offset (s.data.xPos.toNat + i) (s.data.yPos.toNat + j) + c) = 0xFF
  saved : ∀ i < 5, ∀ j < 5, s.savedPixels (i + j * 5) =
    colorAt background (fb.layout.offset (s.data.xPos.toNat + i) (s.data.yPos.toNat + j))

section Cursor

variable {fb : Framebuffer} {background : Mem} {s : Desktop}

theorem solid_white (a b c : Nat) : solid 0xFFFFFF a b c = 0xFF := by
  have parts : red 0xFFFFFF = 0xFF ∧ green 0xFFFFFF = 0xFF ∧ blue 0xFFFFFF = 0xFF := by decide
  rw [solid, parts.1, parts.2.1, parts.2.2]
  unfold channels
  split <;> rfl

theorem drawn_over (fb : Framebuffer) (background : Mem) {x y : Nat} (right : x + 6 ≤ fb.width)
    (bottom : y + 6 ≤ fb.height) (savedPixels : Nat → Nat) (m : Mouse)
    (here : m.data.xPos = x ∧ m.data.yPos = y) :
    CursorOver fb background
      { m with
        screen := fb.kdrawRectangle (toUInt32 x) (toUInt32 y) 5 5 0xFFFFFF background
        savedPixels := fb.saveBackground x y background savedPixels } := by
  have widths := fb.width_lt
  have heights := fb.height_lt
  have drawn : fb.kdrawRectangle (toUInt32 x) (toUInt32 y) 5 5 0xFFFFFF background =
      fb.layout.paint (Rectangle x y 5 5) (solid 0xFFFFFF) background := by
    rw [toUInt32_cast (by omega), toUInt32_cast (by omega),
      kdrawRectangle_paint (by omega) (by omega)]
    refine Layout.paint_congr ?_ (fun _ _ _ _ _ _ => rfl)
    intro a b _
    unfold Rectangle
    omega
  rcases here with ⟨column, row⟩
  refine ⟨⟨?_, ?_, ?_, ?_⟩, ?_, ?_, ?_⟩ <;> simp only [column, row, Int.toNat_natCast, drawn]
  · omega
  · omega
  · omega
  · omega
  · intro n away
    apply Layout.paint_outside
    rintro ⟨_, channel, columns, rows⟩
    have place := fb.layout.offset_decode n
    refine away (fb.layout.column n - x) (by omega) (fb.layout.row n - y) (by omega)
      (fb.layout.channel n) channel ?_
    rw [Nat.add_sub_cancel' columns.1, Nat.add_sub_cancel' rows.1, place]
  · intro i narrow j short c channel
    rw [Layout.paint_offset (r := fb.layout) (show x + i < fb.width by omega) channel
      ⟨by omega, by omega⟩, solid_white]
  · intro i narrow j short
    exact saveBackground_at narrow short

theorem move_onScreen (wide : 6 ≤ fb.width) (tall : 6 ≤ fb.height) (mousebytes : MouseBytes)
    (data : MouseData) : fb.OnScreen (fb.move mousebytes data) := by
  constructor <;> simp only [Framebuffer.move] <;> split_ifs <;> omega

theorem CursorOver.restored (shown : CursorOver fb background s) :
    fb.restoreBackground s.data.xPos s.data.yPos s.savedPixels s.screen = background := by
  rcases shown with ⟨⟨left, right, top, bottom⟩, outside, _, saved⟩
  have column := Int.toNat_of_nonneg left
  have row := Int.toNat_of_nonneg top
  generalize s.data.xPos.toNat = x, s.data.yPos.toNat = y at outside saved column row
  rw [← column] at right ⊢
  rw [← row] at bottom ⊢
  rw [restoreBackground_paint (by omega) (by omega)]
  funext n
  by_cases here : fb.layout.Inside (Rectangle x y 5 5) n
  · rw [Layout.paint_inside here, savedPicture_saved saved here.2.2 here.2.1, Layout.offset_decode]
  · rw [Layout.paint_outside here]
    apply outside
    rintro i narrow j short c channel rfl
    exact here ((Layout.inside_offset (r := fb.layout) (show x + i < fb.width by omega) channel).mpr
      ⟨by omega, by omega⟩)

/-- `update_cursor` draws the cursor over whatever putting the saved colours back gives. -/
theorem updateCursor_draws (wide : 6 ≤ fb.width) (tall : 6 ≤ fb.height) (s : Desktop) :
    CursorOver fb (fb.restoreBackground s.data.xPos s.data.yPos s.savedPixels s.screen)
      (fb.updateCursor s) := by
  have onScreen := move_onScreen wide tall s.mousebytes s.data
  have column := Int.toNat_of_nonneg onScreen.x_nonneg
  have row := Int.toNat_of_nonneg onScreen.y_nonneg
  have drawn := drawn_over fb (fb.restoreBackground s.data.xPos s.data.yPos s.savedPixels s.screen)
    (x := (fb.move s.mousebytes s.data).xPos.toNat) (y := (fb.move s.mousebytes s.data).yPos.toNat)
    (by have := onScreen.x_le; omega) (by have := onScreen.y_le; omega) s.savedPixels
    ⟨fb.move s.mousebytes s.data, s.mousebytes, s.mouseCounter⟩ ⟨column.symm, row.symm⟩
  rw [column, row] at drawn
  exact drawn

theorem updateCursor_over (wide : 6 ≤ fb.width) (tall : 6 ≤ fb.height)
    (shown : CursorOver fb background s) (mousebytes : MouseBytes) (mouseCounter : Nat) :
    CursorOver fb background
      (fb.updateCursor { s with mousebytes := mousebytes, mouseCounter := mouseCounter }) := by
  have drawn := updateCursor_draws wide tall
    { s with mousebytes := mousebytes, mouseCounter := mouseCounter }
  rw [shown.restored] at drawn
  exact drawn

theorem initializeCursor_over (wide : 106 ≤ fb.width) (tall : 106 ≤ fb.height) (background : Mem) :
    CursorOver fb background (fb.initializeCursor background) := by
  have drawn := drawn_over fb background wide tall (fun _ => 0)
    ⟨⟨100, 100, false, false, false⟩, ⟨0, 0, 0, 0, 0, 0, 0⟩, 0⟩ ⟨rfl, rfl⟩
  rw [toUInt32_cast (by decide)] at drawn
  exact drawn

theorem storeMouseData_over (wide : 6 ≤ fb.width) (tall : 6 ≤ fb.height)
    (shown : CursorOver fb background s) (packet : UInt8) :
    CursorOver fb background (fb.storeMouseData s packet) := by
  have kept : ∀ s' : Desktop, s'.data.xPos = s.data.xPos → s'.data.yPos = s.data.yPos →
      s'.screen = s.screen → s'.savedPixels = s.savedPixels → CursorOver fb background s' := by
    rintro ⟨⟨⟨x, y, l, r, m⟩, mousebytes, counter⟩, screen, saved⟩ rfl rfl rfl rfl
    exact ⟨⟨shown.onScreen.1, shown.onScreen.2, shown.onScreen.3, shown.onScreen.4⟩, shown.outside,
      shown.white,
      shown.saved⟩
  unfold Framebuffer.storeMouseData
  split
  · split
    · exact kept _ rfl rfl rfl rfl
    · exact kept _ rfl rfl rfl rfl
  · exact kept _ rfl rfl rfl rfl
  · exact updateCursor_over wide tall shown _ _
  · exact shown

/-- Whatever bytes the mouse sends, the cursor moves over the background without changing it. -/
theorem cursor_preserves_background (wide : 106 ≤ fb.width) (tall : 106 ≤ fb.height)
    (background : Mem) (bytes : List UInt8) :
    CursorOver fb background (bytes.foldl fb.storeMouseData (fb.initializeCursor background)) := by
  have run : ∀ s, CursorOver fb background s →
      CursorOver fb background (bytes.foldl fb.storeMouseData s) := by
    induction bytes with
    | nil => exact fun _ shown => shown
    | cons packet rest ih =>
        exact fun s shown => ih _ (storeMouseData_over (by omega) (by omega) shown packet)
  exact run _ (initializeCursor_over wide tall background)

end Cursor

def squareScreen : Framebuffer where
  width := 200
  height := 200
  pitch := 600
  bpp := 24
  depth := .inl rfl
  row_fits := by decide
  size_lt := by decide
  width_lt := by decide
  height_lt := by decide

theorem square_preserves_background :
    CursorOver squareScreen (fun n => UInt8.ofNat n)
      ([0x08, 50, 0].foldl squareScreen.storeMouseData
        (squareScreen.initializeCursor (fun n => UInt8.ofNat n))) :=
  cursor_preserves_background (by decide) (by decide) _ _

end PaintKernel
