import Mathlib
import PaintKernel.CursorBounds

set_option autoImplicit false

/-! The loops of `kdraw_rectangle` as they are written, what they paint for every size, and the
one-pixel path of `sys_draw_rectangle`. -/

namespace PaintKernel

open ByteMemory Raster MachineInt Transition

def toInt32 (n : Nat) : Int := Int.bmod n (2 ^ 32)

/-- `for (int i = first; i < bound; i += step)`, where the bound is unsigned and so is the
comparison. Without fuel the loop is still running. -/
def intLoop (bound step : Nat) (body : Mem → Int → Option Mem) : Nat → Int → Mem → Option Mem
  | 0, _, _ => none
  | fuel + 1, i, screen =>
      if toUInt32 i < bound then do
        let screen ← body screen i
        let i ← int32 (i + step)
        intLoop bound step body fuel i screen
      else some screen

namespace Framebuffer

variable (fb : Framebuffer)

def intStore (screen : Mem) (index : Int) (value : UInt8) : Option Mem := do
  let index ← int32 index
  if fb.Contains index then some (store screen index.toNat value) else none

/-- `kdraw_rectangle` with its loops: `none` is an overflow, a byte outside the framebuffer or a
loop that does not end. -/
def rectangleLoops (fuel x y width height color : Nat) (screen : Mem) : Option Mem :=
  if x ≥ fb.width ∨ y ≥ fb.height then some screen
  else
    let width := if (x + width) % 2 ^ 32 ≥ fb.width then fb.width - x else width
    let height := if (y + height) % 2 ^ 32 ≥ fb.height then fb.height - y else height
    intLoop ((y + height) % 2 ^ 32 * fb.pitch % 2 ^ 32) fb.pitch (fun screen row =>
      intLoop ((x + width) % 2 ^ 32 * fb.pixelwidth % 2 ^ 32) fb.pixelwidth (fun screen column => do
        let screen ← fb.intStore screen (column + row) (blue color)
        let screen ← fb.intStore screen (column + row + 1) (green color)
        fb.intStore screen (column + row + 2) (red color))
        fuel (toInt32 (x * fb.pixelwidth % 2 ^ 32)) screen) fuel
          (toInt32 (y * fb.pitch % 2 ^ 32)) screen

def checkedSysDrawRectangle (x y width height color : Nat) (screen : Mem) : Option Mem :=
  if width = 1 ∧ height = 1 then fb.checkedDrawPixel x y (red color) (green color)
    (blue color) screen
  else fb.checkedKdrawRectangle x y width height color screen

/-- What `kdraw_rectangle` is to do: the loops end, the pixels of the visible part and no others
take the colour whatever they were, and nothing else changes. -/
structure PaintsVisible (x y width height color : Nat) : Prop where
  ends : ∃ enough, ∀ fuel, enough ≤ fuel →
    ∀ screen, fb.rectangleLoops fuel x y width height color screen =
    some (fb.kdrawRectangle x y width height color screen)
  colours : ∀ i j, i < fb.width → j < fb.height →
    ((∀ screen, ∀ c < 3, fb.kdrawRectangle x y width height color screen
      (fb.layout.offset i j + c) =
        solid color i j c) ↔
      (x ≤ i ∧ i < min (x + width) fb.width) ∧ (y ≤ j ∧ j < min (y + height) fb.height))
  keeps : ∀ screen n,
    (∀ i j c, (x ≤ i ∧ i < min (x + width) fb.width) ∧ (y ≤ j ∧ j < min (y + height) fb.height) →
      c < 3 → n ≠ fb.layout.offset i j + c) →
    fb.kdrawRectangle x y width height color screen n = screen n
  bounds : fb.Bounds (fb.kdrawRectangle x y width height color)

end Framebuffer

section Loops

variable {first bound step fuel : Nat} {f : Mem → Nat → Mem} {body : Mem → Int → Option Mem}

theorem toInt32_small {n : Nat} (small : n < 2 ^ 31) : toInt32 (n % 2 ^ 32) = n := by
  have below : n < 2 ^ 32 := by omega
  unfold toInt32
  rw [Nat.mod_eq_of_lt below]
  apply Int.bmod_eq_of_le
  · omega
  · omega

theorem intLoop_ends (pos : 0 < step) (start : first * step < 2 ^ 31)
    (small : bound * step < 2 ^ 31)
    (agrees : ∀ screen i, first ≤ i → i < bound →
      body screen (i * step : Nat) = some (f screen (i * step)))
    (enough : bound - first < fuel) (screen : Mem) :
    intLoop (bound * step) step body fuel (first * step : Nat) screen =
      some ((loopValues (first * step) (bound * step) step).foldl f screen) := by
  rw [loopValues_eq pos]
  induction fuel generalizing first screen with
  | zero => omega
  | succ fuel ih =>
      rw [intLoop, toUInt32_cast (by omega)]
      by_cases more : first < bound
      · have next := Nat.mul_le_mul_right step (show first + 1 ≤ bound from more)
        have sum : ((first * step : Nat) : Int) + step = ((first + 1) * step : Nat) := by
          push_cast
          ring
        have rounds : bound - first = (bound - (first + 1)) + 1 := by omega
        have index := int32_some (n := ((first + 1) * step : Nat)) (by omega) (by omega)
        rw [if_pos (Nat.mul_lt_mul_of_pos_right more pos),
          agrees screen first (le_refl _) more, sum, Option.bind_eq_bind, Option.bind_some, index,
            Option.bind_eq_bind, Option.bind_some, rounds,
          List.range'_succ, List.foldl_cons, ← Nat.add_one_mul]
        exact ih (by omega) (fun screen i low high => agrees screen i (by omega) high) (by omega) _
      · have none : bound - first = 0 := by omega
        rw [if_neg (Nat.not_lt.mpr (Nat.mul_le_mul_right step (Nat.not_lt.mp more))), none,
          List.range'_zero, List.foldl_nil]

end Loops

section Regions

variable {fb : Framebuffer} {x y width height color right bottom first size limit n fuel : Nat}
  {screen : Mem}

theorem intStore_some (value : UInt8) (inside : n < fb.height * fb.pitch) :
    fb.intStore screen (n : Int) value = some (store screen n value) := by
  have size := fb.size_lt
  have index := int32_some (n := (n : Int)) (by omega) (by omega)
  have contained : fb.Contains (n : Int) := by
    unfold Framebuffer.Contains
    exact_mod_cast And.intro (Nat.zero_le n) inside
  rw [Framebuffer.intStore, index, Option.bind_eq_bind, Option.bind_some, if_pos contained,
    Int.toNat_natCast]

/-- The three stores of a round on a pixel of the screen. -/
theorem round_some {a b : Nat} (r g b' : UInt8) (inside : a < fb.width) (below : b < fb.height) :
    (do
      let screen ← fb.intStore screen ((a * fb.pixelwidth : Nat) + (b * fb.pitch : Nat) : Int) b'
      let screen ← fb.intStore screen ((a * fb.pixelwidth : Nat) + (b * fb.pitch : Nat) + 1 : Int) g
      fb.intStore screen ((a * fb.pixelwidth : Nat) + (b * fb.pitch : Nat) + 2 : Int) r) =
      some (putPixel screen (a * fb.pixelwidth + b * fb.pitch) r g b') := by
  have last : a * fb.pixelwidth + b * fb.pitch + 3 ≤ fb.height * fb.pitch := offset_lt inside below
  have second : ((a * fb.pixelwidth + b * fb.pitch : Nat) : Int) + 1 =
      (a * fb.pixelwidth + b * fb.pitch + 1 : Nat) := by omega
  have third : ((a * fb.pixelwidth + b * fb.pitch : Nat) : Int) + 2 =
      (a * fb.pixelwidth + b * fb.pitch + 2 : Nat) := by omega
  rw [← Int.natCast_add, second, third, intStore_some b' (by omega), Option.bind_eq_bind,
    Option.bind_some, intStore_some g (by omega), Option.bind_some, intStore_some r (by omega)]
  rfl

theorem rectangleLoops_ends (wide : width < 2 ^ 32) (tall : height < 2 ^ 32)
    (columnFuel : fb.width < fuel) (rowFuel : fb.height < fuel) :
    fb.rectangleLoops fuel x y width height color screen =
      some (fb.kdrawRectangle x y width height color screen) := by
  by_cases off : x ≥ fb.width ∨ y ≥ fb.height
  · rw [Framebuffer.rectangleLoops, if_pos off, Framebuffer.kdrawRectangle, if_pos off]
  · rw [Framebuffer.rectangleLoops, if_neg off, Framebuffer.kdrawRectangle, if_neg off]
    rw [not_or, Nat.not_le, Nat.not_le] at off
    rcases off with ⟨inside, below⟩
    rcases clipped_end inside fb.width_lt wide with ⟨right, _⟩
    rcases clipped_end below fb.height_lt tall with ⟨bottom, _⟩
    rcases offsets_small inside below right bottom with ⟨⟨rowStart, rowEnd⟩, columnStart, columnEnd⟩
    have int : ∀ n, n < 2 ^ 31 → n % 2 ^ 32 = n :=
      fun n small => Nat.mod_eq_of_lt (Nat.lt_trans small (by omega))
    dsimp only
    rw [toInt32_small rowStart, toInt32_small columnStart, int _ rowStart, int _ rowEnd,
      int _ columnStart, int _ columnEnd]
    refine intLoop_ends (pitch_pos inside) rowStart rowEnd (fun screen b _ short => ?_)
      (by omega) screen
    refine intLoop_ends pixelwidth_pos columnStart columnEnd (fun screen a _ narrow => ?_)
      (by omega) screen
    exact round_some _ _ _ (Nat.lt_of_lt_of_le narrow right) (Nat.lt_of_lt_of_le short bottom)

theorem paint_colours_iff (region : Region) (picture : Picture) {i j : Nat}
    (inside : i < fb.width) :
    (∀ screen, ∀ c < 3, fb.layout.paint region picture screen (fb.layout.offset i j + c) =
      picture i j c) ↔
      region i j := by
  constructor
  · intro colours
    by_contra outside
    have other := colours (fun _ => picture i j 0 + 1) 0 (by decide)
    have first : 0 < fb.layout.channels := show 0 < 3 by decide
    rw [Layout.paint_outside ((Layout.inside_offset inside first).not.mpr outside)] at other
    exact absurd other (by simp)
  · exact fun painted screen c small => Layout.paint_offset inside small painted

theorem paint_regions_agree {region other : Region} (picture : Picture) {i j : Nat}
    (inside : i < fb.width)
    (same : ∀ screen, fb.layout.paint region picture screen =
      fb.layout.paint other picture screen) :
    region i j ↔ other i j := by
  rw [← paint_colours_iff region picture inside, ← paint_colours_iff other picture inside]
  simp only [same]

/-- `kdraw_rectangle` paints exactly the visible part of a rectangle whose far edges do not wrap. -/
theorem rectangle_paints_visible (wide : x + width < 2 ^ 32) (tall : y + height < 2 ^ 32) :
    fb.PaintsVisible x y width height color where
  ends := by
    refine ⟨max fb.width fb.height + 1, fun fuel enough screen => ?_⟩
    exact rectangleLoops_ends (by omega) (by omega) (by omega) (by omega)
  colours := by
    intro i j inside below
    simp only [kdrawRectangle_paint wide tall, paint_colours_iff _ (solid color) inside, Rectangle]
    omega
  keeps := by
    intro screen n outside
    rw [kdrawRectangle_paint wide tall]
    apply Layout.paint_outside
    rintro ⟨column, channel, ⟨columns, rows⟩, row⟩
    change fb.layout.column n < fb.width at column
    refine outside (fb.layout.column n) (fb.layout.row n) (fb.layout.channel n) ?_ channel
      (fb.layout.offset_decode n).symm
    omega
  bounds := kdrawRectangle_bounds width height

theorem square_paints_visible : squareScreen.PaintsVisible 190 100 20 5 0xFF0000 :=
  rectangle_paints_visible (by decide) (by decide)

def Framebuffer.IgnoresOversize (fb : Framebuffer) (x y width height color : Nat) : Prop :=
  fb.kdrawRectangle x y width height color =
    fb.kdrawRectangle x y (min width (fb.width - x)) (min height (fb.height - y)) color

theorem clippedSize_min (inside : first < limit) (narrow : limit < 2 ^ 16) :
    clippedSize first (min size (limit - first)) limit = min size (limit - first) := by
  unfold clippedSize
  split <;> omega

theorem clippedSize_pos (inside : first < limit) :
    0 < clippedSize first size limit ↔ 0 < size ∧ first + size < 2 ^ 32 := by
  unfold clippedSize
  split <;> omega

theorem corner_iff : Rectangle x y width height x y ↔ 0 < width ∧ 0 < height := by
  unfold Rectangle
  omega

theorem kdrawRectangle_clipped (inside : x < fb.width) (below : y < fb.height) :
    fb.kdrawRectangle x y (min width (fb.width - x)) (min height (fb.height - y)) color screen =
      fb.layout.paint (Rectangle x y (min width (fb.width - x)) (min height (fb.height - y)))
        (solid color) screen := by
  have widths := fb.width_lt
  have heights := fb.height_lt
  rw [kdrawRectangle_region inside below (by omega) (by omega), clippedSize_min inside widths,
    clippedSize_min below heights]

theorem Framebuffer.IgnoresOversize.corner (same : fb.IgnoresOversize x y width height color)
    (inside : x < fb.width) (below : y < fb.height) (wide : width < 2 ^ 32)
    (tall : height < 2 ^ 32) :
    (0 < width ∧ x + width < 2 ^ 32) ∧ (0 < height ∧ y + height < 2 ^ 32) ↔
      0 < width ∧ 0 < height := by
  have corner : Rectangle x y (clippedSize x width fb.width) (clippedSize y height fb.height) x y ↔
      Rectangle x y (min width (fb.width - x)) (min height (fb.height - y)) x y := by
    refine paint_regions_agree (solid color) inside fun screen => ?_
    rw [← kdrawRectangle_clipped inside below, ← kdrawRectangle_region inside below wide tall]
    exact congrFun same screen
  rw [corner_iff, corner_iff, clippedSize_pos inside, clippedSize_pos below] at corner
  omega

/-- The far edge of each axis must not wrap, unless the rectangle is empty along the other. -/
theorem ignores_oversize_iff (inside : x < fb.width) (below : y < fb.height) (wide : width < 2 ^ 32)
    (tall : height < 2 ^ 32) :
    fb.IgnoresOversize x y width height color ↔
      (x + width < 2 ^ 32 ∨ height = 0) ∧ (y + height < 2 ^ 32 ∨ width = 0) := by
  have widths := fb.width_lt
  have heights := fb.height_lt
  constructor
  · intro same
    have corner := same.corner inside below wide tall
    omega
  · intro unwrapped
    funext screen
    rw [kdrawRectangle_clipped inside below, kdrawRectangle_region inside below wide tall]
    refine Layout.paint_congr (fun a b _ => ?_) (fun _ _ _ _ _ _ => rfl)
    unfold Rectangle clippedSize
    split <;> split <;> omega

theorem square_ignores_oversize : squareScreen.IgnoresOversize 150 150 1000 1000 0xFF0000 :=
  (ignores_oversize_iff (by decide) (by decide) (by decide) (by decide)).mpr ⟨.inl (by decide),
    .inl (by decide)⟩

theorem square_oversize_lost : ¬ squareScreen.IgnoresOversize 1 0 0xFFFFFFFF 1 0xFF0000 := by
  intro same
  have corner := same.corner (by decide) (by decide) (by decide) (by decide)
  omega

/-! The one-pixel path. -/

def Framebuffer.HoldsPixel (fb : Framebuffer) (x y color : Nat) (screen : Mem) : Prop :=
  ∀ c < 3, (x * (fb.bpp / 8) + y * fb.pitch + c) % 2 ^ 32 < fb.height * fb.pitch ∧
    screen ((x * (fb.bpp / 8) + y * fb.pitch + c) % 2 ^ 32) = solid color x y c

theorem writeByte_eq (value : UInt8) :
    fb.writeByte screen n value = if n < fb.height * fb.pitch then some (store screen n value)
      else none := by
  by_cases inside : n < fb.height * fb.pitch
  · rw [if_pos inside, writeByte_some value inside]
  · rw [if_neg inside]
    refine if_neg fun contained => inside ?_
    exact_mod_cast contained.2

theorem writeByte_store {after : Mem} {value : UInt8}
    (stored : fb.writeByte screen n value = some after) :
    after = store screen n value := by
  rw [writeByte_eq] at stored
  split at stored
  · exact (Option.some.inj stored).symm
  · cases stored

theorem checkedSysDrawRectangle_store {after : Mem}
    (drawn : fb.checkedSysDrawRectangle x y 1 1 color screen = some after) :
    after = fb.sysDrawRectangle x y 1 1 color screen := by
  rw [Framebuffer.checkedSysDrawRectangle, if_pos ⟨rfl, rfl⟩, Framebuffer.checkedDrawPixel] at drawn
  rw [Framebuffer.sysDrawRectangle, if_pos ⟨rfl, rfl⟩, Framebuffer.drawPixel]
  simp only [Option.bind_eq_bind, Option.bind_eq_some_iff] at drawn
  rcases drawn with ⟨one, first, two, second, third⟩
  rw [writeByte_store third, writeByte_store second, writeByte_store first]

def Framebuffer.OnePixelAgrees (fb : Framebuffer) (x y color : Nat) (screen : Mem) : Prop :=
  fb.sysDrawRectangle x y 1 1 color screen = fb.kdrawRectangle x y 1 1 color screen ∧
    fb.checkedSysDrawRectangle x y 1 1 color screen ≠ none

theorem onePixelAgrees_checked : fb.OnePixelAgrees x y color screen ↔
    fb.checkedSysDrawRectangle x y 1 1 color screen =
      some (fb.kdrawRectangle x y 1 1 color screen) := by
  constructor
  · rintro ⟨same, inside⟩
    rcases Option.ne_none_iff_exists'.mp inside with ⟨after, drawn⟩
    rw [drawn, checkedSysDrawRectangle_store drawn, same]
  · intro drawn
    refine ⟨(checkedSysDrawRectangle_store drawn).symm, ?_⟩
    rw [drawn]
    exact Option.some_ne_none _

theorem stores_keep_iff (screen : Mem) {a₀ a₁ a₂ : Nat} (v₀ v₁ v₂ : UInt8) (first : a₀ ≠ a₁)
    (second : a₀ ≠ a₂) (third : a₁ ≠ a₂) :
    store (store (store screen a₀ v₀) a₁ v₁) a₂ v₂ = screen ↔
      screen a₀ = v₀ ∧ screen a₁ = v₁ ∧ screen a₂ = v₂ := by
  constructor
  · intro same
    refine ⟨?_, ?_, ?_⟩
    · rw [← congrFun same a₀, store_elsewhere _ _ _ _ second,
        store_elsewhere _ _ _ _ first, store_here]
    · rw [← congrFun same a₁, store_elsewhere _ _ _ _ third, store_here]
    · rw [← congrFun same a₂, store_here]
  · rintro ⟨rfl, rfl, rfl⟩
    funext n
    unfold store
    split_ifs with last middle start
    · rw [last]
    · rw [middle]
    · rw [start]
    · rfl

theorem checkedStores_keep_iff {a₀ a₁ a₂ : Nat} (v₀ v₁ v₂ : UInt8) (first : a₀ ≠ a₁)
    (second : a₀ ≠ a₂) (third : a₁ ≠ a₂) :
    (do
      let screen ← fb.writeByte screen a₀ v₀
      let screen ← fb.writeByte screen a₁ v₁
      fb.writeByte screen a₂ v₂) = some screen ↔
      (a₀ < fb.height * fb.pitch ∧ screen a₀ = v₀) ∧ (a₁ < fb.height * fb.pitch ∧ screen a₁ = v₁) ∧
        (a₂ < fb.height * fb.pitch ∧ screen a₂ = v₂) := by
  have stores := stores_keep_iff screen v₀ v₁ v₂ first second third
  simp only [writeByte_eq]
  by_cases inside₀ : a₀ < fb.height * fb.pitch
  · by_cases inside₁ : a₁ < fb.height * fb.pitch
    · by_cases inside₂ : a₂ < fb.height * fb.pitch
      · simp [inside₀, inside₁, inside₂, stores]
      · simp [inside₀, inside₁, inside₂]
    · simp [inside₀, inside₁]
  · simp [inside₀]

/-- `draw_pixel` with its stores checked keeps the memory. -/
theorem checkedDrawPixel_keeps_iff :
    fb.checkedDrawPixel x y (red color) (green color) (blue color) screen = some screen ↔
      fb.HoldsPixel x y color screen := by
  have offsets : fb.HoldsPixel x y color screen ↔
      ((x * (fb.bpp / 8) + y * fb.pitch) % 2 ^ 32 < fb.height * fb.pitch ∧
        screen ((x * (fb.bpp / 8) + y * fb.pitch) % 2 ^ 32) = blue color) ∧
      ((x * (fb.bpp / 8) + y * fb.pitch + 1) % 2 ^ 32 < fb.height * fb.pitch ∧
        screen ((x * (fb.bpp / 8) + y * fb.pitch + 1) % 2 ^ 32) = green color) ∧
      ((x * (fb.bpp / 8) + y * fb.pitch + 2) % 2 ^ 32 < fb.height * fb.pitch ∧
        screen ((x * (fb.bpp / 8) + y * fb.pitch + 2) % 2 ^ 32) = red color) := by
    constructor
    · exact fun held => ⟨held 0 (by decide), held 1 (by decide), held 2 (by decide)⟩
    · rintro ⟨first, second, third⟩ c small
      interval_cases c
      · exact first
      · exact second
      · exact third
  rw [offsets, Framebuffer.checkedDrawPixel]
  generalize x * (fb.bpp / 8) + y * fb.pitch = pixel
  exact checkedStores_keep_iff _ _ _ (by omega) (by omega) (by omega)

theorem onePixel_off (off : x ≥ fb.width ∨ y ≥ fb.height) :
    fb.OnePixelAgrees x y color screen ↔ fb.HoldsPixel x y color screen := by
  rw [onePixelAgrees_checked, Framebuffer.checkedSysDrawRectangle, if_pos ⟨rfl, rfl⟩,
    Framebuffer.kdrawRectangle, if_pos off, checkedDrawPixel_keeps_iff]

/-- The one-pixel path does what `kdraw_rectangle` does exactly when the pixel is on the screen, or
when its stores fall inside the framebuffer on bytes that have their values already. -/
theorem onePixel_agrees_iff :
    fb.OnePixelAgrees x y color screen ↔ (x < fb.width ∧ y < fb.height) ∨
      fb.HoldsPixel x y color screen := by
  by_cases onScreen : x < fb.width ∧ y < fb.height
  · rcases onScreen with ⟨inside, below⟩
    have widths := fb.width_lt
    have heights := fb.height_lt
    have drawn : fb.drawPixel x y (red color) (green color) (blue color) screen =
        fb.kdrawRectangle x y 1 1 color screen := by
      rw [drawPixel_paint (solid color) _ _ _ inside below (fun _ _ => rfl),
        kdrawRectangle_paint (by omega) (by omega)]
      refine Layout.paint_congr (fun a b _ => ?_) (fun _ _ _ _ _ _ => rfl)
      unfold Rectangle
      omega
    rw [onePixelAgrees_checked, Framebuffer.checkedSysDrawRectangle, if_pos ⟨rfl, rfl⟩,
      checkedDrawPixel_some _ _ _ inside below, drawn]
    exact iff_of_true rfl (.inl ⟨inside, below⟩)
  · rw [onePixel_off (by omega), or_iff_right onScreen]

theorem square_pixel_stray :
    ¬ squareScreen.OnePixelAgrees 0 200 0xFF0000 (fun _ => 0) ∧
      squareScreen.sysDrawRectangle 200 0 1 1 0xFF0000 (fun _ => 0) 602 = 0xFF ∧
      squareScreen.kdrawRectangle 200 0 1 1 0xFF0000 (fun _ => 0) 602 = 0 := by
  refine ⟨?_, ?_, ?_⟩
  · intro same
    have held := (onePixel_off (.inr (le_refl _))).mp same 0 (by decide)
    simp [squareScreen] at held
  · rw [Framebuffer.sysDrawRectangle, if_pos ⟨rfl, rfl⟩]
    simp [Framebuffer.drawPixel, squareScreen, red]
  · rw [Framebuffer.kdrawRectangle, if_pos (.inl (le_refl _))]

end Regions

end PaintKernel
