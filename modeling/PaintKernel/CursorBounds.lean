import Mathlib
import PaintKernel.Cursor
import PaintKernel.Library.MachineInt
import PaintKernel.Library.Run

set_option autoImplicit false

/-! The interrupt handler of the mouse with every access and every sum of `int`s checked: `none`
is an index outside its array or a value that `int` cannot hold. -/

namespace PaintKernel

open ByteMemory Raster Transition MachineInt

def savedIndex (n : Nat) : Option Nat := if n < 25 then some n else none

namespace Framebuffer

variable (fb : Framebuffer)

/-- The byte at `index` belongs to the framebuffer. -/
def Contains (index : Int) : Prop := 0 ≤ index ∧ index < fb.height * fb.pitch

instance (index : Int) : Decidable (fb.Contains index) := inferInstanceAs (Decidable (_ ∧ _))

def readByte (screen : Mem) (index : Int) : Option UInt8 :=
  if fb.Contains index then some (screen index.toNat) else none

def writeByte (screen : Mem) (index : Nat) (value : UInt8) : Option Mem :=
  if fb.Contains index then some (store screen index value) else none

def checkedSavePixel (screen : Mem) (y : Nat) (state : Int × (Nat → Nat)) (x : Nat) :
    Option (Int × (Nat → Nat)) := do
  let (index, savedPixels) := state
  let blue ← fb.readByte screen index
  let green ← fb.readByte screen (← int32 (index + 1))
  let red ← fb.readByte screen (← int32 (index + 2))
  let slot ← savedIndex (x + y * 5)
  let index ← int32 (index + fb.pixelwidth)
  return (index, Function.update savedPixels slot (packColor blue green red))

def checkedSaveRow (screen : Mem) (state : Int × (Nat → Nat)) (y : Nat) :
    Option (Int × (Nat → Nat)) := do
  let (index, savedPixels) ← (List.range 5).foldlM (fb.checkedSavePixel screen y) state
  let index ← int32 (index + (fb.pitch - fb.pixelwidth * 5))
  return (index, savedPixels)

def checkedSaveBackground (xStart yStart : Int) (screen : Mem) (savedPixels : Nat → Nat) :
    Option (Nat → Nat) := do
  let column ← int32 (xStart * fb.pixelwidth)
  let row ← int32 (yStart * fb.pitch)
  let index ← int32 (column + row)
  let (_, savedPixels) ← (List.range 5).foldlM (fb.checkedSaveRow screen) (index, savedPixels)
  return savedPixels

def checkedDrawPixel (x y : Nat) (r g b : UInt8) (screen : Mem) : Option Mem := do
  let pixel := x * (fb.bpp / 8) + y * fb.pitch
  let screen ← fb.writeByte screen (pixel % 2 ^ 32) b
  let screen ← fb.writeByte screen ((pixel + 1) % 2 ^ 32) g
  fb.writeByte screen ((pixel + 2) % 2 ^ 32) r

def checkedRestoreBackground (xPos yPos : Int) (savedPixels : Nat → Nat) (screen : Mem) :
    Option Mem :=
  (List.range 5).foldlM (fun screen i => (List.range 5).foldlM (fun screen j => do
    let saved := savedPixels (← savedIndex (i + j * 5))
    let x ← int32 (i + xPos)
    let y ← int32 (j + yPos)
    fb.checkedDrawPixel (toUInt32 x) (toUInt32 y) (red saved) (green saved) (blue saved) screen)
    screen) screen

def checkedPutPixel (screen : Mem) (pixel : Nat) (r g b : UInt8) : Option Mem := do
  let screen ← fb.writeByte screen pixel b
  let screen ← fb.writeByte screen (pixel + 1) g
  fb.writeByte screen (pixel + 2) r

def checkedKdrawRectangle (x y width height color : Nat) (screen : Mem) : Option Mem :=
  if x ≥ fb.width ∨ y ≥ fb.height then some screen
  else
    let width := if (x + width) % 2 ^ 32 ≥ fb.width then fb.width - x else width
    let height := if (y + height) % 2 ^ 32 ≥ fb.height then fb.height - y else height
    let rows := loopValues (y * fb.pitch % 2 ^ 32)
      ((y + height) % 2 ^ 32 * fb.pitch % 2 ^ 32) fb.pitch
    let columns := loopValues (x * fb.pixelwidth % 2 ^ 32)
      ((x + width) % 2 ^ 32 * fb.pixelwidth % 2 ^ 32) fb.pixelwidth
    rows.foldlM (fun screen row => columns.foldlM (fun screen column =>
      fb.checkedPutPixel screen (column + row) (red color) (green color) (blue color)) screen)
        screen

def checkedMove (mousebytes : MouseBytes) (data : MouseData) : Option MouseData := do
  let x ← if mousebytes.xSb = 1 then int32 (data.xPos + Int.tdiv (mousebytes.xMove - 255) 5)
    else int32 (data.xPos + Int.tdiv mousebytes.xMove 5)
  let y ← if mousebytes.ySb = 1 then int32 (data.yPos - Int.tdiv (mousebytes.yMove - 255) 5)
    else int32 (data.yPos - Int.tdiv mousebytes.yMove 5)
  let x := if x < 0 then 0 else x
  let x := if x > fb.width - (5 + 1) then (fb.width : Int) - (5 + 1) else x
  let y := if y < 0 then 0 else y
  let y := if y > fb.height - (5 + 1) then (fb.height : Int) - (5 + 1) else y
  return { data with xPos := x, yPos := y }

def checkedUpdateCursor (s : Desktop) : Option Desktop := do
  let screen ← fb.checkedRestoreBackground s.data.xPos s.data.yPos s.savedPixels s.screen
  let data ← fb.checkedMove s.mousebytes s.data
  let savedPixels ← fb.checkedSaveBackground data.xPos data.yPos screen s.savedPixels
  let screen ← fb.checkedKdrawRectangle (toUInt32 data.xPos) (toUInt32 data.yPos) 5 5
      0xFFFFFF screen
  return { s with data := data, savedPixels := savedPixels, screen := screen }

def checkedInitializeCursor (screen : Mem) : Option Desktop := do
  let savedPixels ← fb.checkedSaveBackground 100 100 screen (fun _ => 0)
  let drawn ← fb.checkedKdrawRectangle 100 100 5 5 0xFFFFFF screen
  return { fb.initializeCursor screen with savedPixels := savedPixels, screen := drawn }

def checkedStoreMouseData (s : Desktop) (packet : UInt8) : Option Desktop :=
  match s.mouseCounter with
  | 2 =>
      fb.checkedUpdateCursor
        { s with mousebytes := { s.mousebytes with yMove := packet.toNat }, mouseCounter := 0 }
  | _ => some (fb.storeMouseData s packet)

end Framebuffer

section Accesses

variable {fb : Framebuffer} {x y : Nat} {screen : Mem} {savedPixels : Nat → Nat}

theorem writeByte_some {n : Nat} (value : UInt8) (inside : n < fb.height * fb.pitch) :
    fb.writeByte screen n value = some (store screen n value) := by
  apply if_pos
  unfold Framebuffer.Contains
  exact_mod_cast And.intro (Nat.zero_le n) inside

theorem readByte_some {n : Nat} (inside : n < fb.height * fb.pitch) :
    fb.readByte screen n = some (screen n) := by
  rw [Framebuffer.readByte, if_pos, Int.toNat_natCast]
  unfold Framebuffer.Contains
  exact_mod_cast And.intro (Nat.zero_le n) inside

theorem checkedPutPixel_some {pixel : Nat} (r g b : UInt8)
    (inside : pixel + 3 ≤ fb.height * fb.pitch) :
    fb.checkedPutPixel screen pixel r g b = some (putPixel screen pixel r g b) := by
  have blue : pixel < fb.height * fb.pitch := by omega
  have green : pixel + 1 < fb.height * fb.pitch := by omega
  have red : pixel + 2 < fb.height * fb.pitch := by omega
  simp only [Framebuffer.checkedPutPixel, writeByte_some b blue, writeByte_some g green,
    writeByte_some r red]
  rfl

theorem checkedDrawPixel_some (r g b : UInt8) (inside : x < fb.width) (below : y < fb.height) :
    fb.checkedDrawPixel x y r g b screen = some (fb.drawPixel x y r g b screen) := by
  have last := offset_lt inside below
  have size := fb.size_lt
  have place : fb.layout.offset x y = x * (fb.bpp / 8) + y * fb.pitch := rfl
  simp only [Framebuffer.checkedDrawPixel, Framebuffer.drawPixel, ← place]
  rw [Nat.mod_eq_of_lt (by omega), Nat.mod_eq_of_lt (by omega), Nat.mod_eq_of_lt (by omega)]
  exact checkedPutPixel_some r g b last

theorem checkedRestoreBackground_some (right : x + 5 ≤ fb.width) (bottom : y + 5 ≤ fb.height) :
    fb.checkedRestoreBackground x y savedPixels screen =
      some (fb.restoreBackground x y savedPixels screen) := by
  have widths := fb.width_lt
  have heights := fb.height_lt
  refine foldlM_some (fun screen i narrow => foldlM_some (fun screen j short => ?_) screen) screen
  rw [List.mem_range] at narrow short
  simp only [savedIndex, if_pos (show i + j * 5 < 25 by omega),
    int32_some (n := i + x) (by omega) (by omega), int32_some (n := j + y) (by omega) (by omega)]
  apply checkedDrawPixel_some
  · rw [toUInt32_add i (by omega)]
    omega
  · rw [toUInt32_add j (by omega)]
    omega

theorem pixel_bounds (inside : x < fb.width) (below : y < fb.height) :
    fb.layout.offset x y + 3 ≤ fb.height * fb.pitch ∧
      fb.layout.offset x y + fb.pixelwidth ≤ fb.height * fb.pitch := by
  refine ⟨offset_lt inside below, ?_⟩
  have columns := Nat.mul_le_mul_right fb.pixelwidth (show x + 1 ≤ fb.width from inside)
  have rows := Nat.mul_le_mul_right fb.pitch (show y + 1 ≤ fb.height from below)
  have fits := fb.row_fits
  have place : fb.layout.offset x y = x * fb.pixelwidth + y * fb.pitch := rfl
  have width : fb.width * fb.pixelwidth = fb.width * (fb.bpp / 8) := rfl
  rw [Nat.add_one_mul] at columns rows
  omega

theorem checkedSavePixel_some {row i : Nat} (inside : x < fb.width) (below : y < fb.height)
    (slot : i + row * 5 < 25) :
    fb.checkedSavePixel screen row ((fb.layout.offset x y : Nat), savedPixels) i =
      some (fb.savePixel screen row ((fb.layout.offset x y : Nat), savedPixels) i) := by
  rcases pixel_bounds inside below with ⟨last, next⟩
  have size := fb.size_lt
  have first : fb.readByte screen ((fb.layout.offset x y : Nat) : Int) =
      some (screen (fb.layout.offset x y)) := readByte_some (by omega)
  have second : fb.readByte screen ((fb.layout.offset x y : Nat) + 1 : Int) =
      some (screen (fb.layout.offset x y + 1)) :=
        readByte_some (n := fb.layout.offset x y + 1) (by omega)
  have third : fb.readByte screen ((fb.layout.offset x y : Nat) + 2 : Int) =
      some (screen (fb.layout.offset x y + 2)) :=
        readByte_some (n := fb.layout.offset x y + 2) (by omega)
  simp only [Framebuffer.checkedSavePixel, savedIndex, if_pos slot, Option.pure_def,
    Option.bind_eq_bind, int32_some (n := (fb.layout.offset x y : Nat) + 1) (by omega) (by omega),
    int32_some (n := (fb.layout.offset x y : Nat) + 2) (by omega) (by omega),
    int32_some (n := (fb.layout.offset x y : Nat) + fb.pixelwidth) (by omega) (by omega),
    first, second, third, Option.bind_some]
  rfl

theorem checkedSavePixels_some {row : Nat} (right : x + 5 ≤ fb.width) (below : y < fb.height)
    (short : row < 5) :
    (List.range 5).foldlM (fb.checkedSavePixel screen row) (((fb.layout.offset x y : Nat) : Int),
      savedPixels) =
      some ((List.range 5).foldl (fb.savePixel screen row) (((fb.layout.offset x y : Nat) : Int),
        savedPixels)) := by
  have place : ∀ a b, fb.layout.offset a b = a * fb.pixelwidth + b * fb.pitch := fun _ _ => rfl
  apply foldlM_range
  intro i narrow
  rw [saveRow]
  have pixel : fb.layout.offset x y + i * fb.pixelwidth = fb.layout.offset (x + i) y := by
    rw [place, place]
    ring
  rw [pixel]
  exact checkedSavePixel_some (by omega) (by omega) (by omega)

theorem checkedSaveBackground_some (right : x + 5 ≤ fb.width) (bottom : y + 6 ≤ fb.height) :
    fb.checkedSaveBackground x y screen savedPixels =
      some (fb.saveBackground x y screen savedPixels) := by
  have size := fb.size_lt
  have place : ∀ a b, fb.layout.offset a b = a * fb.pixelwidth + b * fb.pitch := fun _ _ => rfl
  have column : fb.layout.offset x 0 + 3 ≤ fb.height * fb.pitch := offset_lt (by omega) (by omega)
  have start : fb.layout.offset x y + 3 ≤ fb.height * fb.pitch := offset_lt (by omega) (by omega)
  have first : (x : Int) * fb.pixelwidth + y * fb.pitch = ((fb.layout.offset x y : Nat) : Int) := by
    rw [place]
    push_cast
    ring
  -- row `j` starts at pixel `(x, y + j)`
  have loops : (List.range 5).foldlM (fb.checkedSaveRow screen)
        (((fb.layout.offset x y : Nat) : Int), savedPixels) =
      some ((List.range 5).foldl (fun state y =>
        let (index, savedPixels) := (List.range 5).foldl (fb.savePixel screen y) state
        (index + (fb.pitch - fb.pixelwidth * 5), savedPixels))
          (((fb.layout.offset x y : Nat) : Int), savedPixels)) := by
    apply foldlM_range
    intro j short
    rw [saveRows]
    have rowStart : fb.layout.offset x y + j * fb.pitch = fb.layout.offset x (y + j) := by
      rw [place, place]
      ring
    rw [rowStart]
    generalize (fun k => if k < j * 5 then colorAt screen _ else savedPixels k) = savedPixels
    have below : y + j < fb.height := by omega
    have next : fb.layout.offset x (y + j + 1) + 3 ≤ fb.height * fb.pitch :=
      offset_lt (by omega) (by omega)
    have step : ((fb.layout.offset x (y + j) + 5 * fb.pixelwidth : Nat) : Int) +
        (fb.pitch - fb.pixelwidth * 5) = ((fb.layout.offset x (y + j + 1) : Nat) : Int) := by
      rw [place, place]
      push_cast
      ring
    simp only [Framebuffer.checkedSaveRow, checkedSavePixels_some right below short, saveRow,
      Option.pure_def, Option.bind_eq_bind, Option.bind_some, step,
        int32_some (n := ((fb.layout.offset x (y + j + 1) : Nat) : Int)) (by omega) (by omega)]
  have columnInt : int32 ((x : Int) * fb.pixelwidth) = some ((x : Int) * fb.pixelwidth) := by
    rw [place, Nat.zero_mul] at column
    have small : x * fb.pixelwidth < 2 ^ 31 := by omega
    rw [← Nat.cast_mul, int32_natCast, if_pos small]
  have rowInt : int32 ((y : Int) * fb.pitch) = some ((y : Int) * fb.pitch) := by
    rw [place] at start
    have small : y * fb.pitch < 2 ^ 31 := by omega
    rw [← Nat.cast_mul, int32_natCast, if_pos small]
  have indexInt : int32 ((fb.layout.offset x y : Nat) : Int) =
      some ((fb.layout.offset x y : Nat) : Int) :=
    int32_some (by omega) (by omega)
  rw [Framebuffer.checkedSaveBackground, columnInt, Option.bind_eq_bind, Option.bind_some, rowInt,
    Option.bind_some, first, indexInt, Option.bind_some, loops, Framebuffer.saveBackground, first]
  rfl

/-- A rectangle that ends before the last row and column is drawn as it is. -/
theorem checkedKdrawRectangle_some {width height color : Nat} (right : x + width < fb.width)
    (bottom : y + height < fb.height) :
    fb.checkedKdrawRectangle x y width height color screen =
      some (fb.kdrawRectangle x y width height color screen) := by
  have widths := fb.width_lt
  have heights := fb.height_lt
  have size := fb.size_lt
  have onScreen : ¬ (x ≥ fb.width ∨ y ≥ fb.height) := by omega
  have columns : ¬ x + width ≥ fb.width := Nat.not_le_of_lt right
  have rows : ¬ y + height ≥ fb.height := Nat.not_le_of_lt bottom
  rcases offsets_small (x := x) (y := y) (by omega) (by omega) right.le bottom.le with
    ⟨⟨rowStart, rowEnd⟩, columnStart, columnEnd⟩
  unfold Framebuffer.checkedKdrawRectangle Framebuffer.kdrawRectangle
  simp (disch := omega) only [if_neg onScreen, Nat.mod_eq_of_lt, if_neg columns, if_neg rows]
  refine foldlM_some (fun screen row inRows =>
    foldlM_some (fun screen column inColumns => ?_) screen) screen
  rcases (mem_loopValues (pitch_pos (x := x) (by omega))).mp inRows with ⟨b, within, rfl⟩
  rcases (mem_loopValues pixelwidth_pos).mp inColumns with ⟨a, inside, rfl⟩
  exact checkedPutPixel_some _ _ _ (offset_lt (x := a) (y := b) (by omega) (by omega))

end Accesses

section Runs

variable {fb : Framebuffer} {s : Desktop}

/-- A byte of movement keeps an on-screen position far from the ends of `int`. -/
theorem checkedMove_some {mousebytes : MouseBytes} {data : MouseData} (onScreen : fb.OnScreen data)
    (xByte : mousebytes.xMove < 256) (yByte : mousebytes.yMove < 256) :
    fb.checkedMove mousebytes data = some (fb.move mousebytes data) := by
  rcases onScreen with ⟨left, right, top, bottom⟩
  have widths := fb.width_lt
  have heights := fb.height_lt
  have small : ∀ n : Nat, n < 256 →
      (-51 ≤ Int.tdiv ((n : Int) - 255) 5 ∧ Int.tdiv ((n : Int) - 255) 5 ≤ 51) ∧
      (-51 ≤ Int.tdiv (n : Int) 5 ∧ Int.tdiv (n : Int) 5 ≤ 51) := by
    intro n byte
    have negative : Int.tdiv ((n : Int) - 255) 5 = -((255 - (n : Int)) / 5) := by
      rw [show (n : Int) - 255 = -(255 - n) by ring, Int.neg_tdiv,
        Int.tdiv_eq_ediv_of_nonneg (by omega)]
    rw [negative, Int.tdiv_eq_ediv_of_nonneg (Int.natCast_nonneg n)]
    omega
  have xSmall := small _ xByte
  have ySmall := small _ yByte
  simp only [Framebuffer.checkedMove, Framebuffer.move]
  rw [int32_some (n := data.xPos + Int.tdiv (mousebytes.xMove - 255) 5) (by omega) (by omega),
    int32_some (n := data.xPos + Int.tdiv mousebytes.xMove 5) (by omega) (by omega),
    int32_some (n := data.yPos - Int.tdiv (mousebytes.yMove - 255) 5) (by omega) (by omega),
    int32_some (n := data.yPos - Int.tdiv mousebytes.yMove 5) (by omega) (by omega)]
  by_cases xSign : mousebytes.xSb = 1
  · by_cases ySign : mousebytes.ySb = 1
    · simp only [if_pos xSign, if_pos ySign]
      rfl
    · simp only [if_pos xSign, if_neg ySign]
      rfl
  · by_cases ySign : mousebytes.ySb = 1
    · simp only [if_neg xSign, if_pos ySign]
      rfl
    · simp only [if_neg xSign, if_neg ySign]
      rfl

structure Bounded (fb : Framebuffer) (s : Desktop) : Prop where
  onScreen : fb.OnScreen s.data
  xByte : s.mousebytes.xMove < 256
  yByte : s.mousebytes.yMove < 256

theorem checkedUpdateCursor_some (wide : 6 ≤ fb.width) (tall : 6 ≤ fb.height)
    (bounded : Bounded fb s) :
    fb.checkedUpdateCursor s = some (fb.updateCursor s) ∧ Bounded fb (fb.updateCursor s) := by
  have onScreen := bounded.onScreen
  have moved := move_onScreen wide tall s.mousebytes s.data
  refine ⟨?_, moved, bounded.xByte, bounded.yByte⟩
  have column := Int.toNat_of_nonneg onScreen.x_nonneg
  have row := Int.toNat_of_nonneg onScreen.y_nonneg
  have right := onScreen.x_le
  have bottom := onScreen.y_le
  have restored : fb.checkedRestoreBackground s.data.xPos s.data.yPos s.savedPixels s.screen =
      some (fb.restoreBackground s.data.xPos s.data.yPos s.savedPixels s.screen) := by
    rw [← column, ← row]
    exact checkedRestoreBackground_some (by omega) (by omega)
  simp only [Framebuffer.checkedUpdateCursor, Framebuffer.updateCursor, restored,
    checkedMove_some onScreen bounded.xByte bounded.yByte, Option.bind_eq_bind, Option.bind_some]
  generalize fb.restoreBackground s.data.xPos s.data.yPos s.savedPixels s.screen = screen
  generalize fb.move s.mousebytes s.data = data at moved
  have widths := fb.width_lt
  have heights := fb.height_lt
  have column' := Int.toNat_of_nonneg moved.x_nonneg
  have row' := Int.toNat_of_nonneg moved.y_nonneg
  have right' := moved.x_le
  have bottom' := moved.y_le
  rw [← column', ← row', checkedSaveBackground_some (by omega) (by omega), Option.bind_some,
    toUInt32_cast (by omega), toUInt32_cast (by omega),
    checkedKdrawRectangle_some (by omega) (by omega)]
  rfl

theorem checkedStoreMouseData_some (wide : 6 ≤ fb.width) (tall : 6 ≤ fb.height) (s : Desktop)
    (packet : UInt8) (bounded : Bounded fb s) :
    fb.checkedStoreMouseData s packet = some (fb.storeMouseData s packet) ∧
      Bounded fb (fb.storeMouseData s packet) := by
  rcases s with ⟨⟨data, mousebytes, counter⟩, screen, saved⟩
  rcases bounded with ⟨onScreen, xByte, yByte⟩
  match counter with
  | 0 =>
      refine ⟨rfl, ?_⟩
      simp only [Framebuffer.storeMouseData]
      split
      · exact ⟨⟨onScreen.1, onScreen.2, onScreen.3, onScreen.4⟩, xByte, yByte⟩
      · exact ⟨⟨onScreen.1, onScreen.2, onScreen.3, onScreen.4⟩, xByte, yByte⟩
  | 1 => exact ⟨rfl, onScreen, packet.toNat_lt, yByte⟩
  | 2 => exact checkedUpdateCursor_some wide tall ⟨onScreen, xByte, packet.toNat_lt⟩
  | _ + 3 => exact ⟨rfl, onScreen, xByte, yByte⟩

/-- Whatever bytes the mouse sends, the cursor stays on the screen, no sum overflows and every
access is inside its array; so is every access of the setup. -/
theorem cursor_stays_inside (wide : 106 ≤ fb.width) (tall : 106 ≤ fb.height) (screen : Mem)
    (bytes : List UInt8) (s : Desktop) (column : s.data.xPos = 100) (row : s.data.yPos = 100)
    (xByte : s.mousebytes.xMove < 256) (yByte : s.mousebytes.yMove < 256) :
    fb.checkedInitializeCursor screen = some (fb.initializeCursor screen) ∧
      bytes.foldlM fb.checkedStoreMouseData s = some (bytes.foldl fb.storeMouseData s) ∧
      fb.OnScreen (bytes.foldl fb.storeMouseData s).data := by
  constructor
  · have saved : fb.checkedSaveBackground 100 100 screen (fun _ => 0) =
        some (fb.saveBackground 100 100 screen (fun _ => 0)) :=
      checkedSaveBackground_some (x := 100) (y := 100) (by omega) (by omega)
    have drawn : fb.checkedKdrawRectangle 100 100 5 5 0xFFFFFF screen =
        some (fb.kdrawRectangle 100 100 5 5 0xFFFFFF screen) :=
      checkedKdrawRectangle_some (by omega) (by omega)
    simp only [Framebuffer.checkedInitializeCursor, saved, Option.bind_eq_bind, Option.bind_some,
      drawn]
    rfl
  · have start : Bounded fb s := by
      refine ⟨⟨?_, ?_, ?_, ?_⟩, xByte, yByte⟩ <;> omega
    rcases foldlM_invariant (checkedStoreMouseData_some (by omega) (by omega)) bytes s start with
      ⟨run, bounded⟩
    exact ⟨run, bounded.onScreen⟩

theorem square_stays_inside :
    squareScreen.checkedInitializeCursor (fun n => UInt8.ofNat n) =
        some (squareScreen.initializeCursor fun n => UInt8.ofNat n) ∧
      [0x38, 255, 255].foldlM squareScreen.checkedStoreMouseData
          (squareScreen.initializeCursor fun n => UInt8.ofNat n) =
        some ([0x38, 255, 255].foldl squareScreen.storeMouseData
          (squareScreen.initializeCursor fun n => UInt8.ofNat n)) ∧
      squareScreen.OnScreen ([0x38, 255, 255].foldl squareScreen.storeMouseData
        (squareScreen.initializeCursor fun n => UInt8.ofNat n)).data :=
  cursor_stays_inside (by decide) (by decide) _ _ _ rfl rfl (by decide) (by decide)

end Runs

end PaintKernel
