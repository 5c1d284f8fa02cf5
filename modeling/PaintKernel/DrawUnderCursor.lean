import Mathlib
import PaintKernel.Cursor

set_option autoImplicit false

/-! Drawing system calls while the cursor is on the screen. -/

namespace PaintKernel

open ByteMemory Raster

inductive DrawCall where
  | drawRectangle (x y width height color : Nat)
  | gwrite (x y color : Nat) (arr : Nat → UInt8) (size : Nat)

namespace DrawCall

variable (fb : Framebuffer) (beyond : Nat → UInt8)

def run (screen : Mem) : DrawCall → Mem
  | .drawRectangle x y width height color => fb.sysDrawRectangle x y width height color screen
  | .gwrite x y color arr size => fb.sysGwrite beyond x y color arr size screen

def region : DrawCall → Region
  | .drawRectangle x y width height _ => Rectangle x y width height
  | .gwrite x y _ _ size => Rectangle x y (8 * size) 8

def picture : DrawCall → Picture
  | .drawRectangle _ _ _ _ color => solid color
  | .gwrite x y color arr _ => textPicture beyond x y color arr

theorem run_paint {fb : Framebuffer} {call : DrawCall} (visible : fb.Shows call.region)
    (screen : Mem) :
    call.run fb beyond screen = fb.layout.paint call.region (call.picture beyond) screen := by
  cases call with
  | drawRectangle x y width height color => exact sysDrawRectangle_paint visible
  | gwrite x y color arr size => exact sysGwrite_paint visible

end DrawCall

/-- The bytes end the packet that the mouse is sending: the last of them, and no other, makes
`store_mouse_data` move the cursor. -/
def Framebuffer.Completes (fb : Framebuffer) : Mouse → List UInt8 → Prop
  | _, [] => False
  | m, [_] => m.mouseCounter = 2
  | m, packet :: next :: rest =>
      m.mouseCounter ≠ 2 ∧ fb.Completes (fb.receive m packet) (next :: rest)

def MouseData.cursor (data : MouseData) : Region := Rectangle data.xPos.toNat data.yPos.toNat 5 5

def Framebuffer.withoutCursor (fb : Framebuffer) (s : Desktop) : Mem :=
  fb.restoreBackground s.data.xPos s.data.yPos s.savedPixels s.screen

/-- After the packet, the screen outside the cursor is what the call would have produced on the
screen without any cursor. -/
def DrawCall.CommutesWith (call : DrawCall) (fb : Framebuffer) (beyond : Nat → UInt8) (s : Desktop)
    (bytes : List UInt8) : Prop :=
  let after := bytes.foldl fb.storeMouseData { s with screen := call.run fb beyond s.screen }
  ∀ n, ¬ fb.layout.Inside after.data.cursor n →
    after.screen n = call.run fb beyond (fb.withoutCursor s) n

section Draw

variable {fb : Framebuffer} {s : Desktop} {beyond : Nat → UInt8} {call : DrawCall}

theorem storeMouseData_waits (fb : Framebuffer) {s : Desktop} (waiting : s.mouseCounter ≠ 2)
    (packet : UInt8) :
    fb.storeMouseData s packet = { s with toMouse := fb.receive s.toMouse packet } ∧
      (fb.receive s.toMouse packet).data.xPos = s.data.xPos ∧
      (fb.receive s.toMouse packet).data.yPos = s.data.yPos := by
  unfold Framebuffer.storeMouseData Framebuffer.receive
  rcases s with ⟨⟨data, mousebytes, counter⟩, screen, saved⟩
  match counter with
  | 0 =>
      simp only
      split
      · exact ⟨rfl, rfl, rfl⟩
      · exact ⟨rfl, rfl, rfl⟩
  | 1 => exact ⟨rfl, rfl, rfl⟩
  | 2 => exact absurd rfl waiting
  | _ + 3 => exact ⟨rfl, rfl, rfl⟩

theorem completes_run {bytes : List UInt8} (completes : fb.Completes s.toMouse bytes) :
    ∃ m : Mouse, m.data.xPos = s.data.xPos ∧ m.data.yPos = s.data.yPos ∧
      bytes.foldl fb.storeMouseData s = fb.updateCursor { s with toMouse := m } := by
  induction bytes generalizing s with
  | nil => cases completes
  | cons packet rest ih =>
      cases rest with
      | nil =>
          rcases s with ⟨⟨data, mousebytes, counter⟩, screen, saved⟩
          cases completes
          exact ⟨⟨data, { mousebytes with yMove := packet.toNat }, 0⟩, rfl, rfl, rfl⟩
      | cons next rest =>
          rcases completes with ⟨waiting, completes⟩
          rcases storeMouseData_waits fb waiting packet with ⟨stored, column, row⟩
          rcases ih (s := { s with toMouse := fb.receive s.toMouse packet }) completes with
            ⟨m, column', row', run⟩
          refine ⟨m, column'.trans column, row'.trans row, ?_⟩
          rw [List.foldl_cons, stored, run]

theorem updateCursor_outside (s : Desktop) (wide : 6 ≤ fb.width) (tall : 6 ≤ fb.height) {n : Nat}
    (away : ¬ fb.layout.Inside (fb.move s.mousebytes s.data).cursor n) :
    (fb.updateCursor s).screen n = fb.withoutCursor s n := by
  have onScreen := move_onScreen wide tall s.mousebytes s.data
  have column := Int.toNat_of_nonneg onScreen.x_nonneg
  have row := Int.toNat_of_nonneg onScreen.y_nonneg
  have right := onScreen.x_le
  have bottom := onScreen.y_le
  have widths := fb.width_lt
  have heights := fb.height_lt
  unfold MouseData.cursor at away
  simp only [Framebuffer.updateCursor]
  generalize (fb.move s.mousebytes s.data).xPos.toNat = x,
    (fb.move s.mousebytes s.data).yPos.toNat = y
    at away column row
  rw [← column] at right ⊢
  rw [← row] at bottom ⊢
  rw [toUInt32_cast (by omega), toUInt32_cast (by omega),
    kdrawRectangle_paint (by omega) (by omega),
      Layout.paint_outside (fun inside => away ⟨inside.1, inside.2.1, inside.2.2.1⟩)]
  rfl

theorem withoutCursor_paint (onScreen : fb.OnScreen s.data) :
    fb.withoutCursor s = fb.layout.paint s.data.cursor
      (savedPicture s.data.xPos.toNat s.data.yPos.toNat s.savedPixels) s.screen := by
  have column := Int.toNat_of_nonneg onScreen.x_nonneg
  have row := Int.toNat_of_nonneg onScreen.y_nonneg
  have right := onScreen.x_le
  have bottom := onScreen.y_le
  unfold Framebuffer.withoutCursor MouseData.cursor
  generalize s.data.xPos.toNat = x, s.data.yPos.toNat = y at column row
  rw [← column] at right ⊢
  rw [← row] at bottom ⊢
  exact restoreBackground_paint (by omega) (by omega)

theorem packet_restores {bytes : List UInt8} (onScreen : fb.OnScreen s.data)
    (completes : fb.Completes s.toMouse bytes) {n : Nat}
    (away : ¬ fb.layout.Inside (bytes.foldl fb.storeMouseData s).data.cursor n) :
    (bytes.foldl fb.storeMouseData s).screen n = fb.withoutCursor s n := by
  have wide : 6 ≤ fb.width := by
    have := onScreen.x_nonneg
    have := onScreen.x_le
    omega
  have tall : 6 ≤ fb.height := by
    have := onScreen.y_nonneg
    have := onScreen.y_le
    omega
  rcases completes_run completes with ⟨m, column, row, run⟩
  rw [run] at away
  rw [run, updateCursor_outside { s with toMouse := m } wide tall away]
  unfold Framebuffer.withoutCursor
  rw [column, row]

/-- One byte outside the new cursor: there the drawing and the restoring commute unless both
set it. -/
theorem drawing_commutes_at {bytes : List UInt8} (onScreen : fb.OnScreen s.data)
    (visible : fb.Shows call.region) (completes : fb.Completes s.toMouse bytes) {n : Nat}
    (away : ¬ fb.layout.Inside (bytes.foldl fb.storeMouseData
      { s with screen := call.run fb beyond s.screen }).data.cursor n) :
    (bytes.foldl fb.storeMouseData { s with screen := call.run fb beyond s.screen }).screen n =
        call.run fb beyond (fb.withoutCursor s) n ↔
      (fb.layout.Inside s.data.cursor n → fb.layout.Inside call.region n →
        savedPicture s.data.xPos.toNat s.data.yPos.toNat s.savedPixels (fb.layout.column n)
          (fb.layout.row n) (fb.layout.channel n) =
        call.picture beyond (fb.layout.column n) (fb.layout.row n) (fb.layout.channel n)) := by
  have restored := packet_restores (s := { s with screen := call.run fb beyond s.screen }) onScreen
    completes away
  have painted := withoutCursor_paint
    (s := { s with screen := call.run fb beyond s.screen }) onScreen
  have bare : call.run fb beyond (fb.withoutCursor s) =
    fb.layout.paint call.region (call.picture beyond)
      (fb.layout.paint s.data.cursor
        (savedPicture s.data.xPos.toNat s.data.yPos.toNat s.savedPixels) s.screen) := by
    rw [withoutCursor_paint onScreen, call.run_paint beyond visible]
  rw [restored, painted, bare, call.run_paint beyond visible, Layout.paint_comm_iff]

/-- Drawing and cursor motion commute exactly when every pixel that the cursor uncovers keeps, in
the drawing, the colour that was saved for it. -/
theorem drawing_commutes_iff {bytes : List UInt8} (onScreen : fb.OnScreen s.data)
    (visible : fb.Shows call.region) (completes : fb.Completes s.toMouse bytes) :
    call.CommutesWith fb beyond s bytes ↔ ∀ a b, s.data.cursor a b → call.region a b →
      ¬ (bytes.foldl fb.receive s.toMouse).data.cursor a b →
      ∀ c < 3, savedPicture s.data.xPos.toNat s.data.yPos.toNat s.savedPixels a b c =
        call.picture beyond a b c := by
  have moved := congrArg Mouse.data
    (foldl_mouse fb bytes { s with screen := call.run fb beyond s.screen })
  rw [← moved]
  constructor
  · intro commutes a b under drawn uncovered c channel
    have inside := (visible a b drawn).1
    have below : c < fb.layout.step := lt_of_lt_of_le channel (three_le_step fb)
    have place : ∀ region : Region, fb.layout.Inside region (fb.layout.offset a b + c) ↔
        region a b :=
      fun _ => Layout.inside_offset (r := fb.layout) inside channel
    have away := (place _).not.mpr uncovered
    have equal := (drawing_commutes_at onScreen visible completes away).mp (commutes _ away)
      ((place _).mpr under) ((place _).mpr drawn)
    rwa [Layout.column_offset (r := fb.layout) inside below,
      Layout.row_offset (r := fb.layout) inside below,
        Layout.channel_offset (r := fb.layout) inside below] at equal
  · intro kept n away
    rw [drawing_commutes_at onScreen visible completes away]
    intro under drawn
    refine kept _ _ under.2.2 drawn.2.2 ?_ _ under.2.1
    exact fun there => away ⟨under.1, under.2.1, there⟩

end Draw

def blackDesktop : Desktop := squareScreen.initializeCursor (fun _ => 0)

def tenRight : List UInt8 := [0x08, 50, 0]

theorem black_onScreen : squareScreen.OnScreen blackDesktop.data :=
  ⟨by decide, by decide, by decide, by decide⟩

theorem tenRight_completes : squareScreen.Completes blackDesktop.toMouse tenRight :=
  ⟨by decide, by decide, rfl⟩

theorem tenRight_moves :
    (tenRight.foldl squareScreen.receive blackDesktop.toMouse).data.xPos = 110 := by
  decide

def rectangleBeside : DrawCall := .drawRectangle 10 10 20 20 0xFF0000

theorem beside_commutes :
    rectangleBeside.CommutesWith squareScreen (fun _ => 0) blackDesktop tenRight := by
  refine (drawing_commutes_iff black_onScreen ?_ tenRight_completes).mpr ?_
  · rintro a b ⟨columns, rows⟩
    change a < 200 ∧ b < 200
    omega
  · rintro a b ⟨left, _⟩ ⟨columns, _⟩
    change 100 ≤ a ∧ a < 105 at left
    omega

def redPixel : DrawCall := .drawRectangle 100 100 1 1 0xFF0000

theorem red_pixel_lost :
    squareScreen.OnScreen blackDesktop.data ∧ squareScreen.Shows redPixel.region ∧
      squareScreen.Completes blackDesktop.toMouse tenRight ∧
      (tenRight.foldl squareScreen.receive blackDesktop.toMouse).data.xPos ≠
        blackDesktop.data.xPos ∧
      ¬ redPixel.CommutesWith squareScreen (fun _ => 0) blackDesktop tenRight := by
  have visible : squareScreen.Shows redPixel.region := by
    rintro a b ⟨columns, rows⟩
    change a < 200 ∧ b < 200
    omega
  refine ⟨black_onScreen, visible, tenRight_completes, by rw [tenRight_moves]; decide, ?_⟩
  intro commutes
  have inside : 100 < squareScreen.layout.width := by decide
  have place : ∀ region : Region,
      squareScreen.layout.Inside region (squareScreen.layout.offset 100 100 + 2) ↔ region 100 100 :=
    fun _ => Layout.inside_offset inside (by decide)
  have away : ¬ squareScreen.layout.Inside
      (tenRight.foldl squareScreen.storeMouseData { blackDesktop with
      screen := redPixel.run squareScreen (fun _ => 0) blackDesktop.screen }).data.cursor
      (squareScreen.layout.offset 100 100 + 2) := by
    rw [place, foldl_mouse]
    rintro ⟨columns, _⟩
    rw [tenRight_moves] at columns
    omega
  have equal := (drawing_commutes_at black_onScreen visible tenRight_completes away).mp
    (commutes _ away) ((place _).mpr ⟨by decide, by decide⟩) ((place _).mpr ⟨by decide, by decide⟩)
  rw [Layout.column_offset inside (by decide), Layout.row_offset inside (by decide),
    Layout.channel_offset inside (by decide)] at equal
  have black : blackDesktop.savedPixels 0 = 0 :=
    (initializeCursor_over (by decide) (by decide) (fun _ => 0)).saved 0 (by decide) 0 (by decide)
  have saved : savedPicture 100 100 blackDesktop.savedPixels 100 100 2 = 0 := by
    change solid (blackDesktop.savedPixels 0) 100 100 2 = 0
    rw [black]
    decide
  have drawn : redPixel.picture (fun _ => 0) 100 100 2 = 255 := by decide
  have impossible : (0 : UInt8) = 255 := by
    calc
      0 = savedPicture 100 100 blackDesktop.savedPixels 100 100 2 := saved.symm
      _ = redPixel.picture (fun _ => 0) 100 100 2 := equal
      _ = 255 := drawn
  exact absurd impossible (by decide)

end PaintKernel
