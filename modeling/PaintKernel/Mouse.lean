import Mathlib
import PaintKernel.Graphics

set_option autoImplicit false

/-! The mouse and its cursor, a white square of `CURSOR_WIDTH` by `CURSOR_HEIGHT`, that is 5 by 5,
pixels. -/

namespace PaintKernel

open ByteMemory Raster

structure MouseData where
  xPos : Int
  yPos : Int
  leftClick : Bool
  rightClick : Bool
  middleClick : Bool
  deriving DecidableEq, Repr

structure MouseBytes where
  left : Nat
  right : Nat
  middle : Nat
  xSb : Nat
  ySb : Nat
  xMove : Nat
  yMove : Nat
  deriving DecidableEq, Repr

structure Mouse where
  data : MouseData
  mousebytes : MouseBytes
  mouseCounter : Nat
  deriving DecidableEq, Repr

structure Desktop extends Mouse where
  screen : Mem
  savedPixels : Nat → Nat

/-- Conversion of an `int` argument to `uint32_t`. -/
def toUInt32 (n : Int) : Nat := (n % 2 ^ 32).toNat

def packColor (b g r : UInt8) : Nat := b.toNat ||| g.toNat <<< 8 ||| r.toNat <<< 16

def Mouse.buttons (packet : UInt8) (m : Mouse) : Mouse :=
  let left := packet.toNat &&& 0x1
  let right := (packet.toNat &&& 0x2) >>> 1
  let middle := (packet.toNat &&& 0x4) >>> 2
  { m with
    mousebytes := { m.mousebytes with left := left, right := right, middle := middle }
    data := { m.data with
      leftClick := left != 0, rightClick := right != 0, middleClick := middle != 0 } }

namespace Framebuffer

variable (fb : Framebuffer)

def savePixel (screen : Mem) (y : Nat) (state : Int × (Nat → Nat)) (x : Nat) : Int × (Nat → Nat) :=
  let (index, savedPixels) := state
  let color := packColor (screen index.toNat) (screen (index + 1).toNat) (screen (index + 2).toNat)
  (index + fb.pixelwidth, Function.update savedPixels (x + y * 5) color)

def saveBackground (xStart yStart : Int) (screen : Mem) (savedPixels : Nat → Nat) : Nat → Nat :=
  let index := xStart * fb.pixelwidth + yStart * fb.pitch
  ((List.range 5).foldl (fun state y =>
    let (index, savedPixels) := (List.range 5).foldl (fb.savePixel screen y) state
    (index + (fb.pitch - fb.pixelwidth * 5), savedPixels)) (index, savedPixels)).2

def restoreBackground (xPos yPos : Int) (savedPixels : Nat → Nat) (screen : Mem) : Mem :=
  (List.range 5).foldl (fun screen i => (List.range 5).foldl (fun screen j =>
    let saved := savedPixels (i + j * 5)
    fb.drawPixel (toUInt32 (i + xPos)) (toUInt32 (j + yPos)) (red saved) (green saved) (blue saved)
      screen) screen) screen

/-- The new position, clamped to the screen. Division truncates toward zero. -/
def move (mousebytes : MouseBytes) (data : MouseData) : MouseData :=
  let x := if mousebytes.xSb = 1 then data.xPos + Int.tdiv (mousebytes.xMove - 255) 5
    else data.xPos + Int.tdiv mousebytes.xMove 5
  let y := if mousebytes.ySb = 1 then data.yPos - Int.tdiv (mousebytes.yMove - 255) 5
    else data.yPos - Int.tdiv mousebytes.yMove 5
  let x := if x < 0 then 0 else x
  let x := if x > fb.width - (5 + 1) then (fb.width : Int) - (5 + 1) else x
  let y := if y < 0 then 0 else y
  let y := if y > fb.height - (5 + 1) then (fb.height : Int) - (5 + 1) else y
  { data with xPos := x, yPos := y }

def updateCursor (s : Desktop) : Desktop :=
  let screen := fb.restoreBackground s.data.xPos s.data.yPos s.savedPixels s.screen
  let data := fb.move s.mousebytes s.data
  { s with
    data := data
    savedPixels := fb.saveBackground data.xPos data.yPos screen s.savedPixels
    screen := fb.kdrawRectangle (toUInt32 data.xPos) (toUInt32 data.yPos) 5 5 0xFFFFFF screen }

/-- The cursor setup on a screen; the structs live in fresh, zeroed pages. -/
def initializeCursor (screen : Mem) : Desktop where
  data := ⟨100, 100, false, false, false⟩
  mousebytes := ⟨0, 0, 0, 0, 0, 0, 0⟩
  mouseCounter := 0
  savedPixels := fb.saveBackground 100 100 screen (fun _ => 0)
  screen := fb.kdrawRectangle 100 100 5 5 0xFFFFFF screen

def storeMouseData (s : Desktop) (packet : UInt8) : Desktop :=
  match s.mouseCounter with
  | 0 =>
      let s := { s with toMouse := s.toMouse.buttons packet }
      if (packet.toNat &&& 0x8) >>> 3 = 0 then s
      else
        { s with
          mousebytes := { s.mousebytes with
            xSb := (packet.toNat &&& 0x10) >>> 4
            ySb := (packet.toNat &&& 0x20) >>> 5 }
          mouseCounter := 1 }
  | 1 => { s with mousebytes := { s.mousebytes with xMove := packet.toNat }, mouseCounter := 2 }
  | 2 =>
      fb.updateCursor
        { s with mousebytes := { s.mousebytes with yMove := packet.toNat }, mouseCounter := 0 }
  | _ => s

/-- What `store_mouse_data` does apart from the pixels. -/
def receive (m : Mouse) (packet : UInt8) : Mouse :=
  match m.mouseCounter with
  | 0 =>
      let m := m.buttons packet
      if (packet.toNat &&& 0x8) >>> 3 = 0 then m
      else
        { m with
          mousebytes := { m.mousebytes with
            xSb := (packet.toNat &&& 0x10) >>> 4
            ySb := (packet.toNat &&& 0x20) >>> 5 }
          mouseCounter := 1 }
  | 1 => { m with mousebytes := { m.mousebytes with xMove := packet.toNat }, mouseCounter := 2 }
  | 2 =>
      let mousebytes := { m.mousebytes with yMove := packet.toNat }
      { m with mousebytes := mousebytes, data := fb.move mousebytes m.data, mouseCounter := 0 }
  | _ => m

/-- The cursor and one more row and column of pixels lie on the screen. -/
structure OnScreen (data : MouseData) : Prop where
  x_nonneg : 0 ≤ data.xPos
  x_le : data.xPos + 6 ≤ fb.width
  y_nonneg : 0 ≤ data.yPos
  y_le : data.yPos + 6 ≤ fb.height

end Framebuffer

theorem storeMouseData_mouse (fb : Framebuffer) (s : Desktop) (packet : UInt8) :
    (fb.storeMouseData s packet).toMouse = fb.receive s.toMouse packet := by
  unfold Framebuffer.storeMouseData Framebuffer.receive
  rcases s with ⟨⟨data, mousebytes, counter⟩, screen, saved⟩
  match counter with
  | 0 =>
      simp only
      split <;> rfl
  | 1 => rfl
  | 2 => rfl
  | _ + 3 => rfl

theorem foldl_mouse (fb : Framebuffer) (bytes : List UInt8) (s : Desktop) :
    (bytes.foldl fb.storeMouseData s).toMouse = bytes.foldl fb.receive s.toMouse := by
  induction bytes generalizing s with
  | nil => rfl
  | cons packet rest ih => rw [List.foldl_cons, List.foldl_cons, ih, storeMouseData_mouse]

section Colours

theorem masked_byte (n shift : Nat) : (n &&& (0xFF <<< shift)) >>> shift = n / 2 ^ shift % 256 := by
  rw [Nat.shiftRight_and_distrib, Nat.shiftLeft_shiftRight, Nat.shiftRight_eq_div_pow]
  exact Nat.and_two_pow_sub_one_eq_mod _ 8

theorem packColor_eq (b g r : UInt8) :
    packColor b g r = b.toNat + 256 * g.toNat + 65536 * r.toNat := by
  have hb := b.toNat_lt
  have hg := g.toNat_lt
  have low : b.toNat ||| g.toNat <<< 8 = g.toNat <<< 8 + b.toNat := by
    rw [Nat.or_comm, Nat.shiftLeft_add_eq_or_of_lt hb]
  have bound : g.toNat <<< 8 + b.toNat < 2 ^ 16 := by
    rw [Nat.shiftLeft_eq]
    omega
  calc
    packColor b g r = r.toNat <<< 16 + (g.toNat <<< 8 + b.toNat) := by
      rw [packColor, low, Nat.or_comm, Nat.shiftLeft_add_eq_or_of_lt bound]
    _ = b.toNat + 256 * g.toNat + 65536 * r.toNat := by
      rw [Nat.shiftLeft_eq, Nat.shiftLeft_eq]
      omega

theorem packColor_lt (b g r : UInt8) : packColor b g r < 2 ^ 24 := by
  have hb := b.toNat_lt
  have hg := g.toNat_lt
  have hr := r.toNat_lt
  rw [packColor_eq]
  omega

theorem channels_packColor (b g r : UInt8) :
    channels (red (packColor b g r)) (green (packColor b g r)) (blue (packColor b g r)) =
      channels r g b := by
  have hb := b.toNat_lt
  have hg := g.toNat_lt
  have hr := r.toNat_lt
  have isRed : red (packColor b g r) = r := by
    have value : packColor b g r / 2 ^ 16 % 256 = r.toNat := by
      rw [packColor_eq]
      omega
    rw [red, show 0xFF0000 = 0xFF <<< 16 by decide, masked_byte, value, UInt8.ofNat_toNat]
  have isGreen : green (packColor b g r) = g := by
    have value : packColor b g r / 2 ^ 8 % 256 = g.toNat := by
      rw [packColor_eq]
      omega
    rw [green, show 0x00FF00 = 0xFF <<< 8 by decide, masked_byte, value, UInt8.ofNat_toNat]
  have isBlue : blue (packColor b g r) = b := by
    have value : packColor b g r / 2 ^ 0 % 256 = b.toNat := by
      rw [packColor_eq]
      omega
    rw [blue, ← Nat.shiftRight_zero (n := packColor b g r &&& 0x0000FF),
      show 0x0000FF = 0xFF <<< 0 by decide, masked_byte, value, UInt8.ofNat_toNat]
  rw [isRed, isGreen, isBlue]

end Colours

end PaintKernel
