import Mathlib
import PaintKernel.MousePackets
import PaintKernel.Library.Run

set_option autoImplicit false

/-! The buttons that are reported while a mouse stream, in step or not, goes on. -/

namespace PaintKernel

open Transition

structure Buttons where
  left : Bool
  right : Bool
  middle : Bool
  deriving DecidableEq, Repr

def Buttons.ofByte (packet : UInt8) : Buttons :=
  ⟨packet.toNat.testBit 0, packet.toNat.testBit 1, packet.toNat.testBit 2⟩

def MouseData.buttons (data : MouseData) : Buttons :=
  ⟨data.leftClick, data.rightClick, data.middleClick⟩

structure MouseBytes.Holds (mousebytes : MouseBytes) (b : Buttons) : Prop where
  left : mousebytes.left = b.left.toNat
  right : mousebytes.right = b.right.toNat
  middle : mousebytes.middle = b.middle.toNat

/-- The byte starts a packet: it has the bit that is always set. -/
def Accepts (s : Desktop) (packet : UInt8) : Prop :=
  s.mouseCounter = 0 ∧ packet.toNat.testBit 3 = true

def Skips (s : Desktop) (packet : UInt8) : Prop :=
  s.mouseCounter = 0 ∧ packet.toNat.testBit 3 = false

instance (s : Desktop) (packet : UInt8) : Decidable (Accepts s packet) :=
  inferInstanceAs (Decidable (_ ∧ _))

structure Watched where
  desktop : Desktop
  accepted : Buttons

def Framebuffer.watch (fb : Framebuffer) (w : Watched) (packet : UInt8) : Watched where
  desktop := fb.storeMouseData w.desktop packet
  accepted := if Accepts w.desktop packet then .ofByte packet else w.accepted

/-- The buttons reported after a byte are the accepted ones, and a skipped byte changes nothing. -/
structure Faithful (w : Watched) (packet : UInt8) (w' : Watched) : Prop where
  reported : w'.desktop.data.buttons = w'.accepted
  skipped : Skips w.desktop packet → w'.desktop = w.desktop

/-- A skipped byte repeats the button bits that are stored already. -/
def Repeats (w : Watched) (packet : UInt8) (_ : Watched) : Prop :=
  Skips w.desktop packet →
    w.desktop.data.buttons = .ofByte packet ∧ w.desktop.mousebytes.Holds (.ofByte packet)

section Bits

variable {fb : Framebuffer} {s : Desktop} {packet : UInt8}

theorem buttons_eq (packet : UInt8) (m : Mouse) :
    m.buttons packet = { m with
      mousebytes := { m.mousebytes with
        left := (Buttons.ofByte packet).left.toNat
        right := (Buttons.ofByte packet).right.toNat
        middle := (Buttons.ofByte packet).middle.toNat }
      data := { m.data with
        leftClick := (Buttons.ofByte packet).left
        rightClick := (Buttons.ofByte packet).right
        middleClick := (Buttons.ofByte packet).middle } } := by
  have left : packet.toNat &&& 0x1 = (packet.toNat.testBit 0).toNat := by
    simpa using shifted_bit packet.toNat 0
  have right : (packet.toNat &&& 0x2) >>> 1 = (packet.toNat.testBit 1).toNat :=
    shifted_bit packet.toNat 1
  have middle : (packet.toNat &&& 0x4) >>> 2 = (packet.toNat.testBit 2).toNat :=
    shifted_bit packet.toNat 2
  have flag : ∀ b : Bool, (b.toNat != 0) = b := by decide
  simp only [Mouse.buttons, left, right, middle, flag, Buttons.ofByte]

theorem storeMouseData_skips (skips : Skips s packet) :
    fb.storeMouseData s packet = { s with toMouse := s.toMouse.buttons packet } := by
  have clear : (packet.toNat &&& 0x8) >>> 3 = 0 := by
    rw [show 0x8 = 2 ^ 3 by decide, shifted_bit, skips.2]
    rfl
  simp only [Framebuffer.storeMouseData, skips.1, clear, if_true]

theorem skipped_iff (skips : Skips s packet) :
    fb.storeMouseData s packet = s ↔
      s.data.buttons = .ofByte packet ∧ s.mousebytes.Holds (.ofByte packet) := by
  rw [storeMouseData_skips skips, buttons_eq]
  rcases s with ⟨⟨⟨x, y, l, r, m⟩, ⟨left, right, middle, xSb, ySb, xMove, yMove⟩, counter⟩,
    screen, saved⟩
  constructor
  · intro same
    simp only [Desktop.mk.injEq, Mouse.mk.injEq, MouseData.mk.injEq, MouseBytes.mk.injEq, true_and,
      and_true] at same
    rcases same with ⟨⟨hl, hr, hm⟩, gl, gr, gm⟩
    exact ⟨by rw [MouseData.buttons, ← hl, ← hr, ← hm], ⟨gl.symm, gr.symm, gm.symm⟩⟩
  · rintro ⟨reported, ⟨gl, gr, gm⟩⟩
    rw [← reported] at gl gr gm ⊢
    simp only [MouseData.buttons] at gl gr gm ⊢
    rw [← gl, ← gr, ← gm]

theorem later_buttons (later : s.mouseCounter ≠ 0) :
    (fb.storeMouseData s packet).data.buttons = s.data.buttons := by
  rcases s with ⟨⟨data, mousebytes, counter⟩, screen, saved⟩
  match counter with
  | 0 => exact absurd rfl later
  | 1 => rfl
  | 2 => rfl
  | _ + 3 => rfl

theorem accepted_buttons (accepts : Accepts s packet) :
    (fb.storeMouseData s packet).data.buttons = .ofByte packet := by
  have start : s.mouseCounter = 0 := accepts.1
  have marked : (packet.toNat &&& 0x8) >>> 3 ≠ 0 := by
    rw [show 0x8 = 2 ^ 3 by decide, shifted_bit, accepts.2]
    decide
  simp only [Framebuffer.storeMouseData, start, marked, if_false, buttons_eq]
  rfl

theorem watch_reported {w : Watched} (before : w.desktop.data.buttons = w.accepted)
    (repeats : Repeats w packet (fb.watch w packet)) :
    (fb.watch w packet).desktop.data.buttons = (fb.watch w packet).accepted := by
  simp only [Framebuffer.watch]
  by_cases accepts : Accepts w.desktop packet
  · rw [if_pos accepts, accepted_buttons accepts]
  · rw [if_neg accepts]
    by_cases start : w.desktop.mouseCounter = 0
    · have skips : Skips w.desktop packet :=
        ⟨start, Bool.eq_false_iff.mpr fun marked => accepts ⟨start, marked⟩⟩
      rw [(skipped_iff skips).mpr (repeats skips), before]
    · rw [later_buttons start, before]

theorem faithful_iff {w : Watched} (before : w.desktop.data.buttons = w.accepted) :
    Faithful w packet (fb.watch w packet) ↔ Repeats w packet (fb.watch w packet) := by
  constructor
  · intro faithful skips
    exact (skipped_iff skips).mp (faithful.skipped skips)
  · intro repeats
    exact ⟨watch_reported before repeats, fun skips => (skipped_iff skips).mpr (repeats skips)⟩

end Bits

/-- From any state, the report follows the accepted packets between all the bytes of a stream, and
skipped bytes change nothing, exactly when every skipped byte repeats the stored button bits. -/
theorem buttons_reported_iff (fb : Framebuffer) (s : Desktop) {bytes : List UInt8} {w : Watched} :
    Run (fun w b w' => fb.watch w b = w' ∧ Faithful w b w') ⟨s, s.data.buttons⟩ bytes w ↔
      Run (fun w b w' => fb.watch w b = w' ∧ Repeats w b w') ⟨s, s.data.buttons⟩ bytes w := by
  refine run_congr (fun w => w.desktop.data.buttons = w.accepted) ?_ ?_ rfl
  · rintro w b _ before rfl
    exact faithful_iff before
  · rintro w b _ before rfl repeats
    exact watch_reported before repeats

theorem phantom_click :
    let s := squareScreen.initializeCursor fun _ => 0
    ¬ Run (fun w b w' => squareScreen.watch w b = w' ∧ Faithful w b w') ⟨s, s.data.buttons⟩ [0x01]
      (squareScreen.watch ⟨s, s.data.buttons⟩ 0x01) := by
  intro s run
  cases run with
  | cons first _ =>
      rcases first with ⟨rfl, faithful⟩
      have reported := faithful.reported
      simp only [Framebuffer.watch] at reported
      revert reported
      decide

end PaintKernel
