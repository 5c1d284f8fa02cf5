import Mathlib
import PaintKernel.Terminal
import PaintKernel.Library.Ports

set_option autoImplicit false

/-! The cursor that the VGA controller shows, which `term.c` moves after every change of the
terminal. -/

namespace PaintKernel

open ByteMemory Ports TextLayout Transition

def termEnableCursor : PortProgram Unit := do
  outb 0x3D4 0x0A
  outb 0x3D5 (((← inb 0x3D5) &&& 0xC0) ||| 13)
  outb 0x3D4 0x0B
  outb 0x3D5 (((← inb 0x3D5) &&& 0xE0) ||| 15)

def termUpdateCursor (t : Terminal) : PortProgram Unit := do
  let pos : UInt16 := UInt16.ofNat (t.termRow * 80 + t.termCol)
  outb 0x3D4 0x0F
  outb 0x3D5 (pos &&& 0xFF).toUInt8
  outb 0x3D4 0x0E
  outb 0x3D5 ((pos >>> 8) &&& 0xFF).toUInt8

structure Crtc where
  index : UInt8
  regs : UInt8 → UInt8

namespace Crtc

def read (d : Crtc) (port : UInt16) : UInt8 := if port = 0x3D5 then d.regs d.index else 0

def write (d : Crtc) (port : UInt16) (val : UInt8) : Crtc :=
  if port = 0x3D4 then { d with index := val }
  else if port = 0x3D5 then { d with regs := fun r => if r = d.index then val else d.regs r }
  else d

def exec (p : PortProgram Unit) (d : Crtc) : Crtc := (Ports.exec read write p d).2

def position (d : Crtc) : Nat := (d.regs 0x0E).toNat * 256 + (d.regs 0x0F).toNat

structure Underlined (d : Crtc) : Prop where
  enabled : d.regs 0x0A &&& 0x3F = 13
  lines : d.regs 0x0B &&& 0x1F = 15

end Crtc

structure TextMode where
  terminal : Terminal
  crtc : Crtc

namespace TextMode

/-- Every way out of `term_putchar` is by `term_update_cursor`. -/
def putchar (s : TextMode) (c : UInt8) : Option TextMode := do
  let terminal ← s.terminal.termPutchar c
  return { terminal, crtc := s.crtc.exec (termUpdateCursor terminal) }

def init (vga : Mem) (crtc : Crtc) : Option TextMode := do
  let terminal ← termInit vga
  return { terminal, crtc := (crtc.exec termEnableCursor).exec (termUpdateCursor terminal) }

structure Follows (s : TextMode) : Prop where
  position : s.crtc.position = s.terminal.termRow * 80 + s.terminal.termCol
  underlined : s.crtc.Underlined

end TextMode

section Registers

variable {d : Crtc}

theorem exec_enableCursor (d : Crtc) :
    (d.exec termEnableCursor).regs = fun r : UInt8 =>
      if r = 0x0B then d.regs 0x0B &&& 0xE0 ||| 15 else if r = 0x0A then d.regs 0x0A &&& 0xC0 ||| 13
        else d.regs r := by
  funext r
  rfl

theorem exec_updateCursor (d : Crtc) (t : Terminal) :
    (d.exec (termUpdateCursor t)).regs = fun r : UInt8 =>
      let pos := UInt16.ofNat (t.termRow * 80 + t.termCol)
      if r = 0x0E then ((pos >>> 8) &&& 0xFF).toUInt8
      else if r = 0x0F then (pos &&& 0xFF).toUInt8 else d.regs r := by
  funext r
  rfl

theorem position_bytes (pos : UInt16) :
    ((pos >>> 8) &&& 0xFF).toUInt8.toNat * 256 + (pos &&& 0xFF).toUInt8.toNat = pos.toNat := by
  have low (x : UInt16) : (x &&& 0xFF).toUInt8.toNat = x.toNat % 256 := by
    have mask : x.toNat &&& (0xFF : UInt16).toNat = x.toNat % 256 :=
      Nat.and_two_pow_sub_one_eq_mod x.toNat 8
    rw [UInt16.toNat_toUInt8, UInt16.toNat_and, mask]
    exact Nat.mod_mod _ _
  have high : (pos >>> 8).toNat = pos.toNat / 256 := by
    rw [UInt16.toNat_shiftRight]
    exact Nat.shiftRight_eq_div_pow pos.toNat 8
  have bound := pos.toNat_lt
  rw [low, low, high]
  omega

theorem shape_bits (b : UInt8) :
    (b &&& 0xC0 ||| 13) &&& 0x3F = 13 ∧ (b &&& 0xE0 ||| 15) &&& 0x1F = 15 := by
  have bits : ∀ v : BitVec 8, (v &&& 0xC0 ||| 13) &&& 0x3F = 13 ∧
      (v &&& 0xE0 ||| 15) &&& 0x1F = 15 := by decide
  exact ⟨UInt8.toBitVec_inj.mp (bits b.toBitVec).1, UInt8.toBitVec_inj.mp (bits b.toBitVec).2⟩

theorem enableCursor_underlined (d : Crtc) : (d.exec termEnableCursor).Underlined where
  enabled := by
    rw [exec_enableCursor]
    exact (shape_bits (d.regs 0x0A)).1
  lines := by
    rw [exec_enableCursor]
    exact (shape_bits (d.regs 0x0B)).2

theorem updateCursor_underlined (underlined : d.Underlined) (t : Terminal) :
    (d.exec (termUpdateCursor t)).Underlined where
  enabled := by
    rw [exec_updateCursor]
    exact underlined.enabled
  lines := by
    rw [exec_updateCursor]
    exact underlined.lines

/-- The two registers hold the position as long as it fits their 16 bits. -/
theorem updateCursor_position (d : Crtc) {t : Terminal}
    (fits : t.termRow * 80 + t.termCol < 2 ^ 16) :
    (d.exec (termUpdateCursor t)).position = t.termRow * 80 + t.termCol := by
  rw [Crtc.position, exec_updateCursor]
  calc
    _ = (UInt16.ofNat (t.termRow * 80 + t.termCol)).toNat := position_bytes _
    _ = t.termRow * 80 + t.termCol := UInt16.toNat_ofNat_of_lt fits

end Registers

section Texts

variable {s : TextMode} {l : Layout 80 UInt8}

theorem Displays.fits {t : Terminal} (shows : Displays t l) :
    t.termRow * 80 + t.termCol < 2 ^ 16 := by
  have row := shows.row_lt
  have col := shows.col
  have narrow := l.col_le
  omega

theorem init_follows (vga : Mem) (crtc : Crtc) :
    ∃ s, TextMode.init vga crtc = some s ∧ s.Follows ∧ Displays s.terminal (.start 0x20) := by
  obtain ⟨t, ready, shows⟩ := termInit_shows vga
  refine ⟨⟨t, (crtc.exec termEnableCursor).exec (termUpdateCursor t)⟩, ?_, ⟨?_, ?_⟩, shows⟩
  · rw [TextMode.init, ready]
    rfl
  · exact updateCursor_position _ shows.fits
  · exact updateCursor_underlined (enableCursor_underlined crtc) t

theorem putchar_follows (follows : s.Follows) (shows : Displays s.terminal l) (c : UInt8) :
    ∃ s', s.putchar c = some s' ∧ s'.Follows ∧
      Displays s'.terminal (l.type 0x20 (by decide) (stroke c)) := by
  obtain ⟨t, put, shows'⟩ := putchar_shows shows c
  refine ⟨⟨t, s.crtc.exec (termUpdateCursor t)⟩, ?_, ⟨?_, ?_⟩, shows'⟩
  · rw [TextMode.putchar, put]
    rfl
  · exact updateCursor_position _ shows'.fits
  · exact updateCursor_underlined follows.underlined t

theorem text_follows (text : List UInt8) (follows : s.Follows) (shows : Displays s.terminal l) :
    ∃ s', text.foldlM TextMode.putchar s = some s' ∧ s'.Follows ∧
      Displays s'.terminal (text.foldl (fun l c => l.type 0x20 (by decide) (stroke c)) l) := by
  induction text generalizing s l with
  | nil => exact ⟨s, rfl, follows, shows⟩
  | cons c rest ih =>
      obtain ⟨next, put, follows', shows'⟩ := putchar_follows follows shows c
      obtain ⟨last, later, final⟩ := ih follows' shows'
      exact ⟨last, by simp [put, later], final⟩

/-- Whatever the controller held before and whatever is printed, the cursor on the screen is on, and
it is where the layout of the text has it: in its column of the last row, which is row 24 once there
are that many. -/
theorem cursor_follows_text (vga : Mem) (crtc : Crtc) (text : List UInt8) :
    ∃ s, (do text.foldlM TextMode.putchar (← TextMode.init vga crtc)) = some s ∧ s.crtc.Underlined ∧
      s.crtc.position = min (layout text).above.length 24 * 80 + (layout text).col ∧
      Displays s.terminal (layout text) := by
  obtain ⟨s₀, ready, follows₀, shows₀⟩ := init_follows vga crtc
  obtain ⟨s, printed, follows, shows⟩ := text_follows text follows₀ shows₀
  have row : s.terminal.termRow = min (layout text).above.length 24 := by
    have place : (layout text).above.length + 1 - 25 + s.terminal.termRow =
        (layout text).above.length := shows.row
    have low := shows.row_lt
    omega
  refine ⟨s, ?_, follows.underlined, ?_, shows⟩
  · rw [ready]
    exact printed
  · rw [follows.position, row, shows.col]
    rfl

end Texts

end PaintKernel
