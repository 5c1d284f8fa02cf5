import Mathlib
import PaintKernel.ClearScreen
import PaintKernel.Library.LastWriter

set_option autoImplicit false

/-! The screen as a picture with a sprite on top: what drawing system calls and the mouse make of it
when the mouse interrupts them between any two of their stores. -/

namespace PaintKernel

open ByteMemory Raster LastWriter

/-- One store of the kernel to the framebuffer or to `saved_pixels`, or one interrupt of the mouse.
-/
inductive Access where
  | store (n : Nat) (v : UInt8)
  | remember (i color : Nat)
  | packet (byte : UInt8)
deriving DecidableEq

namespace Access

def Valid : Access → Prop
  | remember i _ => i < 25
  | _ => True

def isPacket : Access → Bool
  | packet _ => true
  | _ => false

end Access

def Desktop.access (fb : Framebuffer) (s : Desktop) : Access → Desktop
  | .store n v => s.put (n, v)
  | .remember i color => { s with savedPixels := Function.update s.savedPixels i color }
  | .packet byte => fb.storeMouseData s byte

def Mouse.access (fb : Framebuffer) (m : Mouse) : Access → Mouse
  | .packet byte => fb.receive m byte
  | _ => m

structure Display where
  mouse : Mouse
  background : Mem
  sprite : Mem

open Classical in
/-- What an access writes of the picture: stores under the sprite do not reach it, and an entry of
`saved_pixels` is a pixel of it. -/
noncomputable def Framebuffer.paints (fb : Framebuffer) (m : Mouse) : Access → Nat → Option UInt8
  | .store k v, n => if n = k ∧ ¬ fb.layout.Inside m.data.cursor n then some v else none
  | .remember i color, n =>
      if fb.layout.Inside (m.data.pixel i) n then
        some (solid color (fb.layout.column n) (fb.layout.row n) (fb.layout.channel n))
      else none
  | .packet _, _ => none

open Classical in
noncomputable def Framebuffer.covers (fb : Framebuffer) (m : Mouse) : Access → Nat → Option UInt8
  | .store k v, n => if n = k ∧ fb.layout.Inside m.data.cursor n then some v else none
  | .remember _ _, _ => none
  | .packet _, _ => if m.mouseCounter = 2 then some 0xFF else none

namespace Display

variable (fb : Framebuffer) (d : Display)

noncomputable def access (a : Access) : Display where
  mouse := d.mouse.access fb a
  background n := (fb.paints d.mouse a n).getD (d.background n)
  sprite n := (fb.covers d.mouse a n).getD (d.sprite n)

open Classical in
noncomputable def shown : Mem := fun n =>
  if fb.layout.Inside d.mouse.data.cursor n then d.sprite n else d.background n

end Display

/-- The desktop shows a display, and what it would uncover is the picture of the display. -/
structure Depicts (fb : Framebuffer) (s : Desktop) (d : Display) : Prop where
  mouse : s.toMouse = d.mouse
  onScreen : fb.OnScreen s.data
  beneath : fb.withoutCursor s = d.background
  sprite : ∀ n, fb.layout.Inside s.data.cursor n → s.screen n = d.sprite n

section Steps

variable {fb : Framebuffer} {s : Desktop} {d : Display} {n : Nat}

theorem screen_outside (onScreen : fb.OnScreen s.data) (away : ¬ fb.layout.Inside s.data.cursor n) :
    s.screen n = fb.withoutCursor s n := by
  rw [withoutCursor_paint onScreen, Layout.paint_outside away]

theorem Depicts.shows (depicts : Depicts fb s d) : s.screen = d.shown fb := by
  funext n
  rw [Display.shown, ← depicts.mouse]
  by_cases under : fb.layout.Inside s.data.cursor n
  · rw [if_pos under]
    exact depicts.sprite n under
  · rw [if_neg under, ← depicts.beneath]
    exact screen_outside depicts.onScreen under

theorem put_beneath (onScreen : fb.OnScreen s.data) (k : Nat) (v : UInt8) :
    fb.withoutCursor (s.put (k, v)) n =
      (fb.paints s.toMouse (.store k v) n).getD (fb.withoutCursor s n) := by
  by_cases uncovered : n = k ∧ ¬ fb.layout.Inside s.data.cursor n
  · rw [Framebuffer.paints, if_pos uncovered]
    exact (put_marks (k, v)).marked s n onScreen uncovered
  · rw [Framebuffer.paints, if_neg uncovered]
    exact (put_marks (k, v)).other s n onScreen uncovered

theorem remember_beneath (onScreen : fb.OnScreen s.data) {i : Nat} (entry : i < 25) (color : Nat) :
    fb.withoutCursor (s.access fb (.remember i color)) n =
      (fb.paints s.toMouse (.remember i color) n).getD (fb.withoutCursor s n) := by
  have painted : fb.withoutCursor (s.access fb (.remember i color)) =
      fb.layout.paint s.data.cursor (savedPicture s.data.xPos.toNat s.data.yPos.toNat
        (Function.update s.savedPixels i color)) s.screen := withoutCursor_paint onScreen
  rw [painted, withoutCursor_paint onScreen]
  by_cases hit : fb.layout.Inside (s.data.pixel i) n
  · rw [Framebuffer.paints, if_pos hit, Option.getD_some]
    rcases hit with ⟨column, channel, place, line⟩
    have under : fb.layout.Inside s.data.cursor n :=
      ⟨column, channel, by rw [place]; omega, by rw [line]; omega⟩
    rw [Layout.paint_inside under, savedPicture, place, line, Nat.add_sub_cancel_left,
      Nat.add_sub_cancel_left, Nat.mod_add_div', Function.update_self]
  · rw [Framebuffer.paints, if_neg hit, Option.getD_none]
    by_cases under : fb.layout.Inside s.data.cursor n
    · have index : fb.layout.column n - s.data.xPos.toNat +
          (fb.layout.row n - s.data.yPos.toNat) * 5 ≠ i := by
        rintro rfl
        rcases under.2.2 with ⟨columns, rows⟩
        exact hit ⟨under.1, under.2.1, by omega, by omega⟩
      rw [Layout.paint_inside under, Layout.paint_inside under, savedPicture, savedPicture,
        Function.update_of_ne index]
    · rw [Layout.paint_outside under, Layout.paint_outside under]

theorem CursorOver.white_inside {background : Mem} (drawn : CursorOver fb background s)
    (under : fb.layout.Inside s.data.cursor n) : s.screen n = 0xFF := by
  obtain ⟨_, channel, columns, rows⟩ := under
  have white := drawn.white (fb.layout.column n - s.data.xPos.toNat) (by omega)
    (fb.layout.row n - s.data.yPos.toNat) (by omega) (fb.layout.channel n) channel
  rwa [Nat.add_sub_cancel' columns.1, Nat.add_sub_cancel' rows.1, Layout.offset_decode] at white

theorem depicts_packet (depicts : Depicts fb s d) (byte : UInt8) :
    Depicts fb (s.access fb (.packet byte)) (d.access fb (.packet byte)) := by
  have harmless := storeMouseData_harmless fb
  have counter : s.mouseCounter = d.mouse.mouseCounter := congrArg Mouse.mouseCounter depicts.mouse
  constructor
  · calc
      (fb.storeMouseData s byte).toMouse = fb.receive s.toMouse byte :=
        storeMouseData_mouse fb s byte
      _ = fb.receive d.mouse byte := by rw [depicts.mouse]
  · exact harmless.kept s byte depicts.onScreen
  · calc
      fb.withoutCursor (fb.storeMouseData s byte) = fb.withoutCursor s :=
        harmless.same s byte depicts.onScreen
      _ = d.background := depicts.beneath
  · intro n under
    by_cases moves : s.mouseCounter = 2
    · have drawn := storeMouseData_draws moves depicts.onScreen byte
      have white : (d.access fb (.packet byte)).sprite n = 0xFF := by
        simp only [Display.access, Framebuffer.covers]
        rw [if_pos (counter ▸ moves), Option.getD_some]
      rw [white]
      exact drawn.white_inside under
    · obtain ⟨stored, column, row⟩ := storeMouseData_waits fb moves byte
      have still : (s.access fb (.packet byte)).data.cursor = s.data.cursor := by
        change (fb.storeMouseData s byte).data.cursor = _
        rw [stored, MouseData.cursor, column, row]
        rfl
      have same : (s.access fb (.packet byte)).screen = s.screen := by
        change (fb.storeMouseData s byte).screen = _
        rw [stored]
      have kept : (d.access fb (.packet byte)).sprite n = d.sprite n := by
        simp only [Display.access, Framebuffer.covers]
        rw [if_neg (counter ▸ moves), Option.getD_none]
      rw [same, kept]
      exact depicts.sprite n (still ▸ under)

theorem depicts_access (depicts : Depicts fb s d) {a : Access} (valid : a.Valid) :
    Depicts fb (s.access fb a) (d.access fb a) := by
  cases a with
  | store k v =>
      constructor
      · exact depicts.mouse
      · exact depicts.onScreen
      · funext n
        simp only [Display.access, ← depicts.mouse, ← depicts.beneath]
        exact put_beneath depicts.onScreen k v
      · intro n under
        have covered : fb.layout.Inside d.mouse.data.cursor n := depicts.mouse ▸ under
        simp only [Display.access, Framebuffer.covers]
        by_cases here : n = k
        · rw [if_pos ⟨here, covered⟩, Option.getD_some, here]
          exact store_here _ _ _
        · rw [if_neg fun hit => here hit.1, Option.getD_none, ← depicts.sprite n under]
          exact store_elsewhere _ _ _ _ here
  | remember i color =>
      constructor
      · exact depicts.mouse
      · exact depicts.onScreen
      · funext n
        simp only [Display.access, ← depicts.mouse, ← depicts.beneath]
        exact remember_beneath depicts.onScreen valid color
      · exact depicts.sprite
  | packet byte => exact depicts_packet depicts byte

theorem depicts_run {log : List Access} (valid : ∀ a ∈ log, a.Valid) (depicts : Depicts fb s d) :
    Depicts fb (log.foldl (Desktop.access fb) s) (log.foldl (Display.access fb) d) := by
  induction log generalizing s d with
  | nil => exact depicts
  | cons a rest ih =>
      rw [List.forall_mem_cons] at valid
      exact ih valid.2 (depicts_access depicts valid.1)

def Display.start (fb : Framebuffer) (picture : Mem) : Display :=
  ⟨(fb.initializeCursor picture).toMouse, picture, fun _ => 0xFF⟩

theorem initializeCursor_depicts (wide : 106 ≤ fb.width) (tall : 106 ≤ fb.height) (picture : Mem) :
    Depicts fb (fb.initializeCursor picture) (.start fb picture) := by
  have drawn := initializeCursor_over wide tall picture
  exact ⟨rfl, drawn.onScreen, drawn.restored, fun n under => drawn.white_inside under⟩

/-- Whatever is stored and wherever the mouse interrupts, the framebuffer shows a picture with a
white sprite on top: the stores meet the picture or the sprite, whichever is visible where they go.
-/
theorem desktop_shows_display (wide : 106 ≤ fb.width) (tall : 106 ≤ fb.height) (picture : Mem)
    {log : List Access} (valid : ∀ a ∈ log, a.Valid) :
    (log.foldl (Desktop.access fb) (fb.initializeCursor picture)).screen =
        (log.foldl (Display.access fb) (.start fb picture)).shown fb ∧
      fb.withoutCursor (log.foldl (Desktop.access fb) (fb.initializeCursor picture)) =
        (log.foldl (Display.access fb) (.start fb picture)).background := by
  have depicts := depicts_run valid (initializeCursor_depicts wide tall picture)
  exact ⟨depicts.shows, depicts.beneath⟩

end Steps

def squareLog : List Access :=
  [.store 0 7, .packet 0x08, .packet 50, .packet 0, .remember 24 0xFF0000]

theorem square_shows_display :
    (squareLog.foldl (Desktop.access squareScreen) blackDesktop).screen =
        (squareLog.foldl (Display.access squareScreen) (.start squareScreen fun _ => 0)).shown
          squareScreen ∧
      squareScreen.withoutCursor (squareLog.foldl (Desktop.access squareScreen) blackDesktop) =
        (squareLog.foldl (Display.access squareScreen) (.start squareScreen fun _ =>
          0)).background :=
  desktop_shows_display (by decide) (by decide) _ (by simp [squareLog, Access.Valid])

end PaintKernel
