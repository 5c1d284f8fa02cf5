import Mathlib
import PaintKernel.DrawUnderCursor
import PaintKernel.Syscalls
import PaintKernel.Library.Run

set_option autoImplicit false

/-! `sys_readmouse` while the mouse interrupts it between the fields that it copies. -/

namespace PaintKernel

open Transition

def MouseData.Agree (a b : MouseData) : Nat → Prop
  | 0 => a.xPos = b.xPos
  | 1 => a.yPos = b.yPos
  | 2 => a.leftClick = b.leftClick
  | 3 => a.rightClick = b.rightClick
  | 4 => a.middleClick = b.middleClick
  | _ => True

def MouseData.copyField (data stored : MouseData) : Nat → MouseData
  | 0 => { stored with xPos := data.xPos }
  | 1 => { stored with yPos := data.yPos }
  | 2 => { stored with leftClick := data.leftClick }
  | 3 => { stored with rightClick := data.rightClick }
  | 4 => { stored with middleClick := data.middleClick }
  | _ => stored

/-- A call of `sys_readmouse` under way: what it has copied to the user so far, and the values
that `data` has had since it began. -/
structure Reading where
  desktop : Desktop
  copied : Nat
  stored : MouseData
  moments : List MouseData

inductive ReadEvent where
  | copy
  | byte (packet : UInt8)

def Reading.start (desktop : Desktop) (stored : MouseData) : Reading :=
  ⟨desktop, 0, stored, [desktop.data]⟩

def Framebuffer.readStep (fb : Framebuffer) (r : Reading) : ReadEvent → Reading
  | .copy => { r with stored := r.desktop.data.copyField r.stored r.copied, copied := r.copied + 1 }
  | .byte packet =>
      let desktop := fb.storeMouseData r.desktop packet
      { r with desktop := desktop, moments := r.moments ++ [desktop.data] }

/-- After a byte the fields copied so far are current, or the byte has not changed the others. -/
def Reading.InTime (r : Reading) : ReadEvent → Reading → Prop
  | .copy, _ => True
  | .byte _, next =>
      (∀ i < r.copied, next.desktop.data.Agree r.stored i) ∨
        ∀ i, r.copied ≤ i → next.desktop.data.Agree r.desktop.data i

/-- At one moment the data had the fields copied so far, and as the others what they are now. -/
def Reading.Consistent (r : Reading) : Prop :=
  ∃ data ∈ r.moments, (∀ i < r.copied, data.Agree r.stored i) ∧
    ∀ i, r.copied ≤ i → data.Agree r.desktop.data i

section Fields

variable {a b c : MouseData} {i n : Nat}

theorem MouseData.Agree.refl (a : MouseData) (i : Nat) : a.Agree a i := by
  unfold MouseData.Agree
  split <;> trivial

theorem MouseData.Agree.symm (same : a.Agree b i) : b.Agree a i := by
  unfold MouseData.Agree at same ⊢
  split <;> first | exact same.symm | trivial

theorem MouseData.Agree.trans (same : a.Agree b i) (other : b.Agree c i) : a.Agree c i := by
  unfold MouseData.Agree at same other ⊢
  split <;> first | exact same.trans other | trivial

theorem eq_of_agree (same : ∀ i < 5, a.Agree b i) : a = b := by
  rcases a with ⟨x, y, l, r, m⟩
  rcases b with ⟨x', y', l', r', m'⟩
  have column : x = x' := same 0 (by decide)
  have row : y = y' := same 1 (by decide)
  have left : l = l' := same 2 (by decide)
  have right : r = r' := same 3 (by decide)
  have middle : m = m' := same 4 (by decide)
  rw [column, row, left, right, middle]

theorem copyField_here (data stored : MouseData) (n : Nat) :
    data.Agree (data.copyField stored n) n := by
  unfold MouseData.Agree MouseData.copyField
  split <;> trivial

theorem copyField_before (data : MouseData) (same : a.Agree b i) (other : i ≠ n) :
    a.Agree (data.copyField b n) i := by
  unfold MouseData.copyField
  split <;> unfold MouseData.Agree at same ⊢ <;> split <;> first | exact same | trivial

end Fields

section Steps

variable {fb : Framebuffer} {r : Reading}

theorem start_consistent (desktop : Desktop) (stored : MouseData) :
    (Reading.start desktop stored).Consistent :=
  ⟨desktop.data, List.mem_singleton_self _, fun _ none => absurd none (Nat.not_lt_zero _),
    fun i _ => MouseData.Agree.refl _ i⟩

theorem copy_consistent (consistent : r.Consistent) : (fb.readStep r .copy).Consistent := by
  rcases consistent with ⟨data, moment, before, later⟩
  refine ⟨data, moment, fun i bound => ?_, fun i bound => later i (Nat.le_of_succ_le bound)⟩
  by_cases here : i = r.copied
  · subst here
    exact (later _ (Nat.le_refl _)).trans (copyField_here _ _ _)
  · exact copyField_before _ (before i (by change i < r.copied + 1 at bound; omega)) here

theorem byte_consistent {packet : UInt8} (consistent : r.Consistent)
    (inTime : r.InTime (.byte packet) (fb.readStep r (.byte packet))) :
    (fb.readStep r (.byte packet)).Consistent := by
  rcases inTime with current | unchanged
  · exact ⟨(fb.storeMouseData r.desktop packet).data,
      List.mem_append_right _ (List.mem_singleton_self _),
      current, fun i _ => MouseData.Agree.refl _ i⟩
  · rcases consistent with ⟨data, moment, before, later⟩
    exact ⟨data, List.mem_append_left _ moment, before,
      fun i bound => (later i bound).trans (unchanged i bound).symm⟩

theorem readStep_consistent {event : ReadEvent} (consistent : r.Consistent)
    (inTime : r.InTime event (fb.readStep r event)) : (fb.readStep r event).Consistent := by
  cases event with
  | copy => exact copy_consistent consistent
  | byte packet => exact byte_consistent consistent inTime

theorem Reading.Consistent.snapshot (consistent : r.Consistent) (done : r.copied = 5) :
    r.stored ∈ r.moments := by
  rcases consistent with ⟨data, moment, before, _⟩
  rw [done] at before
  exact eq_of_agree before ▸ moment

end Steps

theorem sysReadmouse_reading (fb : Framebuffer) (s : System) (keys : List UInt8) (desktop : Desktop)
    (stored : MouseData) (mouseData : UInt64) :
    s.sysReadmouse ⟨keys, desktop.data⟩ mouseData =
      (s.kernel.storeBytes mouseData.toNat
        (((List.replicate 5 .copy).foldl fb.readStep (.start desktop stored)).stored.bytes)).map
        fun k => ({ s with kernel := k }, .returns 1) := by
  have stored : ((List.replicate 5 .copy).foldl fb.readStep (.start desktop stored)).stored =
      desktop.data := rfl
  rw [System.sysReadmouse, stored, Option.map_eq_bind]
  rfl

/-- Whatever bytes arrive in the middle of `sys_readmouse`, the user gets what the mouse data was at
one moment of the call, if every byte is in time. -/
theorem snapshot_at_one_moment {fb : Framebuffer} {desktop : Desktop} {stored : MouseData}
    {events : List ReadEvent} {r : Reading}
    (run : Run (fun r e next => fb.readStep r e = next ∧
      r.InTime e next) (.start desktop stored) events r)
    (done : r.copied = 5) : r.stored ∈ r.moments := by
  have step : ∀ r e next, Reading.Consistent r → fb.readStep r e = next ∧ r.InTime e next →
      next.Consistent := by
    rintro r e _ consistent ⟨rfl, inTime⟩
    exact readStep_consistent consistent inTime
  have consistent := invariant step run (start_consistent desktop stored)
  exact consistent.snapshot done

def timelyEvents : List ReadEvent := [.copy, .copy, .byte 0x08, .copy, .copy, .copy]

theorem snapshot_timely :
    let r := timelyEvents.foldl squareScreen.readStep (.start blackDesktop blackDesktop.data)
    r.stored ∈ r.moments := by
  intro r
  have kept : (squareScreen.storeMouseData blackDesktop 0x08).data = blackDesktop.data := rfl
  have run : Run (fun r e next => squareScreen.readStep r e = next ∧ r.InTime e next)
      (.start blackDesktop blackDesktop.data) timelyEvents r := by
    refine .cons ⟨rfl, trivial⟩ (.cons ⟨rfl, trivial⟩ (.cons ⟨rfl, .inr fun i _ => ?_⟩
      (.cons ⟨rfl, trivial⟩ (.cons ⟨rfl, trivial⟩ (.cons ⟨rfl, trivial⟩ (.nil _))))))
    exact kept ▸ MouseData.Agree.refl _ i
  exact snapshot_at_one_moment run rfl

def tornEvents : List ReadEvent :=
  [.byte 0x08, .byte 50, .copy, .byte 50, .copy, .copy, .copy, .copy]

theorem snapshot_torn :
    let r := tornEvents.foldl squareScreen.readStep (.start blackDesktop blackDesktop.data)
    r.copied = 5 ∧ r.stored ∉ r.moments := by
  decide

end PaintKernel
