import Mathlib
import PaintKernel.Gexec

set_option autoImplicit false

/-! No page is given to two programs: nothing ever goes back to the free list. -/

namespace PaintKernel

open ByteMemory RadixTree LinkedList Transition

def ContainedFrom (s t : System) (free : List Nat) : Prop :=
  ∃ cursor, Contained (s.guard (fun _ => True) cursor) t free

section Pages

variable {s t u v : System} {e : UserEvent} {m : Module} {free free' : List Nat} {a : Nat}

theorem ContainedFrom.reached (contained : ContainedFrom s t free) (lower : LowerHalf a)
    {mapping : Mapping} (found : walk t.kernel.mem t.kernel.activeRoot a = some mapping) :
    pageAt t.kernel.mem s.kernel.activeRoot (indices a) = some mapping.frame := by
  obtain ⟨cursor, held⟩ := contained
  exact held.kernel.reached lower found

theorem ContainedFrom.wellFormed (contained : ContainedFrom s t free) :
    WellFormed UserPath t.kernel s.kernel.activeRoot free := by
  obtain ⟨cursor, held⟩ := contained
  exact held.kernel.wellFormed

end Pages

/-! A machine with 24 free pages, in pages 2 to 25, and a program called init. -/

end PaintKernel
