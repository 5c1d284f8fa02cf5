import Mathlib
import PaintKernel.OutOfPages

set_option autoImplicit false

/-! The paging calls on an address inside a large page.

`unmap_lower_half` looks at `page_size`; `vm_map`, `vm_unmap` and `vm_protect` go on through the
entry and take the contents of the large page for page tables. -/

namespace PaintKernel

open ByteMemory LinkedList

section Entries

variable (m : Mem) (root address : Nat)

end Entries

def MarkedHead (k : Kernel) : Prop :=
  k.freelist ≠ 0 → k.freelist % 4096 = 0 ∧ k.freelist < 2 ^ 64 ∧
    readLE k.mem k.freelist 8 = serialNumber

theorem Collected.markedHead {m : Mem} {entries : List MemmapEntry} {k : Kernel} {pages : List Nat}
    (map : DisjointMap entries) (collected : Collected m (UsablePage entries) k pages) :
    MarkedHead k := by
  intro nonempty
  have list := collected.list
  cases pages with
  | nil => exact absurd list nonempty
  | cons page rest =>
      have head : k.freelist = page := list.1
      have member : page ∈ page :: rest := List.mem_cons_self
      rcases (collected.exactly page).mp member with ⟨aligned, entry, listed, kind, lower, upper⟩
      have fits := map.fits entry listed kind
      rw [head]
      exact ⟨aligned, by omega, collected.marked page member⟩

section FindTables

variable {k : Kernel} {root address : Nat}

end FindTables

/-- The word at `p` lacks the bit that is `dirty` in a table entry. `serialNumber` has it. -/
def Unmarked (m : Mem) (p : Nat) : Prop := (PageTableEntry.decode (readLE m p 8)).dirty = false

section Unmarked

variable {m m' : Mem} {k : Kernel} {p t : Nat} {i : Fin 512}

theorem unmarked_iff : Unmarked m p ↔ (m p).toNat / 64 % 2 = 0 := by
  have word : readLE m p 8 = (m p).toNat + 256 * readLE m (p + 1) 7 := rfl
  have same : readLE m p 8 / 2 ^ 6 % 2 = (m p).toNat / 64 % 2 := by
    rw [word]
    omega
  simp only [Unmarked, PageTableEntry.decode, PageTableEntry.bit, same, decide_eq_false_iff_not]
  omega

theorem Unmarked.cleared (unmarked : Unmarked m p) (byte : m' p = 0 ∨ m' p = m p) :
    Unmarked m' p := by
  rw [unmarked_iff] at unmarked ⊢
  rcases byte with zero | same
  · rw [zero]
    rfl
  · rw [same]
    exact unmarked

end Unmarked

section VmMap

variable {k k1 : Kernel} {root address p t t1 : Nat} {i : Fin 512} {user writable executable : Bool}

end VmMap

end PaintKernel
