import Mathlib
import PaintKernel.Library.ByteMemory
import PaintKernel.PageTableEntry

set_option autoImplicit false

/-! Kernel state and the pointers it dereferences.

Physical memory is reached through the higher-half direct map: the pointer
`physical + virtual_offset`, in 64-bit arithmetic, names that physical byte. -/

namespace PaintKernel

open ByteMemory

structure Mapping where
  frame : Nat
  user : Bool
  writable : Bool
  executable : Bool
  deriving DecidableEq, Repr

structure Kernel where
  mem : Mem
  freelist : Nat
  virtualOffset : Nat
  cr0 : Nat
  cr3 : Nat
  tlb : Nat → Option Mapping
  offset_lt : virtualOffset < 2 ^ 64

namespace Kernel

def ptov (k : Kernel) (addr : Nat) : Nat := (addr + k.virtualOffset) % 2 ^ 64

/-- Physical address named by a pointer into the direct map. -/
def deref (k : Kernel) (ptr : Nat) : Nat := (ptr + (2 ^ 64 - k.virtualOffset)) % 2 ^ 64

def load64 (k : Kernel) (ptr : Nat) : Nat := readLE k.mem (k.deref ptr) 8

def store64 (k : Kernel) (ptr value : Nat) : Kernel :=
  { k with mem := writeLE k.mem (k.deref ptr) 8 value }

def store8 (k : Kernel) (ptr : Nat) (byte : UInt8) : Kernel :=
  { k with mem := store k.mem (k.deref ptr) byte }

def memset (k : Kernel) (arr : Nat) (c : UInt8) : Nat → Kernel
  | 0 => k
  | size + 1 => (k.memset arr c size).store8 ((arr + size) % 2 ^ 64) c

def entryPtr (k : Kernel) (table : Nat) (index : Fin 512) : Nat :=
  (k.ptov table + 8 * index) % 2 ^ 64

def loadEntry (k : Kernel) (ptr : Nat) : PageTableEntry := .decode (k.load64 ptr)

def storeEntry (k : Kernel) (ptr : Nat) (e : PageTableEntry) : Kernel := k.store64 ptr e.encode

/-- `invlpg`: drop the cached translation of one page. -/
def invalidateTlb (k : Kernel) (virtualAddress : Nat) : Kernel :=
  { k with tlb := fun page => if page = virtualAddress / 4096 then none else k.tlb page }

def writeCr3 (k : Kernel) (value : Nat) : Kernel := { k with cr3 := value, tlb := fun _ => none }

/-- The active top-level table, `read_cr3() & 0xFFFFFFFFFFFFF000`. -/
def activeRoot (k : Kernel) : Nat := k.cr3 &&& 0xFFFFFFFFFFFFF000

theorem activeRoot_congr {k k' : Kernel} (same : k'.cr3 = k.cr3) :
    k'.activeRoot = k.activeRoot := by
  rw [activeRoot, activeRoot, same]

theorem deref_ptov (k : Kernel) (physical : Nat) (bound : physical < 2 ^ 64) :
    k.deref (k.ptov physical) = physical := by
  have offset := k.offset_lt
  unfold deref ptov
  omega

theorem deref_ptov_add (k : Kernel) (physical delta : Nat) (bound : physical + delta < 2 ^ 64) :
    k.deref ((k.ptov physical + delta) % 2 ^ 64) = physical + delta := by
  have offset := k.offset_lt
  unfold deref ptov
  omega

theorem deref_entryPtr (k : Kernel) (table : Nat) (index : Fin 512) (bound : table < 2 ^ 52) :
    k.deref (k.entryPtr table index) = table + 8 * index :=
  k.deref_ptov_add table (8 * index) (by have := index.isLt; omega)

/-- Clearing a whole range at once is what the byte loop does. -/
theorem memset_eq_fill (k : Kernel) (physical size : Nat) (c : UInt8)
    (bound : physical + size ≤ 2 ^ 64) :
    k.memset (k.ptov physical) c size = { k with mem := fill k.mem physical size c } := by
  induction size with
  | zero => simp only [memset, fill_zero]
  | succ size ih =>
      have here := k.deref_ptov_add physical size (by omega)
      have offset := k.offset_lt
      rw [memset, ih (by omega), fill_succ]
      simp only [store8, deref] at here ⊢
      rw [here]

end Kernel

end PaintKernel
