import Mathlib
import PaintKernel.Kernel
import PaintKernel.Library.Chain

set_option autoImplicit false

/-! The physical page allocator: a free list threaded through the free pages. -/

namespace PaintKernel

open ByteMemory LinkedList

def serialNumber : Nat := 9123213123

/-- One entry of the boot loader's memory map; type 1 is usable memory. -/
structure MemmapEntry where
  base : Nat
  length : Nat
  memType : Nat

def nextNode (m : Mem) (page : Nat) : Nat := readLE m (page + 8) 8

namespace Kernel

/-- The test is on the translated pointer, so a null list head passes it whenever
`virtual_offset` is not zero. -/
def pmemAlloc (k : Kernel) : Kernel × Nat :=
  let temp := k.ptov k.freelist
  if temp ≠ 0 then
    let k := { k with freelist := k.load64 ((temp + 8) % 2 ^ 64) }
    let k := k.store64 temp 0
    (k, (temp + (2 ^ 64 - k.virtualOffset)) % 2 ^ 64)
  else (k, 0)

/-- The guard returns on page-aligned addresses and lets the others through. -/
def pmemFree (k : Kernel) (p : Nat) : Kernel :=
  if p % 4096 = 0 then k
  else
    let temp := k.ptov p
    if k.load64 temp ≠ serialNumber then
      let k := k.store64 temp serialNumber
      let k := k.store64 ((temp + 8) % 2 ^ 64) k.freelist
      { k with freelist := (temp + (2 ^ 64 - k.virtualOffset)) % 2 ^ 64 }
    else k

/-- The loop of `add_memory` from index `i`, with `prev` the last node added. Nodes are
written through their physical address: the boot loader's identity map is still in place.
`none` is signed overflow of `PAGE_SIZE * i`, which C leaves undefined. -/
def addNodes (m : Mem) (base prev i : Nat) : Nat → Option (Mem × Nat)
  | 0 => some (m, prev)
  | remaining + 1 =>
      if 4096 * i < 2 ^ 31 then
        let newNode := (base + 4096 * i) % 2 ^ 64
        let m := writeLE m newNode 8 serialNumber
        let m := writeLE m (newNode + 8) 8 prev
        addNodes m base newNode (i + 1) remaining
      else none

def addMemory (k : Kernel) (base length : Nat) : Option Kernel :=
  let skip := 4096 - base % 4096
  let (base, length) :=
    if base % 4096 ≠ 0 then ((base + skip) % 2 ^ 64, (length + (2 ^ 64 - skip)) % 2 ^ 64)
    else (base, length)
  match addNodes k.mem base k.freelist 0 (length / 4096) with
  | none => none
  | some (m, prev) => some { k with mem := m, freelist := prev }

def addEntries (k : Kernel) : List MemmapEntry → Option Kernel
  | [] => some k
  | entry :: rest =>
      if entry.memType = 1 then
        match k.addMemory entry.base entry.length with
        | none => none
        | some k => k.addEntries rest
      else k.addEntries rest

def freelistInit (k : Kernel) (virtual : Nat) (physical : List MemmapEntry)
    (bound : virtual < 2 ^ 64) : Option Kernel :=
  addEntries { k with
    virtualOffset := virtual, cr0 := k.cr0 ||| 0x10000, offset_lt := bound } physical

def FreeList (k : Kernel) (pages : List Nat) : Prop := Chain 0 (nextNode k.mem) k.freelist pages

theorem pmemFree_aligned (k : Kernel) (p : Nat) (aligned : p % 4096 = 0) : k.pmemFree p = k :=
  if_pos aligned

theorem pmemAlloc_cons (k : Kernel) (page : Nat) (rest : List Nat)
    (list : k.FreeList (page :: rest)) (bound : page + 16 ≤ 2 ^ 64) (mapped : k.ptov page ≠ 0) :
    k.pmemAlloc =
      ({ k with mem := writeLE k.mem page 8 0, freelist := nextNode k.mem page }, page) := by
  have head : k.freelist = page := list.1
  have nextField := k.deref_ptov_add page 8 (by omega)
  have here := k.deref_ptov page (by omega)
  unfold pmemAlloc
  simp only [head, mapped, ne_eq, not_false_eq_true, if_true, load64, store64, nextField]
  simp only [deref] at here ⊢
  rw [here]
  rfl

theorem freeList_congr {k k' : Kernel} {pages : List Nat} (list : k.FreeList pages)
    (head : k'.freelist = k.freelist)
    (agree : ∀ page ∈ pages, nextNode k'.mem page = nextNode k.mem page) : k'.FreeList pages := by
  unfold FreeList
  rw [head]
  exact chain_congr agree list

theorem nextNode_agree {m m' : Mem} {address count page : Nat}
    (agree : AgreeOutside m m' address count)
    (disjoint : page + 16 ≤ address ∨ address + count ≤ page + 8) :
    nextNode m' page = nextNode m page :=
  readLE_agree m m' address count (page + 8) 8 agree (by omega)

end Kernel

end PaintKernel
