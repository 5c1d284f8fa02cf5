import Mathlib
import PaintKernel.PhysicalMemory

set_option autoImplicit false

/-! Four-level page tables: the hardware walk and the kernel's operations on it. -/

namespace PaintKernel

open ByteMemory

def tableIndex (address shift : Nat) : Fin 512 :=
  ⟨(address >>> shift) &&& 0x1ff, Nat.lt_succ_of_le Nat.and_le_right⟩

def level1 (address : Nat) : Fin 512 := tableIndex address 12
def level2 (address : Nat) : Fin 512 := tableIndex address 21
def level3 (address : Nat) : Fin 512 := tableIndex address 30
def level4 (address : Nat) : Fin 512 := tableIndex address 39

def slot (m : Mem) (table : Nat) (index : Fin 512) : PageTableEntry :=
  .decode (readLE m (table + 8 * index) 8)

/-- Rights hold only when every entry on the way grants them. -/
def Mapping.ofEntries (frame : Nat) (es : List PageTableEntry) : Mapping where
  frame := frame
  user := es.all (·.kernel)
  writable := es.all (·.writable)
  executable := es.all (!·.noExecute)

/-- The translation of one address by the hardware. A level-3 or level-2 entry with
`page_size` set ends the walk in a page of 1 GiB or 2 MiB; the result is then the 4 KiB
frame of that page the address falls in. -/
def walk (m : Mem) (root address : Nat) : Option Mapping :=
  let e4 := slot m root (level4 address)
  if !e4.present then none else
  let e3 := slot m e4.target (level3 address)
  if !e3.present then none else
  if e3.pageSize then
    some (.ofEntries (e3.target / 2 ^ 30 * 2 ^ 30 + level2 address * 2 ^ 21 +
      level1 address * 2 ^ 12)
      [e4, e3]) else
  let e2 := slot m e3.target (level2 address)
  if !e2.present then none else
  if e2.pageSize then
    some (.ofEntries (e2.target / 2 ^ 21 * 2 ^ 21 + level1 address * 2 ^ 12) [e4, e3, e2]) else
  let e1 := slot m e2.target (level1 address)
  if !e1.present then none else
  some (.ofEntries e1.target [e4, e3, e2, e1])

namespace Kernel

/-- A kernel load. Lower-half addresses go through the active tables and fault when they
are unmapped; the higher half is the direct map; anything between is not canonical. -/
def loadVirt (k : Kernel) (v : Nat) : Option UInt8 :=
  if v < 2 ^ 47 then
    match walk k.mem k.activeRoot v with
    | none => none
    | some mapping => some (k.mem (mapping.frame + v % 4096))
  else if 2 ^ 64 - 2 ^ 47 ≤ v ∧ v < 2 ^ 64 then some (k.mem (k.deref v))
  else none

def writeProtect (k : Kernel) : Bool := k.cr0.testBit 16

def writableAt (k : Kernel) (v : Nat) : Bool := (walk k.mem k.activeRoot v).any (·.writable)

/-- A kernel store, by the same translation; a read-only page faults under write protection. -/
def storeVirt (k : Kernel) (v : Nat) (byte : UInt8) : Option Kernel :=
  if v < 2 ^ 47 then
    match walk k.mem k.activeRoot v with
    | none => none
    | some mapping =>
        if mapping.writable || !k.writeProtect then
          some { k with mem := store k.mem (mapping.frame + v % 4096) byte }
        else none
  else if 2 ^ 64 - 2 ^ 47 ≤ v ∧ v < 2 ^ 64 then some (k.store8 v byte)
  else none

/-- The result is true when no page could be allocated. -/
def mallocPage (k : Kernel) (table : Nat) (user writable executable : Bool) : Kernel × Bool :=
  let (k, newPage) := k.pmemAlloc
  if newPage = 0 then (k, true)
  else
    let k := k.storeEntry table { k.loadEntry table with
      present := true
      physicalAddr := BitVec.ofNat 40 (newPage >>> 12)
      kernel := user
      writable := writable
      noExecute := !executable }
    (k.memset (k.ptov newPage) 0 4096, false)

/-- One level of the traversal in `vm_map`: an absent entry gets a fresh table that grants
every right, and the address of the next table is read back. -/
def ensureTable (k : Kernel) (table : Nat) : Kernel × Option Nat :=
  if (k.loadEntry table).present then (k, some (k.loadEntry table).target)
  else
    match k.mallocPage table true true true with
    | (k, true) => (k, none)
    | (k, false) => (k, some (k.loadEntry table).target)

def vmMap (k : Kernel) (root address : Nat) (user writable executable : Bool) : Kernel × Bool :=
  match k.ensureTable (k.entryPtr root (level4 address)) with
  | (k, none) => (k, false)
  | (k, some level3Start) =>
  match k.ensureTable (k.entryPtr level3Start (level3 address)) with
  | (k, none) => (k, false)
  | (k, some level2Start) =>
  match k.ensureTable (k.entryPtr level2Start (level2 address)) with
  | (k, none) => (k, false)
  | (k, some level1Start) =>
    let level1Table := k.entryPtr level1Start (level1 address)
    if (k.loadEntry level1Table).present then (k, false)
    else
      match k.mallocPage level1Table user writable executable with
      | (k, true) => (k, false)
      | (k, false) => (k.invalidateTlb address, true)

/-- The traversal that `vm_unmap` and `vm_protect` share: the level-3, level-2 and level-1
tables of an address whose entries are all present. -/
def findTables (k : Kernel) (root address : Nat) : Option (Nat × Nat × Nat) :=
  let level4Table := k.loadEntry (k.entryPtr root (level4 address))
  if !level4Table.present then none else
  let level3Start := level4Table.target
  let level3Table := k.loadEntry (k.entryPtr level3Start (level3 address))
  if !level3Table.present then none else
  let level2Start := level3Table.target
  let level2Table := k.loadEntry (k.entryPtr level2Start (level2 address))
  if !level2Table.present then none else
  let level1Start := level2Table.target
  let level1Table := k.loadEntry (k.entryPtr level1Start (level1 address))
  if !level1Table.present then none else
  some (level3Start, level2Start, level1Start)

def scanPresent (k : Kernel) (pageHead : Nat) : List (Fin 512) → Option Bool
  | [] => some true
  | i :: rest =>
      match k.loadVirt (pageHead + 8 * i) with
      | none => none
      | some byte => if byte.toNat % 2 = 1 then some false else k.scanPresent pageHead rest

/-- The argument is dereferenced as it is, with no `ptov`. -/
def freePageTable (k : Kernel) (pageHead : Nat) : Option Bool :=
  k.scanPresent pageHead (List.finRange 512)

/-- One of the three steps that end `vm_unmap`: drop the table from its parent if it
holds no present entry. -/
def releaseIfEmpty (k : Kernel) (parent start : Nat) : Option Kernel :=
  match k.freePageTable start with
  | none => none
  | some false => some k
  | some true =>
      let k := k.storeEntry parent { k.loadEntry parent with present := false }
      some (k.pmemFree (k.loadEntry parent).target)

def vmUnmap (k : Kernel) (root address : Nat) : Option (Kernel × Bool) :=
  match k.findTables root address with
  | none => some (k, false)
  | some (level3Start, level2Start, level1Start) =>
    let level1Table := k.entryPtr level1Start (level1 address)
    let k := k.storeEntry level1Table { k.loadEntry level1Table with present := false }
    let k := k.pmemFree (k.loadEntry level1Table).target
    match k.releaseIfEmpty (k.entryPtr level2Start (level2 address)) level1Start with
    | none => none
    | some k =>
    match k.releaseIfEmpty (k.entryPtr level3Start (level3 address)) level2Start with
    | none => none
    | some k =>
    match k.releaseIfEmpty (k.entryPtr root (level4 address)) level3Start with
    | none => none
    | some k => some (k.invalidateTlb address, true)

def vmProtect (k : Kernel) (root address : Nat) (user writable executable : Bool) : Kernel × Bool :=
  match k.findTables root address with
  | none => (k, false)
  | some (_, _, level1Start) =>
    let level1Table := k.entryPtr level1Start (level1 address)
    let k := k.storeEntry level1Table { k.loadEntry level1Table with
      kernel := user
      writable := writable
      noExecute := !executable }
    (k.invalidateTlb address, true)

end Kernel

inductive TableAccess where
  | read (table : Nat)
  | free (page : Nat)
  deriving DecidableEq, Repr

structure Sweep where
  kernel : Kernel
  trace : List TableAccess

namespace Sweep

def entry (w : Sweep) (table : Nat) (index : Fin 512) : PageTableEntry × Sweep :=
  (w.kernel.loadEntry (w.kernel.entryPtr table index),
    { w with trace := w.trace ++ [.read table] })

variable (pmemFree : Kernel → Nat → Kernel)

def free (w : Sweep) (page : Nat) : Sweep :=
  ⟨pmemFree w.kernel page, w.trace ++ [.free page]⟩

def level2Body (l2Table : Nat) (w : Sweep) (l2Index : Fin 512) : Sweep :=
  let (e, w) := w.entry l2Table l2Index
  if e.present && !e.pageSize then
    let (e, w) := w.entry l2Table l2Index
    w.free pmemFree e.target
  else w

def level3Body (l3Table : Nat) (w : Sweep) (l3Index : Fin 512) : Sweep :=
  let (e, w) := w.entry l3Table l3Index
  if e.present && !e.pageSize then
    let (e, w) := w.entry l3Table l3Index
    let w := (List.finRange 512).foldl (level2Body pmemFree e.target) w
    let (e, w) := w.entry l3Table l3Index
    w.free pmemFree e.target
  else w

def level4Body (root : Nat) (w : Sweep) (l4Index : Fin 512) : Sweep :=
  let (e, w) := w.entry root l4Index
  if e.present then
    let ptr := w.kernel.entryPtr root l4Index
    let w := { w with
      kernel := w.kernel.storeEntry ptr { w.kernel.loadEntry ptr with present := false } }
    let (e, w) := w.entry root l4Index
    let w := (List.finRange 512).foldl (level3Body pmemFree e.target) w
    let (e, w) := w.entry root l4Index
    w.free pmemFree e.target
  else w

end Sweep

def lowerIndices : List (Fin 512) := (List.finRange 256).map (Fin.castLE (by decide))

/-- `unmap_lower_half` with the effect of `pmem_free` left open, and its accesses. -/
def Kernel.unmapLowerHalfWith (pmemFree : Kernel → Nat → Kernel) (k : Kernel)
    (root : Nat) : Sweep :=
  let w := lowerIndices.foldl (Sweep.level4Body pmemFree root) ⟨k, []⟩
  { w with kernel := w.kernel.writeCr3 w.kernel.cr3 }

def Kernel.unmapLowerHalf (k : Kernel) (root : Nat) : Kernel :=
  (k.unmapLowerHalfWith Kernel.pmemFree root).kernel

/-! What the allocations of `vm_map` leave alone. -/

structure MemoryOnly (k k' : Kernel) : Prop where
  offset : k'.virtualOffset = k.virtualOffset
  cr0 : k'.cr0 = k.cr0
  cr3 : k'.cr3 = k.cr3
  tlb : k'.tlb = k.tlb

section MemoryOnly

variable {k k' k'' : Kernel}

theorem MemoryOnly.trans (first : MemoryOnly k k') (second : MemoryOnly k' k'') :
    MemoryOnly k k'' where
  offset := second.offset.trans first.offset
  cr0 := second.cr0.trans first.cr0
  cr3 := second.cr3.trans first.cr3
  tlb := second.tlb.trans first.tlb

theorem memset_memoryOnly (k : Kernel) (arr : Nat) (c : UInt8) (size : Nat) :
    MemoryOnly k (k.memset arr c size) := by
  induction size with
  | zero => exact ⟨rfl, rfl, rfl, rfl⟩
  | succ size ih => exact ih.trans ⟨rfl, rfl, rfl, rfl⟩

theorem pmemAlloc_memoryOnly (k : Kernel) : MemoryOnly k k.pmemAlloc.1 := by
  unfold Kernel.pmemAlloc
  dsimp only
  split
  · exact ⟨rfl, rfl, rfl, rfl⟩
  · exact ⟨rfl, rfl, rfl, rfl⟩

theorem storeEntry_memoryOnly (k : Kernel) (ptr : Nat) (e : PageTableEntry) :
    MemoryOnly k (k.storeEntry ptr e) :=
  ⟨rfl, rfl, rfl, rfl⟩

theorem mallocPage_memoryOnly (k : Kernel) (table : Nat) (user writable executable : Bool) :
    MemoryOnly k (k.mallocPage table user writable executable).1 := by
  have alloc := pmemAlloc_memoryOnly k
  unfold Kernel.mallocPage
  dsimp only
  split
  · exact alloc
  · exact (alloc.trans (storeEntry_memoryOnly _ _ _)).trans (memset_memoryOnly _ _ _ _)

theorem ensureTable_memoryOnly (k : Kernel) (table : Nat) :
    MemoryOnly k (k.ensureTable table).1 := by
  have alloc := mallocPage_memoryOnly k table true true true
  unfold Kernel.ensureTable
  split
  · exact ⟨rfl, rfl, rfl, rfl⟩
  · split <;> rename_i call <;> rw [call] at alloc <;> exact alloc

theorem vmMap_memoryOnly (k : Kernel) (root address : Nat) (user writable executable : Bool) :
    ∃ k', MemoryOnly k k' ∧ ((k.vmMap root address user writable executable).1 = k' ∨
      (k.vmMap root address user writable executable).1 = k'.invalidateTlb address) := by
  have level4 := ensureTable_memoryOnly k (k.entryPtr root (level4 address))
  unfold Kernel.vmMap
  split <;> rename_i call4 <;> rw [call4] at level4
  · exact ⟨_, level4, .inl rfl⟩
  rename_i k3 start3
  have level3 := ensureTable_memoryOnly k3 (k3.entryPtr start3 (level3 address))
  split <;> rename_i call3 <;> rw [call3] at level3
  · exact ⟨_, level4.trans level3, .inl rfl⟩
  rename_i k2 start2
  have level2 := ensureTable_memoryOnly k2 (k2.entryPtr start2 (level2 address))
  have above := level4.trans level3
  split <;> rename_i call2 <;> rw [call2] at level2
  · exact ⟨_, above.trans level2, .inl rfl⟩
  rename_i k1 start1
  have leaf := mallocPage_memoryOnly k1 (k1.entryPtr start1 (level1 address)) user
    writable executable
  have tables := above.trans level2
  dsimp only
  split
  · exact ⟨_, tables, .inl rfl⟩
  · split <;> rename_i call1 <;> rw [call1] at leaf
    · exact ⟨_, tables.trans leaf, .inl rfl⟩
    · exact ⟨_, tables.trans leaf, .inr rfl⟩

end MemoryOnly

end PaintKernel
