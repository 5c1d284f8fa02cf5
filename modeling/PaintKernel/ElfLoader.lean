import Mathlib
import PaintKernel.UserMemory

set_option autoImplicit false

/-! The segment loop of `run_program`. -/

namespace PaintKernel

open ByteMemory

/-- A byte of the module, by its offset from the start of the image. Offsets wrap with the
64-bit pointer. The boot loader keeps modules out of the usable memory, so loading changes none. -/
def fileByte (image : Mem) (offset : Nat) : UInt8 := image (offset % 2 ^ 64)

structure Phdr where
  type : Nat
  flags : Nat
  offset : Nat
  vaddr : Nat
  filesz : Nat
  memsz : Nat
  deriving DecidableEq, Repr

def ePhoff (image : Mem) : Nat := readLE (fileByte image) 32 8
def ePhnum (image : Mem) : Nat := readLE (fileByte image) 56 2

def phdr (image : Mem) (i : Nat) : Phdr where
  type := readLE (fileByte image) (ePhoff image + 56 * i) 4
  flags := readLE (fileByte image) (ePhoff image + 56 * i + 4) 4
  offset := readLE (fileByte image) (ePhoff image + 56 * i + 8) 8
  vaddr := readLE (fileByte image) (ePhoff image + 56 * i + 16) 8
  filesz := readLE (fileByte image) (ePhoff image + 56 * i + 32) 8
  memsz := readLE (fileByte image) (ePhoff image + 56 * i + 40) 8

def segments (image : Mem) : List Phdr := (List.range (ePhnum image)).map (phdr image)

namespace Phdr

def Loads (h : Phdr) : Prop := h.type = 1 ∧ h.memsz ≠ 0

instance (h : Phdr) : Decidable h.Loads := inferInstanceAs (Decidable (_ ∧ _))

def readable (h : Phdr) : Bool := h.flags.testBit 2
def writable (h : Phdr) : Bool := h.flags.testBit 1
def executable (h : Phdr) : Bool := h.flags.testBit 0

def pageBase (h : Phdr) : Nat := h.vaddr &&& 0xFFFFFFFFFFFFF000

/-- The bound of both page loops,
`(p_vaddr + p_memsz - (p_vaddr & 0xFFFFFFFFFFFFF000)) / PAGE_SIZE + 1`. -/
def pageCount (h : Phdr) : Nat :=
  ((h.vaddr + h.memsz) % 2 ^ 64 + (2 ^ 64 - h.pageBase)) % 2 ^ 64 / 4096 + 1

end Phdr

/-- The calls of the loader and what became of them; `memcpy` is one event per byte, which
records whether the page it writes is mapped and writable at that moment. -/
inductive LoadEvent where
  | vmMap (address : Nat) (mapped : Bool)
  | memcpy (des src : Nat) (writable : Bool)
  | vmProtect (address : Nat) (changed : Bool)
  | kprintf (text : String)
  deriving DecidableEq, Repr

def LoadEvent.Succeeds : LoadEvent → Prop
  | .vmMap _ mapped => mapped = true
  | .memcpy _ _ writable => writable = true
  | .vmProtect _ changed => changed = true
  | .kprintf _ => True

structure Loader where
  kernel : Kernel
  log : List LoadEvent

def mapPage (root address : Nat) (s : Loader) : Loader :=
  let (k, mapped) := s.kernel.vmMap root address true true false
  ⟨k, s.log ++ .vmMap address mapped :: if mapped then [] else [.kprintf "mem map failed\n"]⟩

def protectPage (root : Nat) (readable writable executable : Bool) (address : Nat)
    (s : Loader) : Loader :=
  let (k, changed) := s.kernel.vmProtect root address readable writable executable
  ⟨k, s.log ++ .vmProtect address changed :: if changed then [] else [.kprintf "protect failed\n"]⟩

/-- The page loops, from index `j` on. `none` is overflow of the `int` product `j * PAGE_SIZE`,
which C leaves undefined. -/
def forPages (body : Nat → Loader → Loader) (base j : Nat) : Nat → Loader → Option Loader
  | 0, s => some s
  | remaining + 1, s =>
      if 4096 * j < 2 ^ 31 then
        forPages body base (j + 1) remaining (body ((base + 4096 * j) % 2 ^ 64) s)
      else none

def copyBytes (image : Mem) (des src i : Nat) : Nat → Loader → Option Loader
  | 0, s => some s
  | remaining + 1, s =>
      let address := (des + i) % 2 ^ 64
      match s.kernel.storeVirt address (fileByte image (src + i)) with
      | none => none
      | some k => copyBytes image des src (i + 1) remaining
          ⟨k, s.log ++ [.memcpy address ((src + i) % 2 ^ 64) (s.kernel.writableAt address)]⟩

def loadSegment (image : Mem) (root : Nat) (h : Phdr) (s : Loader) : Option Loader :=
  if h.Loads then
    match forPages (mapPage root) h.pageBase 0 h.pageCount s with
    | none => none
    | some s =>
    match copyBytes image h.vaddr h.offset 0 h.memsz s with
    | none => none
    | some s =>
      forPages (protectPage root h.readable h.writable h.executable) h.pageBase 0 h.pageCount s
  else some s

def loadSegments (image : Mem) (root : Nat) : List Phdr → Loader → Option Loader
  | [], s => some s
  | h :: rest, s =>
      match loadSegment image root h s with
      | none => none
      | some s => loadSegments image root rest s

/-- The segment loop of `run_program`, for the module whose bytes are `image`. -/
def loadProgram (image : Mem) (k : Kernel) : Option Loader :=
  loadSegments image k.activeRoot (segments image) ⟨k, []⟩

theorem pageMask_eq (n : Nat) (bound : n < 2 ^ 64) :
    n &&& 0xFFFFFFFFFFFFF000 = n / 4096 * 4096 := by
  have mask : 0xFFFFFFFFFFFFF000 = (2 ^ 52 - 1) <<< 12 := by decide
  have shifted : n / 4096 * 4096 = (n >>> 12) <<< 12 := by
    rw [Nat.shiftLeft_eq, Nat.shiftRight_eq_div_pow]
  rw [mask, shifted]
  apply Nat.eq_of_testBit_eq
  intro i
  simp only [Nat.testBit_and, Nat.testBit_shiftLeft, Nat.testBit_shiftRight,
    Nat.testBit_two_pow_sub_one]
  by_cases low : 12 ≤ i
  · by_cases high : i < 64
    · simp [low, show i - 12 < 52 by omega, show 12 + (i - 12) = i by omega]
    · have large : n < 2 ^ i := lt_of_lt_of_le bound (Nat.pow_le_pow_right (by decide) (by omega))
      simp [Nat.testBit_lt_two_pow large, show 12 + (i - 12) = i by omega]
  · simp [low]

namespace Phdr

variable {h : Phdr}

def Touches (h : Phdr) (page : Nat) : Prop :=
  h.vaddr / 4096 ≤ page ∧ page ≤ (h.vaddr + h.memsz) / 4096

def Covers (h : Phdr) (page : Nat) : Prop :=
  4096 * page < h.vaddr + h.memsz ∧ h.vaddr < 4096 * page + 4096

instance (page : Nat) : Decidable (h.Touches page) := inferInstanceAs (Decidable (_ ∧ _))
instance (page : Nat) : Decidable (h.Covers page) := inferInstanceAs (Decidable (_ ∧ _))

def Lower (h : Phdr) : Prop := h.vaddr + h.memsz < 2 ^ 47

theorem pageBase_eq (lower : h.Lower) : h.pageBase = 4096 * (h.vaddr / 4096) := by
  unfold Lower at lower
  rw [pageBase, pageMask_eq _ (by omega), Nat.mul_comm]

theorem pageCount_eq (lower : h.Lower) :
    h.pageCount = (h.vaddr + h.memsz) / 4096 - h.vaddr / 4096 + 1 := by
  rw [pageCount, pageBase_eq lower]
  unfold Lower at lower
  omega

theorem touches_iff (lower : h.Lower) (page : Nat) :
    h.Touches page ↔ h.vaddr / 4096 ≤ page ∧ page < h.vaddr / 4096 + h.pageCount := by
  have ordered : h.vaddr / 4096 ≤ (h.vaddr + h.memsz) / 4096 := Nat.div_le_div_right (by omega)
  rw [pageCount_eq lower, Touches]
  omega

theorem touches_at (lower : h.Lower) {i : Nat} (bound : i < h.pageCount) :
    h.Touches (h.vaddr / 4096 + i) :=
  (touches_iff lower _).mpr (by omega)

end Phdr

end PaintKernel
