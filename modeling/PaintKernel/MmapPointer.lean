import Mathlib
import PaintKernel.Syscalls

set_option autoImplicit false

/-! The pointer that a program gets from `mmap`. -/

namespace PaintKernel

/-- The stub is declared to return `int`: the low half of `%rax`, converted to `intptr_t`. -/
def intReturn (rax : UInt64) : UInt64 := rax.toUInt32.toInt32.toInt64.toUInt64

def System.mmap (input : Input) (s : System) (addr len prot flags fd offset : UInt64) :
    Option (System × UInt64) :=
  match s.syscallHandler input 2 addr len prot flags fd offset with
  | some (s, .returns rax) => some (s, intReturn rax)
  | _ => none

def FitsInt (addr : UInt64) : Prop := addr.toNat < 2 ^ 31 ∨ 2 ^ 64 - 2 ^ 31 ≤ addr.toNat

instance (addr : UInt64) : Decidable (FitsInt addr) := inferInstanceAs (Decidable (_ ∨ _))

theorem intReturn_iff (rax : UInt64) : intReturn rax = rax ↔ FitsInt rax := by
  have bound := rax.toNat_lt
  have low : rax.toUInt32.toInt32.toInt64.toInt = (rax.toNat : Int).bmod (2 ^ 32) := by
    have bits : rax.toUInt32.toInt32.toBitVec = rax.toBitVec.setWidth 32 := by simp
    rw [Int32.toInt_toInt64, Int32.toInt, bits, BitVec.toInt_setWidth]
    rfl
  have whole : rax.toInt64.toInt = (rax.toNat : Int).bmod (2 ^ 64) := BitVec.toInt_eq_toNat_bmod _
  have same : intReturn rax = rax ↔ rax.toUInt32.toInt32.toInt64 = rax.toInt64 := by
    constructor
    · intro equal
      rw [← Int64.toInt64_toUInt64 rax.toUInt32.toInt32.toInt64]
      exact congrArg UInt64.toInt64 equal
    · intro equal
      rw [intReturn, equal, UInt64.toUInt64_toInt64]
  rw [same, ← Int64.toInt_inj, low, whole, FitsInt]
  simp only [Int.bmod_def]
  omega

theorem startPage_toNat (addr : UInt64) :
    (System.startPage addr).toNat = addr.toNat / 4096 * 4096 := by
  rw [System.startPage, UInt64.toNat_and]
  exact pageMask_eq _ addr.toNat_lt

theorem pageCount_toNat {addr len : UInt64} (bound : addr.toNat + len.toNat < 2 ^ 64) :
    System.pageCount addr len = (addr.toNat % 4096 + len.toNat) / 4096 + 1 := by
  have start := startPage_toNat addr
  have sum : (addr + len).toNat = addr.toNat + len.toNat := by
    rw [UInt64.toNat_add, Nat.mod_eq_of_lt bound]
  have rest : (addr + len - System.startPage addr).toNat = addr.toNat % 4096 + len.toNat := by
    rw [UInt64.toNat_sub_of_le, sum, start]
    · omega
    · rw [UInt64.le_iff_toNat_le, sum, start]
      omega
  have page : (4096 : UInt64).toNat = 4096 := rfl
  have one : (1 : UInt64).toNat = 1 := rfl
  rw [System.pageCount, UInt64.toNat_add, UInt64.toNat_div, rest, page, one]
  omega

theorem advance_cursor {s : System} {addr len : UInt64} (null : addr = 0) :
    (s.advance addr len).addre.toNat =
      (s.addre.toNat + (len.toNat / 4096 + 1) * 4096) % 2 ^ 64 := by
  have page : (4096 : UInt64).toNat = 4096 := rfl
  have one : (1 : UInt64).toNat = 1 := rfl
  rw [System.advance, if_pos null]
  show (s.addre + (len / 4096 + 1) * 4096).toNat = _
  rw [UInt64.toNat_add, UInt64.toNat_mul, UInt64.toNat_add, UInt64.toNat_div, page, one]
  omega

theorem fitsInt_startPage (addr : UInt64) : FitsInt (System.startPage addr) ↔ FitsInt addr := by
  have bound := addr.toNat_lt
  rw [FitsInt, FitsInt, startPage_toNat]
  omega

theorem sysMmap_start {s s' : System} {addr len prot rax : UInt64}
    (call : s.sysMmap addr len prot = some (s', .returns rax)) :
    rax = System.startPage (s.pick addr) := by
  rw [s.sysMmap_eq] at call
  split at call
  · cases call
    rfl
  · cases call

/-- Whatever was mapped before, the pointer is the address that the kernel mapped exactly when that
address survives the `int` of the stub. -/
theorem mmap_pointer_iff {s s' : System} {addr len prot rax : UInt64} (flags fd offset : UInt64)
    (input : Input) (call : s.sysMmap addr len prot = some (s', .returns rax)) :
    s.mmap input addr len prot flags fd offset = some (s', rax) ↔ FitsInt (s.pick addr) := by
  rw [System.mmap, System.syscallHandler_mmap, call, Option.some.injEq, Prod.mk.injEq]
  simp only [true_and, intReturn_iff]
  rw [sysMmap_start call, fitsInt_startPage]

def idleInput : Input := ⟨[], ⟨100, 100, false, false, false⟩⟩

theorem bare_mmap_pointer :
    ∃ s', bareSystem.sysMmap 0x400000 0 3 = some (s', .returns 0x400000) ∧
      bareSystem.mmap idleInput 0x400000 0 3 0 0 0 = some (s', 0x400000) := by
  have call := bareSystem.sysMmap_eq 0x400000 0 3
  rw [if_pos (by decide)] at call
  exact ⟨_, call, (mmap_pointer_iff 0 0 0 idleInput call).mpr (by decide)⟩

/-- The kernel returns 2 GiB, and the program gets an address in the higher half. -/
theorem mmap_pointer_extended :
    ∃ s', bareSystem.sysMmap 0x80000000 0 3 = some (s', .returns 0x80000000) ∧
      bareSystem.mmap idleInput 0x80000000 0 3 0 0 0 = some (s', 0xFFFFFFFF80000000) := by
  have call := bareSystem.sysMmap_eq 0x80000000 0 3
  rw [if_pos (by decide)] at call
  refine ⟨_, call, ?_⟩
  rw [System.mmap, System.syscallHandler_mmap, call]
  rfl

end PaintKernel
