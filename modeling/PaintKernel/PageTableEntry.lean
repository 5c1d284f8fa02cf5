import Mathlib

set_option autoImplicit false

/-! The packed page table entry. -/

namespace PaintKernel

structure PageTableEntry where
  present : Bool
  writable : Bool
  kernel : Bool
  writeThrough : Bool
  cacheDisable : Bool
  accessed : Bool
  dirty : Bool
  pageSize : Bool
  unused0 : BitVec 4
  physicalAddr : BitVec 40
  unused1 : BitVec 11
  noExecute : Bool
  deriving DecidableEq, Repr

namespace PageTableEntry

def bit (word index : Nat) : Bool := decide (word / 2 ^ index % 2 = 1)

def decode (word : Nat) : PageTableEntry where
  present := bit word 0
  writable := bit word 1
  kernel := bit word 2
  writeThrough := bit word 3
  cacheDisable := bit word 4
  accessed := bit word 5
  dirty := bit word 6
  pageSize := bit word 7
  unused0 := BitVec.ofNat 4 (word / 2 ^ 8)
  physicalAddr := BitVec.ofNat 40 (word / 2 ^ 12)
  unused1 := BitVec.ofNat 11 (word / 2 ^ 52)
  noExecute := bit word 63

def encode (e : PageTableEntry) : Nat :=
  e.present.toNat + 2 * e.writable.toNat + 4 * e.kernel.toNat + 8 * e.writeThrough.toNat +
    16 * e.cacheDisable.toNat + 32 * e.accessed.toNat + 64 * e.dirty.toNat +
    128 * e.pageSize.toNat + 2 ^ 8 * e.unused0.toNat + 2 ^ 12 * e.physicalAddr.toNat +
    2 ^ 52 * e.unused1.toNat + 2 ^ 63 * e.noExecute.toNat

theorem bit_eq (b : Bool) (word index : Nat) (value : word / 2 ^ index % 2 = b.toNat) :
    bit word index = b := by
  cases b <;> simp [bit, value]

theorem encode_lt (e : PageTableEntry) : e.encode < 256 ^ 8 := by
  have := e.present.toNat_le
  have := e.writable.toNat_le
  have := e.kernel.toNat_le
  have := e.writeThrough.toNat_le
  have := e.cacheDisable.toNat_le
  have := e.accessed.toNat_le
  have := e.dirty.toNat_le
  have := e.pageSize.toNat_le
  have := e.noExecute.toNat_le
  have := e.unused0.isLt
  have := e.physicalAddr.isLt
  have := e.unused1.isLt
  unfold encode
  omega

theorem decode_encode (e : PageTableEntry) : decode e.encode = e := by
  have h0 := e.present.toNat_le
  have h1 := e.writable.toNat_le
  have h2 := e.kernel.toNat_le
  have h3 := e.writeThrough.toNat_le
  have h4 := e.cacheDisable.toNat_le
  have h5 := e.accessed.toNat_le
  have h6 := e.dirty.toNat_le
  have h7 := e.pageSize.toNat_le
  have h63 := e.noExecute.toNat_le
  have low := e.unused0.isLt
  have frame := e.physicalAddr.isLt
  have high := e.unused1.isLt
  have word : ∀ (w : Nat) (v : BitVec w) (n : Nat), n % 2 ^ w = v.toNat → BitVec.ofNat w n = v := by
    intro w v n same
    exact BitVec.eq_of_toNat_eq (by rw [BitVec.toNat_ofNat, same])
  change decode e.encode = ⟨e.present, e.writable, e.kernel, e.writeThrough, e.cacheDisable,
    e.accessed, e.dirty, e.pageSize, e.unused0, e.physicalAddr, e.unused1, e.noExecute⟩
  simp only [decode, mk.injEq]
  refine ⟨?_, ?_, ?_, ?_, ?_, ?_, ?_, ?_, ?_, ?_, ?_, ?_⟩
  case refine_9 => exact word _ _ _ (by unfold encode; omega)
  case refine_10 => exact word _ _ _ (by unfold encode; omega)
  case refine_11 => exact word _ _ _ (by unfold encode; omega)
  all_goals
    apply bit_eq
    unfold encode
    omega

/-- The physical address an entry points to, `physical_addr << 12`. -/
def target (e : PageTableEntry) : Nat := e.physicalAddr.toNat <<< 12

theorem target_eq (e : PageTableEntry) : e.target = e.physicalAddr.toNat * 4096 := by
  simp [target, Nat.shiftLeft_eq]

theorem target_aligned (e : PageTableEntry) : e.target % 4096 = 0 := by
  rw [target_eq, Nat.mul_mod_left]

theorem target_lt (e : PageTableEntry) : e.target < 2 ^ 52 := by
  have bound := e.physicalAddr.isLt
  rw [target_eq]
  omega

@[simp] theorem decode_zero_present : (decode 0).present = false := rfl
end PageTableEntry

end PaintKernel
