import Mathlib
import PaintKernel.Library.Ports

set_option autoImplicit false

/-! The functions of `pic.c` on the two interrupt controllers of the machine. -/

namespace PaintKernel

open Ports

def pic1Command : UInt16 := 0x20
def pic1Data : UInt16 := 0x21
def pic2Command : UInt16 := 0xA0
def pic2Data : UInt16 := 0xA1
def picEoi : UInt8 := 0x20
def irq0Interrupt : UInt8 := 0x20
def irq8Interrupt : UInt8 := 0x28
def icw1Icw4 : UInt8 := 0x01
def icw1Init : UInt8 := 0x10
def icw4Mode8086 : UInt8 := 0x01

def ioWait : PortProgram Unit := outb 0x80 0

def picInit : PortProgram Unit := do
  outb pic1Command (icw1Init ||| icw1Icw4)
  ioWait
  outb pic2Command (icw1Init ||| icw1Icw4)
  ioWait
  outb pic1Data irq0Interrupt
  ioWait
  outb pic2Data irq8Interrupt
  ioWait
  outb pic1Data 0x04
  ioWait
  outb pic2Data 0x02
  ioWait
  outb pic1Data icw4Mode8086
  ioWait
  outb pic2Data icw4Mode8086
  ioWait
  outb pic1Data 0xFF
  outb pic2Data 0xFF
  sti

def picMaskIrq (num : UInt8) : PortProgram Unit := do
  if num < 8 then
    let mask ← inb pic1Data
    outb pic1Data (mask ||| 1 <<< num)
  else if num < 16 then
    let mask ← inb pic2Data
    outb pic2Data (mask ||| 1 <<< (num - 8))

def picUnmaskIrq (num : UInt8) : PortProgram Unit := do
  if num < 8 then
    let mask ← inb pic1Data
    outb pic1Data (mask &&& ~~~(1 <<< num))
  else if num < 16 then
    let mask ← inb pic2Data
    outb pic2Data (mask &&& ~~~(1 <<< (num - 8)))

/-! The controllers. -/

inductive Expected where
  | mask
  | icw2 (single icw4 : Bool)
  | icw3 (icw4 : Bool)
  | icw4
  deriving DecidableEq

/-- An 8259, less its latched requests. -/
structure Pic where
  expected : Expected
  offset : UInt8
  cascade : UInt8
  mode : UInt8
  imr : UInt8
  isr : Finset (Fin 8)
  deriving DecidableEq

namespace Pic

/-- An ICW1 or the end of the interrupt with the highest priority; no other command is sent. -/
def command (p : Pic) (val : UInt8) : Option Pic :=
  if val &&& 0x10 ≠ 0 then
    some { p with
      expected := .icw2 (val &&& 0x02 ≠ 0) (val &&& 0x01 ≠ 0), mode := 0, imr := 0, isr := ∅ }
  else if val = 0x20 then some { p with isr := p.isr.filter fun n => ∃ m ∈ p.isr, m < n }
  else none

def data (p : Pic) (val : UInt8) : Pic :=
  match p.expected with
  | .mask => { p with imr := val }
  | .icw2 single icw4 =>
      { p with offset := val &&& 0xF8, expected := if single then (if icw4 then .icw4 else .mask)
        else .icw3 icw4 }
  | .icw3 icw4 => { p with cascade := val, expected := if icw4 then .icw4 else .mask }
  | .icw4 => { p with mode := val, expected := .mask }

def Unmasked (p : Pic) (n : Fin 8) : Prop := p.imr.toBitVec.getLsbD n = false

instance (p : Pic) (n : Fin 8) : Decidable (p.Unmasked n) := inferInstanceAs (Decidable (_ = _))

/-- The request that the controller signals: the unmasked one with the highest priority, if that is
higher than everything in service. -/
def irq (p : Pic) (lines : Finset (Fin 8)) : Option (Fin 8) :=
  if p.expected = .mask ∧ p.mode &&& 0x01 ≠ 0 then
    (List.finRange 8).find? fun n => n ∈ lines ∧ p.Unmasked n ∧ ∀ m ∈ p.isr, n < m
  else none

/-- The request is in service, unless the controller ends interrupts by itself. -/
def serve (p : Pic) (n : Fin 8) : Pic :=
  if p.mode &&& 0x02 ≠ 0 then p else { p with isr := insert n p.isr }

def vector (p : Pic) (n : Fin 8) : UInt8 := p.offset + UInt8.ofNat n

end Pic

structure Pics where
  master : Pic
  slave : Pic
  deriving DecidableEq

namespace Pics

def read (d : Pics) (port : UInt16) (byte : UInt8) : UInt8 :=
  if port = pic1Data then d.master.imr else if port = pic2Data then d.slave.imr else byte

/-- The bytes that can be read at a port; all other devices answer what they want. -/
def Reads (d : Pics) (port : UInt16) (byte : UInt8) : Prop := ∃ other, byte = d.read port other

def write (d : Pics) (port : UInt16) (val : UInt8) : Option Pics :=
  if port = pic1Command then (d.master.command val).map fun master => { d with master }
  else if port = pic1Data then some { d with master := d.master.data val }
  else if port = pic2Command then (d.slave.command val).map fun slave => { d with slave }
  else if port = pic2Data then some { d with slave := d.slave.data val }
  else some d

theorem write_other (d : Pics) {port : UInt16} (val : UInt8) (c1 : port ≠ pic1Command)
    (d1 : port ≠ pic1Data) (c2 : port ≠ pic2Command) (d2 : port ≠ pic2Data) :
    d.write port val = some d := by
  rw [write, if_neg c1, if_neg d1, if_neg c2, if_neg d2]

theorem write_pic1Data (d : Pics) (val : UInt8) :
    d.write pic1Data val = some { d with master := d.master.data val } := rfl

theorem write_pic2Data (d : Pics) (val : UInt8) :
    d.write pic2Data val = some { d with slave := d.slave.data val } := rfl

def Unmasked (d : Pics) (line : Fin 16) : Prop :=
  if low : line.val < 8 then d.master.Unmasked ⟨line, low⟩
    else d.slave.Unmasked ⟨line - 8, by omega⟩

end Pics

section Masks

theorem bit_iff : ∀ k n :
    Fin 8, (1 <<< UInt8.ofNat k.val : UInt8).toBitVec.getLsbD n = decide (n = k) := by decide

theorem set_bit (imr : UInt8) (k n : Fin 8) :
    (imr ||| 1 <<< UInt8.ofNat k.val).toBitVec.getLsbD n = false ↔
      imr.toBitVec.getLsbD n = false ∧ n ≠ k := by
  rw [UInt8.toBitVec_or, BitVec.getLsbD_or, bit_iff, Bool.or_eq_false_iff, decide_eq_false_iff_not]

theorem clear_bit (imr : UInt8) (k n : Fin 8) :
    (imr &&& ~~~(1 <<< UInt8.ofNat k.val)).toBitVec.getLsbD n = false ↔
      imr.toBitVec.getLsbD n = false ∨ n = k := by
  rw [UInt8.toBitVec_and, UInt8.toBitVec_not, BitVec.getLsbD_and, BitVec.getLsbD_not, bit_iff]
  simp [Classical.or_iff_not_imp_left]

def Pics.withMasks (d : Pics) (master slave : UInt8) : Pics where
  master := { d.master with imr := master }
  slave := { d.slave with imr := slave }

structure Pics.Ready (d : Pics) : Prop where
  master : d.master.expected = .mask
  slave : d.slave.expected = .mask

variable {d : Pics} {master slave : UInt8}

theorem Pics.Ready.withMasks (ready : d.Ready) : (d.withMasks master slave).Ready :=
  ⟨ready.master, ready.slave⟩

theorem data_mask {p : Pic} (ready : p.expected = .mask) (val : UInt8) :
    p.data val = { p with imr := val } := by
  rw [Pic.data, ready]

theorem Pics.Ready.write_master (ready : d.Ready) (val : UInt8) :
    d.write pic1Data val = some (d.withMasks val d.slave.imr) := by
  rw [write_pic1Data, data_mask ready.master]
  rfl

theorem Pics.Ready.write_slave (ready : d.Ready) (val : UInt8) :
    d.write pic2Data val = some (d.withMasks d.master.imr val) := by
  rw [write_pic2Data, data_mask ready.slave]
  rfl

theorem read_pic1Data {byte : UInt8} (read : d.Reads pic1Data byte) : byte = d.master.imr := by
  obtain ⟨other, rfl⟩ := read
  rfl

theorem read_pic2Data {byte : UInt8} (read : d.Reads pic2Data byte) : byte = d.slave.imr := by
  obtain ⟨other, rfl⟩ := read
  rfl

theorem line_cases (line : Fin 16) :
    (∃ k : Fin 8, line.val = k.val) ∨ ∃ k : Fin 8, line.val = k.val + 8 := by
  by_cases low : line.val < 8
  · exact Or.inl ⟨⟨line, low⟩, rfl⟩
  · exact Or.inr ⟨⟨line - 8, by omega⟩, by simp only; omega⟩

instance (d : Pics) (line : Fin 16) : Decidable (d.Unmasked line) :=
  if low : line.val < 8 then
    decidable_of_iff (d.master.Unmasked ⟨line, low⟩) (by rw [Pics.Unmasked, dif_pos low])
  else decidable_of_iff (d.slave.Unmasked ⟨line - 8, by omega⟩) (by rw [Pics.Unmasked, dif_neg low])

theorem unmasked_low {l : Fin 16} (low : l.val < 8) :
    d.Unmasked l ↔ d.master.Unmasked ⟨l, low⟩ := by
  rw [Pics.Unmasked, dif_pos low]

theorem unmasked_high {l : Fin 16} (high : ¬l.val < 8) :
    d.Unmasked l ↔ d.slave.Unmasked ⟨l - 8, by omega⟩ := by
  rw [Pics.Unmasked, dif_neg high]

def Masks (d : Pics) (flag : Bool) (allowed : Fin 16 → Prop) (d' : Pics) (flag' : Bool) : Prop :=
  flag' = flag ∧ d' = d.withMasks d'.master.imr d'.slave.imr ∧ ∀ l, d'.Unmasked l ↔ allowed l

variable {inv : Pics → Bool → Prop} {assigned flag : Bool}

theorem masks_master (flag : Bool) {k : Fin 8} {line : Fin 16} (here : line.val = k.val)
    (allowed : Prop → Prop → Prop) {val : UInt8}
    (changed : ∀ n : Fin 8, val.toBitVec.getLsbD n = false ↔ allowed (d.master.Unmasked n) (n = k))
    (same : ∀ p, allowed p False ↔ p) :
    Masks d flag (fun l =>
      allowed (d.Unmasked l) (l = line)) (d.withMasks val d.slave.imr) flag := by
  refine ⟨rfl, rfl, ?_⟩
  intro l
  change _ ↔ allowed (d.Unmasked l) (l = line)
  by_cases low : l.val < 8
  · have place : l = line ↔ (⟨l, low⟩ : Fin 8) = k := by
      rw [Fin.ext_iff, Fin.ext_iff, here]
    rw [unmasked_low low, unmasked_low low, place]
    exact changed ⟨l, low⟩
  · have elsewhere : (l = line) = False := by
      rw [eq_iff_iff, iff_false, Fin.ext_iff]
      omega
    rw [unmasked_high low, unmasked_high low, elsewhere, same]
    rfl

theorem masks_slave (flag : Bool) {k : Fin 8} {line : Fin 16} (here : line.val = k.val + 8)
    (allowed : Prop → Prop → Prop) {val : UInt8}
    (changed : ∀ n : Fin 8, val.toBitVec.getLsbD n = false ↔ allowed (d.slave.Unmasked n) (n = k))
    (same : ∀ p, allowed p False ↔ p) :
    Masks d flag (fun l =>
      allowed (d.Unmasked l) (l = line)) (d.withMasks d.master.imr val) flag := by
  refine ⟨rfl, rfl, ?_⟩
  intro l
  change _ ↔ allowed (d.Unmasked l) (l = line)
  by_cases low : l.val < 8
  · have elsewhere : (l = line) = False := by
      rw [eq_iff_iff, iff_false, Fin.ext_iff]
      omega
    rw [unmasked_low low, unmasked_low low, elsewhere, same]
    rfl
  · have place : l = line ↔ (⟨l - 8, by omega⟩ : Fin 8) = k := by
      rw [Fin.ext_iff, Fin.ext_iff, here]
      simp only
      omega
    rw [unmasked_high low, unmasked_high low, place]
    exact changed ⟨l - 8, by omega⟩

theorem small_line {k : Fin 8} {line : Fin 16} (here : line.val = k.val) :
    UInt8.ofNat line.val < 8 ∧ UInt8.ofNat line.val = UInt8.ofNat k.val := by
  rw [here]
  exact ⟨(by decide : ∀ k : Fin 8, UInt8.ofNat k.val < 8) k, rfl⟩

theorem large_line {k : Fin 8} {line : Fin 16} (here : line.val = k.val + 8) :
    ¬UInt8.ofNat line.val < 8 ∧ UInt8.ofNat line.val < 16 ∧ UInt8.ofNat line.val - 8 =
      UInt8.ofNat k.val := by
  rw [here]
  exact (by decide : ∀ k : Fin 8, ¬UInt8.ofNat (k.val + 8) < 8 ∧ UInt8.ofNat (k.val + 8) < 16 ∧
    UInt8.ofNat (k.val + 8) - 8 = UInt8.ofNat k.val) k

/-- `pic_unmask_irq` opens the line and no other. -/
theorem picUnmaskIrq_safe (line : Fin 16) (ready : d.Ready) (start : inv d flag)
    (kept : ∀ d', Masks d flag (fun l => d.Unmasked l ∨ l = line) d' flag → inv d' flag) :
    Safe Pics.Reads Pics.write inv (fun _ d' _ =>
      Masks d flag (fun l => d.Unmasked l ∨ l = line) d')
      (picUnmaskIrq (UInt8.ofNat line.val)) d assigned flag := by
  rcases line_cases line with ⟨k, here⟩ | ⟨k, here⟩
  · obtain ⟨small, number⟩ := small_line here
    have changed := masks_master flag here Or (clear_bit d.master.imr k)
      fun p => iff_of_eq (or_false p)
    rw [picUnmaskIrq, if_pos small, number]
    refine ⟨start, fun byte read => ⟨start, _, ready.write_master _, ?_⟩⟩
    rw [read_pic1Data read]
    exact ⟨kept _ changed, changed⟩
  · obtain ⟨large, known, number⟩ := large_line here
    have changed := masks_slave flag here Or (clear_bit d.slave.imr k)
      fun p => iff_of_eq (or_false p)
    rw [picUnmaskIrq, if_neg large, if_pos known, number]
    refine ⟨start, fun byte read => ⟨start, _, ready.write_slave _, ?_⟩⟩
    rw [read_pic2Data read]
    exact ⟨kept _ changed, changed⟩

theorem picMaskIrq_safe (line : Fin 16) (ready : d.Ready) (start : inv d flag)
    (kept : ∀ d', Masks d flag (fun l => d.Unmasked l ∧ l ≠ line) d' flag → inv d' flag) :
    Safe Pics.Reads Pics.write inv (fun _ d' _ =>
      Masks d flag (fun l => d.Unmasked l ∧ l ≠ line) d')
      (picMaskIrq (UInt8.ofNat line.val)) d assigned flag := by
  rcases line_cases line with ⟨k, here⟩ | ⟨k, here⟩
  · obtain ⟨small, number⟩ := small_line here
    have changed := masks_master flag here (fun p q => p ∧ ¬q) (set_bit d.master.imr k)
      (fun p => by simp)
    rw [picMaskIrq, if_pos small, number]
    refine ⟨start, fun byte read => ⟨start, _, ready.write_master _, ?_⟩⟩
    rw [read_pic1Data read]
    exact ⟨kept _ changed, changed⟩
  · obtain ⟨large, known, number⟩ := large_line here
    have changed := masks_slave flag here (fun p q => p ∧ ¬q) (set_bit d.slave.imr k)
      (fun p => by simp)
    rw [picMaskIrq, if_neg large, if_pos known, number]
    refine ⟨start, fun byte read => ⟨start, _, ready.write_slave _, ?_⟩⟩
    rw [read_pic2Data read]
    exact ⟨kept _ changed, changed⟩

end Masks

section Init

def initialised : Pics where
  master := {
    expected := .mask, offset := 0x20, cascade := 0x04, mode := 0x01, imr := 0xFF, isr := ∅ }
  slave := {
    expected := .mask, offset := 0x28, cascade := 0x02, mode := 0x01, imr := 0xFF, isr := ∅ }

variable {inv : Pics → Bool → Prop} {assigned : Bool}

theorem write_ioWait (d : Pics) : d.write 0x80 0 = some d :=
  d.write_other 0 (by decide) (by decide) (by decide) (by decide)

theorem ioWait_safe {α : Type} {post : α → Pics → Bool → Bool → Prop} {next : Unit → PortProgram α}
    {d : Pics} {flag : Bool}
    (safe : Safe Pics.Reads Pics.write inv post (next ()) d assigned flag) :
    Safe Pics.Reads Pics.write inv post (ioWait >>= next) d assigned flag :=
  ⟨safe.invariant, d, write_ioWait d, safe⟩

/-- From any state the controllers are initialised before interrupts are enabled. -/
theorem picInit_safe (kept : ∀ d, inv d false) (last : inv initialised true) (d : Pics) :
    Safe Pics.Reads Pics.write inv (fun _ d' _ flag' => d' = initialised ∧ flag' = true) picInit d
      assigned false := by
  rw [picInit]
  refine ⟨kept _, _, rfl, ioWait_safe ⟨kept _, _, rfl,
    ioWait_safe ⟨kept _, _, rfl, ioWait_safe ⟨kept _, _, rfl,
    ioWait_safe ⟨kept _, _, rfl, ioWait_safe ⟨kept _, _, rfl, ioWait_safe ⟨kept _, _, rfl,
    ioWait_safe ⟨kept _, _, rfl, ioWait_safe ⟨kept _, _, rfl,
    kept _, _, rfl, kept _, last, rfl, rfl⟩⟩⟩⟩⟩⟩⟩⟩⟩

end Init

end PaintKernel
