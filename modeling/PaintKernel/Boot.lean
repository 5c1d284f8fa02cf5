import Mathlib
import PaintKernel.Isolation

set_option autoImplicit false

/-! `_start`, and the handlers of the exceptions that can interrupt it and everything after it. -/

namespace PaintKernel

open ByteMemory Output

structure BootTags where
  hhdm : Nat
  hhdm_lt : hhdm < 2 ^ 64
  memmap : List MemmapEntry
  framebuffer : Framebuffer
  framebufferAddr : Nat
  modules : List Module

inductive Phase where
  | booting
  | user
  | halted
  deriving DecidableEq, Repr

namespace System

variable (s : System)

/-- `initialize_cursor`. Whether the two pages could be mapped is not looked at; the structs in
them are kept apart from the memory, as in `Input`. -/
def initializeCursor : System :=
  let root := s.kernel.activeRoot
  let k := (s.kernel.vmMap root 0xffff800034001000 false true false).1
  let k := (k.vmMap root 0xffff800035001000 false true false).1
  let screen := fun i => k.mem (k.deref s.framebufferAddr + i)
  let s := { s with
    kernel := k
    savedPixels := s.framebuffer.saveBackground 100 100 screen s.savedPixels }
  s.draw (s.framebuffer.kdrawRectangle 100 100 5 5 0xFFFFFF)

def boot (tags : BootTags) : Option System := do
  let s := { s with framebuffer := tags.framebuffer, framebufferAddr := tags.framebufferAddr }
  let k ← s.kernel.freelistInit tags.hhdm tags.memmap tags.hhdm_lt
  let s := { s with kernel := k.unmapLowerHalf k.activeRoot }
  return { s.initializeCursor with modulesList := tags.modules }

/-- `run_program` does not return to the loop, so only the first module called init is run. -/
def start (tags : BootTags) : Option (System × Phase) := do
  let s ← s.boot tags
  match s.modulesList.find? isInit with
  | none => return (s, .halted)
  | some m => return (← s.runProgram m.image, .user)

end System

/-- What the handlers of the exceptions pass to `kprintf`, in the order in which `idt_setup`
installs them from vector 0 on. -/
def exceptionFormats : List String := [
  "divide error handler\n",
  "debug exception handler\n",
  "nmi interrupt handler\n",
  "breakpoint handler\n",
  "overflow handler\n",
  "bound range exceeded handler\n",
  "invalid opcode handler\n",
  "device not available handler\n",
  "double fault handler (ec=%d)\n",
  "coprocessor segment overrun fault handler\n",
  "invalid TSS handler (ec=%d)\n",
  "segment not present handler (ec=%d)\n",
  "stack segment fault handler (ec=%d)\n",
  "general protection handler (ec=%d)\n",
  "page fault handler (ec=%d)\n",
  "generic interrupt handler\n",
  "x87 fpu floating point error handler\n",
  "alignment check handler (ec=%d)\n",
  "machine check handler\n",
  "simd floating point exception handler\n",
  "virtualization exception handler\n",
  "control protection exception handler (ec=%d)\n"]

theorem exceptionFormats_terminated : ∀ format ∈ exceptionFormats, 0 ∉ ascii format.toList := by
  decide +kernel

def exceptionText (vector : Fin exceptionFormats.length) (ec : UInt64) : Option (List UInt8) :=
  kprintf ⟨ascii (exceptionFormats.get vector).toList,
    exceptionFormats_terminated _ (List.get_mem _ _)⟩ [.num ec]

theorem exceptionFormats_head :
    ∀ format ∈ exceptionFormats, ∃ c ∈ (ascii format.toList).head?, c ≠ byte '%' := by
  decide +kernel

theorem formatLoop_ne_nil {format : List UInt8} {args : List Arg} {c : UInt8} {text : List UInt8}
    (first : c ∈ format.head?) (plain : c ≠ byte '%')
    (printed : formatLoop kprintPiece format args = some text) :
    text ≠ [] := by
  cases format with
  | nil => cases first
  | cons head rest =>
      cases first
      unfold formatLoop at printed
      rw [if_neg plain, kprintPiece, kprintC_eq] at printed
      rcases andThen_eq_some printed with ⟨_, _, here, _, rfl⟩
      cases here
      exact List.cons_ne_nil _ _

theorem exceptionText_ne_nil {vector : Fin exceptionFormats.length} {ec : UInt64}
    {text : List UInt8} (printed : exceptionText vector ec = some text) : text ≠ [] := by
  rcases exceptionFormats_head _ (List.get_mem exceptionFormats vector) with ⟨c, first, plain⟩
  exact formatLoop_ne_nil first plain printed

end PaintKernel
