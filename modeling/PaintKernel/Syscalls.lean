import Mathlib
import PaintKernel.Cursor
import PaintKernel.ElfLoader
import PaintKernel.PageMap
import PaintKernel.Printf

set_option autoImplicit false

/-! The system calls: `syscall_handler` and what it dispatches to. `none` is a page fault in the
kernel, arithmetic that C leaves undefined, or a read that waits for a key forever. -/

namespace PaintKernel

open ByteMemory MachineInt Transition

structure Module where
  string : CString
  image : Mem

/-- The kernel with the globals its system calls use. The text that `kprintf` sends to the terminal
is collected in `printed`: `kprintf` is taken to return, as it does once the terminal is set up. -/
structure System where
  kernel : Kernel
  addre : UInt64
  modulesList : List Module
  framebuffer : Framebuffer
  framebufferAddr : Nat
  /-- the bytes after `letters`, as in `letter` -/
  beyond : Nat → UInt8
  savedPixels : Nat → Nat
  printed : List UInt8

/-- What the interrupt handlers have for a call: the characters that `kgetc` returns, one call after
the other, and the position and buttons of the mouse. -/
structure Input where
  keys : List UInt8
  data : MouseData

inductive Outcome where
  | returns (value : UInt64)
  | enters
  deriving DecidableEq, Repr

def Kernel.draw (k : Kernel) (ptr : Nat) (f : Mem → Mem) : Kernel :=
  let start := k.deref ptr
  { k with mem := fun n =>
      if start ≤ n ∧ n < start + 2 ^ 32 then f (fun i => k.mem (start + i)) (n - start)
        else k.mem n }

def Kernel.storeBytes (k : Kernel) (ptr : Nat) (bytes : List UInt8) : Option Kernel :=
  bytes.zipIdx.foldlM (fun k (byte, i) => k.storeVirt ((ptr + i) % 2 ^ 64) byte) k

def Kernel.sameString (k : Kernel) : List UInt8 → Nat → Option Bool
  | [], s2 => (k.loadVirt s2).map (· == 0)
  | c :: s1, s2 =>
      match k.loadVirt s2 with
      | none => none
      | some c2 => if c = c2 then k.sameString s1 ((s2 + 1) % 2 ^ 64) else some false

namespace Framebuffer

variable (fb : Framebuffer)

def clearScreen (screen : Mem) : Mem :=
  (loopValues 0 (fb.height * fb.pitch) fb.pitch).foldl (fun screen y =>
    (loopValues 0 (fb.width * fb.pixelwidth) fb.pixelwidth).foldl (fun screen x =>
      putPixel screen (x + y) 0 0 0) screen) screen

end Framebuffer

def int32Bytes (n : Int) : List UInt8 :=
  (List.range 4).map fun i => UInt8.ofNat (toUInt32 n / 256 ^ i)

def boolByte (b : Bool) : UInt8 := if b then 1 else 0

def MouseData.bytes (data : MouseData) : List UInt8 :=
  int32Bytes data.xPos ++ int32Bytes data.yPos ++
    [boolByte data.leftClick, boolByte data.rightClick, boolByte data.middleClick]

def LoadEvent.text : LoadEvent → List UInt8
  | .kprintf text => ascii text.toList
  | _ => []

def userStack : Nat := 0x70000000000

namespace System

variable (s : System)

def print (text : List UInt8) : System := { s with printed := s.printed ++ text }

def draw (f : Mem → Mem) : System := { s with kernel := s.kernel.draw s.framebufferAddr f }

/-- `run_program`, up to the jump to user mode. -/
def runProgram (image : Mem) : Option System := do
  let loader ← loadProgram image s.kernel
  let k := (List.range 8).foldl (fun k i =>
    (k.vmMap k.activeRoot (userStack + 4096 * i) true true false).1) loader.kernel
  return { s with kernel := k, printed := s.printed ++ loader.log.flatMap LoadEvent.text }

def sysWrite (fd buffer size : UInt64) : Option (System × Outcome) :=
  if fd ≠ 1 ∧ fd ≠ 2 then some (s, .returns (-1))
  else do
    let (s, count) ← (List.range size.toNat).foldlM (fun ((s, count) : System × Int) i => do
      let c ← s.kernel.loadVirt ((buffer.toNat + i) % 2 ^ 64)
      let count ← int32 (count + 1)
      return (s.print [c], count)) (s, 0)
    return (s, .returns (UInt64.ofInt count))

/-- The loop of `sys_read`. A backspace takes the last character back. -/
def readLoop (buffer size : Nat) : List UInt8 → Nat → Kernel → Option (Kernel × Nat)
  | [], length, k => if length < size then none else some (k, length)
  | c :: keys, length, k =>
      if length < size then
        if c = 8 then readLoop buffer size keys (length - 1) k
        else
          match k.storeVirt ((buffer + length) % 2 ^ 64) c with
          | none => none
          | some k => readLoop buffer size keys (length + 1) k
      else some (k, length)

/-- The first character is stored whatever it is and whatever the size. -/
def sysRead (input : Input) (fd buffer size : UInt64) : Option (System × Outcome) :=
  if fd ≠ 0 ∧ fd ≠ 3 then some (s, .returns (-1))
  else do
    let c ← input.keys.head?
    let k ← s.kernel.storeVirt buffer.toNat c
    let (k, length) ← readLoop buffer.toNat size.toNat input.keys.tail 1 k
    return ({ s with kernel := k }, .returns (UInt64.ofNat length))

def mapUserPage (root : Nat) (write exec : Bool) (address : Nat) : System :=
  let (k, mapped) := s.kernel.vmMap root address true write exec
  let s := { s with kernel := k }
  if mapped then s else s.print (ascii "mem map failed\n".toList)

/-- The product `j * PAGE_SIZE` and its sum with the start are signed. -/
def NoOverflow (start j : Nat) : Prop :=
  4096 * j < 2 ^ 31 ∧ ¬ (start < 2 ^ 63 ∧ 2 ^ 63 ≤ start + 4096 * j)

instance (start j : Nat) : Decidable (NoOverflow start j) := inferInstanceAs (Decidable (_ ∧ _))

def pageAddress (start j : Nat) : Nat := (start + 4096 * j) % 2 ^ 64

/-- The address a mapping starts from: `addr`, or what the cursor says when that is `NULL`. -/
def pick (addr : UInt64) : UInt64 := if addr = 0 then s.addre else addr

def startPage (addr : UInt64) : UInt64 := addr &&& 0xFFFFFFFFFFFFF000

def pageCount (addr len : UInt64) : Nat := ((addr + len - startPage addr) / 4096 + 1).toNat

def sysMmap (addr len prot : UInt64) : Option (System × Outcome) := do
  let root := s.kernel.activeRoot
  let picked := s.pick addr
  let s := if addr = 0 then { s with addre := s.addre + (len / 4096 + 1) * 4096 } else s
  let start := startPage picked
  let s ← (List.range (pageCount picked len)).foldlM (fun (s : System) j =>
    if NoOverflow start.toNat j then
      some (s.mapUserPage root (prot.toNat.testBit 1) (prot.toNat.testBit 2)
        (pageAddress start.toNat j))
    else none) s
  return (s, .returns start)

def findModule (file : Nat) : List Module → Option (Option Module)
  | [] => some none
  | m :: rest =>
      match s.kernel.sameString m.string.bytes file with
      | none => none
      | some true => some (some m)
      | some false => findModule file rest

def replaceProgram (m : Module) : Option System :=
  { s with kernel := s.kernel.unmapLowerHalf s.kernel.activeRoot }.runProgram m.image

def sysExec (file : UInt64) : Option (System × Outcome) :=
  match s.findModule file.toNat s.modulesList with
  | none => none
  | some none => some (s, .returns (-1))
  | some (some m) => (s.replaceProgram m).map fun s => (s, .enters)

def isInit (m : Module) : Bool := m.string.bytes = ascii "init".toList

def sysExit (status : UInt64) : Option (System × Outcome) :=
  match s.modulesList.find? isInit with
  | none => some (s, .returns status.toUInt32.toInt32.toInt64.toUInt64)
  | some m => (s.replaceProgram m).map fun s => (s, .enters)

def sysDrawRectangle (x y width height color : UInt32) : System × Outcome :=
  (s.draw (s.framebuffer.sysDrawRectangle x.toNat y.toNat width.toNat height.toNat color.toNat),
    .returns 1)

def sysReadmouse (input : Input) (mouseData : UInt64) : Option (System × Outcome) := do
  let k ← s.kernel.storeBytes mouseData.toNat input.data.bytes
  return ({ s with kernel := k }, .returns 1)

def updateSavedPixels (color : UInt32) : System :=
  { s with savedPixels := fun i => if i < 5 * 5 then color.toNat else s.savedPixels i }

def sysGwrite (x y color : UInt32) (buffer size : UInt64) : Option (System × Outcome) := do
  let s ← (List.range size.toNat).foldlM (fun (s : System) i => do
    let c ← s.kernel.loadVirt ((buffer.toNat + i) % 2 ^ 64)
    return s.draw (s.framebuffer.gkprintC s.beyond c ((x.toNat + 8 * i) % 2 ^ 32) y.toNat
      color.toNat)) s
  return (s, .returns 1)

def clearScreen (input : Input) : System :=
  let s := (s.draw s.framebuffer.clearScreen).updateSavedPixels 0
  s.draw (s.framebuffer.kdrawRectangle (toUInt32 input.data.xPos) (toUInt32 input.data.yPos)
    5 5 0xFFFFFF)

def sysGexec (input : Input) (file : UInt64) : Option (System × Outcome) :=
  (s.clearScreen input).sysExec file

def syscallHandler (input : Input) (nr arg0 arg1 arg2 arg3 arg4 _arg5 : UInt64) :
    Option (System × Outcome) :=
  if nr = 1 then s.sysWrite arg0 arg1 arg2
  else if nr = 0 then s.sysRead input arg0 arg1 arg2
  else if nr = 2 then s.sysMmap arg0 arg1 arg2
  else if nr = 3 then s.sysExec arg0
  else if nr = 4 then s.sysExit arg0
  else if nr = 5 then
    some (s.sysDrawRectangle arg0.toUInt32 arg1.toUInt32 arg2.toUInt32 arg3.toUInt32 arg4.toUInt32)
  else if nr = 6 then s.sysReadmouse input arg0
  else if nr = 7 then some (s.updateSavedPixels arg0.toUInt32, .returns 1)
  else if nr = 8 then s.sysGwrite arg0.toUInt32 arg1.toUInt32 arg2.toUInt32 arg3 arg4
  else if nr = 9 then s.sysGexec input arg0
  else some (s, .returns 0)

theorem syscallHandler_mmap (input : Input) (addr len prot flags fd offset : UInt64) :
    s.syscallHandler input 2 addr len prot flags fd offset = s.sysMmap addr len prot := by
  rw [syscallHandler, if_neg (by decide), if_neg (by decide), if_pos rfl]

inductive Handled (s : System) (input : Input) (arg0 arg1 arg2 arg3 arg4 : UInt64) :
    UInt64 → System × Outcome → Prop where
  | write {result : System × Outcome} (call : s.sysWrite arg0 arg1 arg2 = some result) :
      Handled s input arg0 arg1 arg2 arg3 arg4 1 result
  | read {result : System × Outcome} (call : s.sysRead input arg0 arg1 arg2 = some result) :
      Handled s input arg0 arg1 arg2 arg3 arg4 0 result
  | mmap {result : System × Outcome} (call : s.sysMmap arg0 arg1 arg2 = some result) :
      Handled s input arg0 arg1 arg2 arg3 arg4 2 result
  | exec {result : System × Outcome} (call : s.sysExec arg0 = some result) :
      Handled s input arg0 arg1 arg2 arg3 arg4 3 result
  | exit {result : System × Outcome} (call : s.sysExit arg0 = some result) :
      Handled s input arg0 arg1 arg2 arg3 arg4 4 result
  | drawRectangle : Handled s input arg0 arg1 arg2 arg3 arg4 5
      (s.sysDrawRectangle arg0.toUInt32 arg1.toUInt32 arg2.toUInt32 arg3.toUInt32 arg4.toUInt32)
  | readmouse {result : System × Outcome} (call : s.sysReadmouse input arg0 = some result) :
      Handled s input arg0 arg1 arg2 arg3 arg4 6 result
  | updateSavedPixels : Handled s input arg0 arg1 arg2 arg3 arg4 7
      (s.updateSavedPixels arg0.toUInt32, .returns 1)
  | gwrite {result : System × Outcome}
      (call : s.sysGwrite arg0.toUInt32 arg1.toUInt32 arg2.toUInt32 arg3 arg4 = some result) :
      Handled s input arg0 arg1 arg2 arg3 arg4 8 result
  | gexec {result : System × Outcome} (call : (s.clearScreen input).sysExec arg0 = some result) :
      Handled s input arg0 arg1 arg2 arg3 arg4 9 result
  | unknown {nr : UInt64} (other : nr ∉ ([0, 1, 2, 3, 4, 5, 6, 7, 8, 9] : List UInt64)) :
      Handled s input arg0 arg1 arg2 arg3 arg4 nr (s, .returns 0)

variable {s} in
theorem syscallHandler_handled {input : Input} {nr arg0 arg1 arg2 arg3 arg4 arg5 : UInt64}
    {result : System × Outcome}
    (call : s.syscallHandler input nr arg0 arg1 arg2 arg3 arg4 arg5 = some result) :
    s.Handled input arg0 arg1 arg2 arg3 arg4 nr result := by
  unfold syscallHandler at call
  by_cases write : nr = 1
  · rw [if_pos write] at call
    exact write ▸ .write call
  rw [if_neg write] at call
  by_cases read : nr = 0
  · rw [if_pos read] at call
    exact read ▸ .read call
  rw [if_neg read] at call
  by_cases mmap : nr = 2
  · rw [if_pos mmap] at call
    exact mmap ▸ .mmap call
  rw [if_neg mmap] at call
  by_cases exec : nr = 3
  · rw [if_pos exec] at call
    exact exec ▸ .exec call
  rw [if_neg exec] at call
  by_cases exit : nr = 4
  · rw [if_pos exit] at call
    exact exit ▸ .exit call
  rw [if_neg exit] at call
  by_cases rectangle : nr = 5
  · rw [if_pos rectangle] at call
    cases call
    exact rectangle ▸ .drawRectangle
  rw [if_neg rectangle] at call
  by_cases mouse : nr = 6
  · rw [if_pos mouse] at call
    exact mouse ▸ .readmouse call
  rw [if_neg mouse] at call
  by_cases saved : nr = 7
  · rw [if_pos saved] at call
    cases call
    exact saved ▸ .updateSavedPixels
  rw [if_neg saved] at call
  by_cases text : nr = 8
  · rw [if_pos text] at call
    exact text ▸ .gwrite call
  rw [if_neg text] at call
  by_cases gexec : nr = 9
  · rw [if_pos gexec] at call
    exact gexec ▸ .gexec call
  rw [if_neg gexec] at call
  cases call
  exact .unknown (by simp [write, read, mmap, exec, exit, rectangle, mouse, saved, text, gexec])

theorem sysWrite_eq (fd buffer size : UInt64) {bytes : List UInt8}
    (loaded : ∀ i < size.toNat, s.kernel.loadVirt ((buffer.toNat + i) % 2 ^ 64) = bytes[i]?) :
    s.sysWrite fd buffer size =
      (PaintKernel.sysWrite fd.toNat bytes size.toNat).map fun (count, text) =>
      (s.print text, .returns (UInt64.ofInt count)) := by
  have standard : fd ≠ 1 ∧ fd ≠ 2 ↔ fd.toNat ≠ 1 ∧ fd.toNat ≠ 2 := by
    rw [ne_eq, ne_eq, ← UInt64.toNat_inj, ← UInt64.toNat_inj]
    rfl
  unfold System.sysWrite PaintKernel.sysWrite
  by_cases other : fd ≠ 1 ∧ fd ≠ 2
  · rw [if_pos other, if_pos (standard.mp other), Option.map_some]
    simp [System.print]
  · rw [if_neg other, if_neg fun same => other (standard.mpr same)]
    let image := fun (state : Int × List UInt8) => (s.print state.2, state.1)
    let source := fun (state : System × Int) (i : Nat) => do
      let c ← state.1.kernel.loadVirt ((buffer.toNat + i) % 2 ^ 64)
      let count ← int32 (state.2 + 1)
      return (state.1.print [c], count)
    let body := fun (state : Int × List UInt8) (i : Nat) => do
      let c ← bytes[i]?
      let text ← kprintf charFormat [.int (promote c)]
      let count ← int32 (state.1 + 1)
      return (count, state.2 ++ text)
    have step : ∀ t, ∀ i ∈ List.range size.toNat, source (image t) i = (body t i).map image := by
      intro t i member
      have here := loaded i (List.mem_range.mp member)
      simp only [source, body, image, System.print, here]
      cases bytes[i]? with
      | none => rfl
      | some c =>
          simp only [Option.bind_eq_bind, Option.bind_some, kprintf_char]
          cases int32 (t.1 + 1) with
          | none => rfl
          | some count => simp
    have loop := foldlM_image step ((0 : Int), [])
    have start : image (0, []) = (s, (0 : Int)) := by simp [image, System.print]
    rw [start] at loop
    change ((List.range size.toNat).foldlM source (s, 0)).bind _ =
      Option.map _ ((List.range size.toNat).foldlM body (0, []))
    rw [loop]
    cases (List.range size.toNat).foldlM body (0, []) <;> rfl

def advance (addr len : UInt64) : System :=
  if addr = 0 then { s with addre := s.addre + (len / 4096 + 1) * 4096 } else s

/-- One page after the other, unless the arithmetic overflows on the way. -/
theorem sysMmap_eq (addr len prot : UInt64) :
    s.sysMmap addr len prot =
      if ∀ j ∈ List.range (pageCount (s.pick addr) len),
        NoOverflow (startPage (s.pick addr)).toNat j then
        some ((List.range (pageCount (s.pick addr) len)).foldl (fun t j =>
          t.mapUserPage s.kernel.activeRoot (prot.toNat.testBit 1) (prot.toNat.testBit 2)
            (pageAddress (startPage (s.pick addr)).toNat j)) (s.advance addr len),
          .returns (startPage (s.pick addr)))
      else none := by
  simp only [sysMmap, foldlM_guard, advance]
  generalize List.range (pageCount (s.pick addr) len) = pages
  split <;> rfl

theorem mapUserPage_mapped {s : System} {root address : Nat} {write exec : Bool} {k : Kernel}
    (call : s.kernel.vmMap root address true write exec = (k, true)) :
    s.mapUserPage root write exec address = { s with kernel := k } := by
  rw [mapUserPage, call]
  rfl

theorem sysMmap_page (addr len prot : UInt64) (one : pageCount (s.pick addr) len = 1) :
    s.sysMmap addr len prot = some ((s.advance addr len).mapUserPage s.kernel.activeRoot
      (prot.toNat.testBit 1) (prot.toNat.testBit 2) (startPage (s.pick addr)).toNat,
      .returns (startPage (s.pick addr))) := by
  have bound := (startPage (s.pick addr)).toNat_lt
  have first : pageAddress (startPage (s.pick addr)).toNat 0 = (startPage (s.pick addr)).toNat :=
    Nat.mod_eq_of_lt bound
  have safe : ∀ j ∈ List.range 1, NoOverflow (startPage (s.pick addr)).toNat j := by
    intro j member
    rw [List.mem_range] at member
    unfold NoOverflow
    omega
  rw [sysMmap_eq, one, if_pos safe, List.range_one, List.foldl_cons, List.foldl_nil, first]

end System

def bareSystem : System where
  kernel := bareKernel
  addre := 0x60000000
  modulesList := []
  framebuffer := squareScreen
  framebufferAddr := 0xFFFF8000FD000000
  beyond := fun _ => 0
  savedPixels := fun _ => 0
  printed := []

end PaintKernel
