import Mathlib
import PaintKernel.ClearScreen
import PaintKernel.Isolation
import PaintKernel.KernelMessages
import PaintKernel.Strcmp

set_option autoImplicit false

/-! `sys_gexec`: the screen is cleared before the program is looked for. -/

namespace PaintKernel

open ByteMemory Raster

namespace Kernel

variable (k : Kernel)

def byteAddress (v : Nat) : Option Nat :=
  if v < 2 ^ 47 then (walk k.mem k.activeRoot v).map fun mapping => mapping.frame + v % 4096
  else if 2 ^ 64 - 2 ^ 47 ≤ v ∧ v < 2 ^ 64 then some (k.deref v)
  else none

def HoldsBytes (v : Nat) (bytes : List UInt8) : Prop :=
  ∀ i < bytes.length, k.loadVirt ((v + i) % 2 ^ 64) = bytes[i]?

end Kernel

namespace System

variable (s : System)

def SparesTables : Prop :=
  ∀ (path : List (Fin 512)) table, path.length < 4 →
    pageAt s.kernel.mem s.kernel.activeRoot path = some table →
    ∀ n, table ≤ n → n < table + 4096 → ¬s.OnFramebuffer n

def SparesText (file : UInt64) (name : CString) : Prop :=
  ∀ i < name.buffer.length, ∀ n, s.kernel.byteAddress ((file.toNat + i) % 2 ^ 64) = some n →
    ¬s.OnFramebuffer n

/-- Everything but the screen and `saved_pixels` is as before. Every pixel is black, except for
those of the cursor. -/
structure OnlyCleared (input : Input) (s' : System) : Prop where
  rest : s' = { s with
    kernel := { s.kernel with mem := s'.kernel.mem }
    savedPixels := s'.savedPixels }
  memory : ∀ n, ¬s.OnFramebuffer n → s'.kernel.mem n = s.kernel.mem n
  translations : s.SparesTables → ∀ v,
    walk s'.kernel.mem s'.kernel.activeRoot v = walk s.kernel.mem s.kernel.activeRoot v
  names : s.SparesTables → ∀ file name, s.SparesText file name →
    (s'.kernel.HoldsBytes file.toNat name.buffer ↔ s.kernel.HoldsBytes file.toNat name.buffer)
  pixels : ∀ a < s.framebuffer.width, ∀ b < s.framebuffer.height, ∀ c < 3,
    s'.kernel.mem (s.kernel.deref s.framebufferAddr + (s.framebuffer.layout.offset a b + c)) =
      if (toUInt32 input.data.xPos ≤ a ∧ a < toUInt32 input.data.xPos + 5) ∧
        (toUInt32 input.data.yPos ≤ b ∧ b < toUInt32 input.data.yPos + 5) then 0xFF else 0
  saved : ∀ i < 25, s'.savedPixels i = 0

end System

section Names

variable {k : Kernel} {s : System} {v file : Nat} {bytes s1 s2 : List UInt8} {name : CString}

theorem Kernel.loadVirt_eq (k : Kernel) (v : Nat) : k.loadVirt v = (k.byteAddress v).map k.mem := by
  unfold Kernel.loadVirt Kernel.byteAddress
  split_ifs
  · cases walk k.mem k.activeRoot v <;> rfl
  · rfl
  · rfl

theorem Kernel.HoldsBytes.head {c : UInt8} (holds : k.HoldsBytes v (c :: bytes))
    (small : v < 2 ^ 64) :
    k.loadVirt v = some c := by
  have first := holds 0 (Nat.succ_pos _)
  rwa [Nat.add_zero, Nat.mod_eq_of_lt small] at first

theorem Kernel.HoldsBytes.tail {c : UInt8} (holds : k.HoldsBytes v (c :: bytes)) :
    k.HoldsBytes ((v + 1) % 2 ^ 64) bytes := by
  intro i inside
  have next := holds (i + 1) (Nat.succ_lt_succ inside)
  rw [List.getElem?_cons_succ] at next
  rw [← next]
  congr 1
  omega

theorem sameString_eq (first : 0 ∉ s1) (second : 0 ∉ s2) (small : v < 2 ^ 64)
    (holds : k.HoldsBytes v (s2 ++ [0])) :
    k.sameString s1 v = some (decide (s1 = s2)) := by
  induction s1 generalizing s2 v with
  | nil =>
      cases s2 with
      | nil =>
          rw [Kernel.sameString, holds.head small]
          rfl
      | cons d s2 =>
          have letter : d ≠ 0 := (List.ne_of_not_mem_cons second).symm
          rw [Kernel.sameString, holds.head small]
          simp [letter]
  | cons c s1 ih =>
      have letter : c ≠ 0 := (List.ne_of_not_mem_cons first).symm
      cases s2 with
      | nil =>
          rw [Kernel.sameString, holds.head small]
          simp [letter]
      | cons d s2 =>
          rw [Kernel.sameString, holds.head small]
          by_cases same : c = d
          · have rest := ih (List.not_mem_of_not_mem_cons first)
              (List.not_mem_of_not_mem_cons second)
              (Nat.mod_lt _ (by decide)) holds.tail
            rw [same]
            refine (if_pos rfl).trans (rest.trans ?_)
            simp
          · simp [same]

/-- The search ends at the first module whose string is the name. -/
theorem findModule_eq (small : file < 2 ^ 64) (holds : s.kernel.HoldsBytes file name.buffer)
    (modules : List Module) :
    s.findModule file modules = some (modules.find? fun m => m.string = name) := by
  induction modules with
  | nil => rfl
  | cons m modules ih =>
      have compared := sameString_eq m.string.terminated name.terminated small holds
      by_cases same : m.string = name
      · rw [System.findModule, compared, same, decide_eq_true rfl,
          List.find?_cons_of_pos (by simpa using same)]
      · have different : m.string.bytes ≠ name.bytes :=
          fun bytes => same (CString.eq_of_bytes bytes)
        rw [System.findModule, compared, decide_eq_false different,
          List.find?_cons_of_neg (by simpa using same)]
        exact ih

end Names

section Clearing

variable {fb : Framebuffer} {s : System} {x y a b c : Nat}

theorem square_pixel (screen : Mem) (column : a < fb.width) (row : b < fb.height)
    (channel : c < 3) :
    fb.kdrawRectangle x y 5 5 0xFFFFFF screen (fb.layout.offset a b + c) =
      if (x ≤ a ∧ a < x + 5) ∧
        (y ≤ b ∧ b < y + 5) then 0xFF else screen (fb.layout.offset a b + c) := by
  have widths := fb.width_lt
  have heights := fb.height_lt
  by_cases corner : x < fb.width ∧ y < fb.height
  · rw [kdrawRectangle_paint (by omega) (by omega)]
    split_ifs with hit
    · rw [Layout.paint_offset (r := fb.layout) column channel ⟨hit, row⟩, solid_white]
    · apply Layout.paint_outside
      rw [Layout.inside_offset (r := fb.layout) column channel]
      exact fun painted => hit painted.1
  · have off : x ≥ fb.width ∨ y ≥ fb.height := by omega
    rw [Framebuffer.kdrawRectangle, if_pos off, if_neg (by omega)]

theorem clearScreen_pixel (screen : Mem) (column : a < fb.width) (row : b < fb.height)
    (channel : c < 3) :
    fb.clearScreen screen (fb.layout.offset a b + c) = 0 := by
  rw [clearScreen_paint (pitch_pos column),
    Layout.paint_offset (r := fb.layout) column channel ⟨by omega, by omega⟩, solid_black]

theorem offset_small (column : a < fb.width) (row : b < fb.height) (channel : c < 3) :
    fb.layout.offset a b + c < 2 ^ 32 := by
  have last : fb.layout.offset a b + 3 ≤ fb.height * fb.pitch := offset_lt column row
  have size := fb.size_lt
  omega

theorem draw_byte (s : System) (f : Mem → Mem) {n : Nat} (small : n < 2 ^ 32) :
    (s.draw f).kernel.mem (s.kernel.deref s.framebufferAddr + n) =
      f (fun i => s.kernel.mem (s.kernel.deref s.framebufferAddr + i)) n := by
  simp only [System.draw, Kernel.draw]
  rw [if_pos (by omega), Nat.add_sub_cancel_left]

theorem System.clearScreen_pixels (s : System) (input : Input) (column : a < s.framebuffer.width)
    (row : b < s.framebuffer.height) (channel : c < 3) :
    (s.clearScreen input).kernel.mem (s.kernel.deref s.framebufferAddr +
      (s.framebuffer.layout.offset a b + c)) =
      if (toUInt32 input.data.xPos ≤ a ∧ a < toUInt32 input.data.xPos + 5) ∧
        (toUInt32 input.data.yPos ≤ b ∧ b < toUInt32 input.data.yPos + 5) then 0xFF else 0 := by
  have small := offset_small column row channel
  have drawn := draw_byte ((s.draw s.framebuffer.clearScreen).updateSavedPixels 0)
    (s.framebuffer.kdrawRectangle (toUInt32 input.data.xPos) (toUInt32 input.data.yPos) 5 5
      0xFFFFFF) small
  refine drawn.trans ?_
  have black := draw_byte s s.framebuffer.clearScreen small
  rw [clearScreen_pixel _ column row channel] at black
  rw [square_pixel _ column row channel]
  split_ifs
  · rfl
  · exact black

end Clearing

section Gexec

variable {s : System} {input : Input} {file : UInt64} {name : CString}

theorem System.clearScreen_outside (s : System) (input : Input) {n : Nat}
    (off : ¬s.OnFramebuffer n) :
    (s.clearScreen input).kernel.mem n = s.kernel.mem n := by
  let cleared := (s.draw s.framebuffer.clearScreen).updateSavedPixels 0
  calc
    (s.clearScreen input).kernel.mem n = cleared.kernel.mem n :=
      System.draw_outside (s := cleared) (kdrawRectangle_bounds 5 5) off
    _ = s.kernel.mem n := System.draw_outside (clearScreen_bounds s.framebuffer) off

theorem System.clearScreen_walk (s : System) (input : Input) (spares : s.SparesTables) (v : Nat) :
    walk (s.clearScreen input).kernel.mem (s.clearScreen input).kernel.activeRoot v =
      walk s.kernel.mem s.kernel.activeRoot v :=
  walk_outside (fun path table short reached n lower upper =>
    s.clearScreen_outside input (spares path table short reached n lower upper)) v

theorem System.clearScreen_loadVirt (s : System) (input : Input) (spares : s.SparesTables) {v : Nat}
    (off : ∀ n, s.kernel.byteAddress v = some n → ¬s.OnFramebuffer n) :
    (s.clearScreen input).kernel.loadVirt v = s.kernel.loadVirt v := by
  have address : (s.clearScreen input).kernel.byteAddress v = s.kernel.byteAddress v := by
    rw [Kernel.byteAddress, s.clearScreen_walk input spares]
    rfl
  rw [Kernel.loadVirt_eq, Kernel.loadVirt_eq, address]
  cases place : s.kernel.byteAddress v with
  | none => rfl
  | some n => exact congrArg some (s.clearScreen_outside input (off n place))

theorem System.clearScreen_onlyCleared (s : System) (input : Input) :
    s.OnlyCleared input (s.clearScreen input) where
  rest := rfl
  memory := fun _ off => s.clearScreen_outside input off
  translations := s.clearScreen_walk input
  names := by
    intro spares file name text
    apply forall₂_congr
    intro i inside
    rw [s.clearScreen_loadVirt input spares (text i inside)]
  pixels := fun _ column _ row _ channel => s.clearScreen_pixels input column row channel
  saved := fun _ entry => if_pos entry

/-- The call on a name: the screen is cleared, and then the first module of that name is run or -1
is returned. -/
theorem System.sysGexec_search
    (named : (s.clearScreen input).kernel.HoldsBytes file.toNat name.buffer) :
    s.sysGexec input file = match s.modulesList.find? fun m => m.string = name with
      | none => some (s.clearScreen input, .returns (-1))
      | some m => ((s.clearScreen input).replaceProgram m).map fun s => (s, .enters) := by
  have found := findModule_eq file.toNat_lt named s.modulesList
  have modules : (s.clearScreen input).modulesList = s.modulesList := rfl
  rw [System.sysGexec, System.sysExec, modules, found]
  cases s.modulesList.find? fun m => m.string = name <;> rfl

/-- The screen is cleared and nothing else changes. If then no module has the name that is read, the
call fails and that is all it does; otherwise the first module of the name replaces the program that
called. -/
theorem gexec_clears_then_runs (s : System) (input : Input) (file : UInt64) (name : CString)
    (named : (s.clearScreen input).kernel.HoldsBytes file.toNat name.buffer) :
    s.OnlyCleared input (s.clearScreen input) ∧
    ((∀ m ∈ s.modulesList, m.string ≠ name) →
      s.sysGexec input file = some (s.clearScreen input, .returns (-1))) ∧
    (∀ before m after, s.modulesList = before ++ m :: after → (∀ m' ∈ before, m'.string ≠ name) →
      m.string = name →
      s.sysGexec input file =
        (({ s.clearScreen input with
            kernel := (s.clearScreen input).kernel.unmapLowerHalf s.kernel.activeRoot } :
              System).runProgram
          m.image).map fun s => (s, .enters)) := by
  refine ⟨s.clearScreen_onlyCleared input, fun absent => ?_,
    fun before m after split earlier here => ?_⟩
  · have missing : s.modulesList.find? (fun m => m.string = name) = none := by
      rw [List.find?_eq_none]
      intro m member
      simpa using absent m member
    rw [System.sysGexec_search named, missing]
  · have found : s.modulesList.find? (fun m => m.string = name) = some m := by
      rw [List.find?_eq_some_iff_append]
      refine ⟨by simpa using here, before, after, split, fun m' member => ?_⟩
      simpa using earlier m' member
    rw [System.sysGexec_search named, found]
    rfl

def initSystem : System := { bareSystem with modulesList := [emptyInit] }

theorem init_place : initSystem.kernel.deref initSystem.framebufferAddr = 0xFD000000 := by decide

theorem init_sparesTables : initSystem.SparesTables := by
  have place := init_place
  rintro path table _ reached n _ upper ⟨i, _, rfl⟩
  have root := (bare_pageAt reached).2
  omega

def tickName : CString := ⟨[0x60], by decide⟩

def tickFile : UInt64 := 0xFFFF800000005009

theorem tick_named : initSystem.kernel.HoldsBytes tickFile.toNat tickName.buffer := by
  have both : ∀ i < 2, bareKernel.loadVirt ((tickFile.toNat + i) % 2 ^ 64) =
      tickName.buffer[i]? := by decide
  exact both

theorem tick_sparesText : initSystem.SparesText tickFile tickName := by
  have place := init_place
  have both : ∀ i < 2, bareKernel.byteAddress ((tickFile.toNat + i) % 2 ^ 64) =
      some (0x5009 + i) := by decide
  rintro i inside n found ⟨j, _, rfl⟩
  have two : i < 2 := inside
  have same : 0x5009 + i = initSystem.kernel.deref initSystem.framebufferAddr + j :=
    Option.some.inj ((both i two).symm.trans found)
  omega

theorem tick_named_cleared (input : Input) :
    (initSystem.clearScreen input).kernel.HoldsBytes tickFile.toNat tickName.buffer :=
  ((initSystem.clearScreen_onlyCleared input).names init_sparesTables tickFile tickName
    tick_sparesText).mpr tick_named

theorem tick_absent : ∀ m ∈ initSystem.modulesList, m.string ≠ tickName := by
  intro m member
  rw [List.mem_singleton.mp member]
  decide

theorem gexec_clears_then_fails :
    initSystem.sysGexec ⟨[], ⟨100, 100, false, false, false⟩⟩ tickFile =
      some (initSystem.clearScreen ⟨[], ⟨100, 100, false, false, false⟩⟩, .returns (-1)) :=
  (gexec_clears_then_runs initSystem _ tickFile tickName (tick_named_cleared _)).2.1 tick_absent

/-- The call fails, and a pixel that was black is white now. -/
theorem failed_gexec_draws : initSystem.kernel.HoldsBytes tickFile.toNat tickName.buffer ∧
    (∀ m ∈ initSystem.modulesList, m.string ≠ tickName) ∧
    ∃ s', initSystem.sysGexec ⟨[], ⟨100, 100, false, false, false⟩⟩ tickFile =
      some (s', .returns (-1)) ∧
      initSystem.kernel.mem (0xFD000000 + 60300) = 0 ∧
        s'.kernel.mem (0xFD000000 + 60300) = 0xFF := by
  have searched := System.sysGexec_search (tick_named_cleared ⟨[], ⟨100, 100, false, false, false⟩⟩)
  have missing : initSystem.modulesList.find? (fun m => m.string = tickName) = none := by decide
  rw [missing] at searched
  have column : 100 < initSystem.framebuffer.width := by decide
  have row : 100 < initSystem.framebuffer.height := by decide
  have pixel := initSystem.clearScreen_pixels ⟨[], ⟨100, 100, false, false, false⟩⟩ column row
    (c := 0) (by decide)
  exact ⟨tick_named, tick_absent, _, searched, by decide, pixel⟩

end Gexec

end PaintKernel
