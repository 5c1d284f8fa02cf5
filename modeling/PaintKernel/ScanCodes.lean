import Mathlib
import PaintKernel.KeyboardQueue
import PaintKernel.Printf

set_option autoImplicit false

/-! Scan codes: `getchar`, the keyboard interrupt that puts its characters into the buffer, and
`kgetc` calls between the interrupts. -/

namespace PaintKernel

open Transition RingBuffer

/-- The codes that stand for F1 to F10, the locks, the keypad, F11 and F12, from scan code 0x3B on.
-/
def functionKeys : List UInt8 := (List.range' 129 25).map UInt8.ofNat ++ [0, 0, 0, 154, 155]

def table : List UInt8 :=
  [0, 0] ++ ascii "1234567890-=".toList ++ [8, 9] ++ ascii "qwertyuiop[]\n".toList ++ [0] ++
    ascii "asdfghjkl;'`".toList ++ [0] ++ ascii "\\zxcvbnm,./".toList ++ [0] ++
      ascii "*".toList ++ [0] ++
    ascii " ".toList ++ [0] ++ functionKeys

def uppercaseTable : List UInt8 :=
  [0, 0] ++ ascii "!@#$%^&*()_+".toList ++ [8, 9] ++ ascii "QWERTYUIOP\x7b\x7d\n".toList ++ [0] ++
    ascii "ASDFGHJKL:\"~".toList ++ [0] ++ ascii "|ZXCVBNM<>?".toList ++ [0] ++
      ascii "*".toList ++ [0] ++
    ascii " ".toList ++ [0] ++ functionKeys

structure Modifiers where
  lshift : Bool
  rshift : Bool
  capslock : Bool
  deriving DecidableEq, Repr

def Modifiers.update (m : Modifiers) (ch : UInt8) : Modifiers :=
  if ch = 0x2A then { m with lshift := true }
  else if ch = 0x36 then { m with rshift := true }
  else if ch = 0xAA then { m with lshift := false }
  else if ch = 0xB6 then { m with rshift := false }
  else if ch = 0xBA then { m with capslock := !m.capslock }
  else m

def getchar (m : Modifiers) (ch : UInt8) : UInt8 × Modifiers :=
  let m := m.update ch
  if ch = 0x0E then (8, m)
  else if ch ≤ 0x58 then
    ((if m.lshift || m.rshift || m.capslock then uppercaseTable else table).getD ch.toNat 0, m)
  else (0, m)

structure Keyboard where
  buffer : CharBuffer
  modifiers : Modifiers

namespace Keyboard

variable (s : Keyboard)

/-- `irq1_interrupt_handler`. The `char` it tests is signed. -/
def irq1 (ch : UInt8) : Keyboard :=
  let (c, modifiers) := getchar s.modifiers ch
  let c := c.toInt8
  let s := { s with modifiers := modifiers }
  if c ≠ 0 ∧ c.toInt ≤ 127 then { s with buffer := s.buffer.bufferPut c.toUInt8 } else s

end Keyboard

inductive KeyboardEvent where
  | scanCode (ch : UInt8)
  | kgetc (blocking : Bool) (c : UInt8)
  deriving DecidableEq, Repr

inductive KeyboardStep : Keyboard → KeyboardEvent → Keyboard → Prop where
  | scanCode (s : Keyboard) (ch : UInt8) : KeyboardStep s (.scanCode ch) (s.irq1 ch)
  | kgetc {s : Keyboard} {blocking : Bool} {c : UInt8} {buffer : CharBuffer}
      (call : s.buffer.kgetc blocking = some (c, buffer)) :
      KeyboardStep s (.kgetc blocking c) { s with buffer := buffer }

def Ascii (c : UInt8) : Prop := 1 ≤ c ∧ c ≤ 127

instance (c : UInt8) : Decidable (Ascii c) := inferInstanceAs (Decidable (_ ∧ _))

def CharBuffer.StoresAscii (b : CharBuffer) : Prop :=
  ∀ i < b.count, Ascii (b.cells ((b.start + i) % bufferSize))

/-- The step leaves ASCII in the buffer, delivers ASCII from it, and drops every other code. -/
structure OnlyAscii (s : Keyboard) (e : KeyboardEvent) (s' : Keyboard) : Prop where
  stored : s'.buffer.StoresAscii
  delivered : ∀ blocking c, e = .kgetc blocking c → s.buffer.count ≠ 0 → Ascii c
  dropped : ∀ ch, e = .scanCode ch → ¬ Ascii (getchar s.modifiers ch).1 → s'.buffer = s.buffer

def FunctionKey (ch : UInt8) : Prop := 0x3B ≤ ch ∧ ch ≤ 0x53 ∨ ch = 0x57 ∨ ch = 0x58

instance (ch : UInt8) : Decidable (FunctionKey ch) := inferInstanceAs (Decidable (_ ∨ _))

def Plain (s : Keyboard) (e : KeyboardEvent) (_ : Keyboard) : Prop :=
  ∀ ch, e = .scanCode ch → FunctionKey ch → s.buffer.count = bufferSize

theorem getchar_high (m : Modifiers) (ch : UInt8) : 128 ≤ (getchar m ch).1 ↔ FunctionKey ch := by
  rcases m with ⟨lshift, rshift, capslock⟩
  have all : ∀ n < 256, ∀ lshift rshift capslock, 128 ≤
      (getchar ⟨lshift, rshift, capslock⟩ (.ofNat n)).1 ↔
      FunctionKey (.ofNat n) := by decide +kernel
  simpa using all ch.toNat ch.toNat_lt lshift rshift capslock

theorem ascii_iff (c : UInt8) : Ascii c ↔ c ≠ 0 ∧ ¬ 128 ≤ c := by
  simp only [Ascii, UInt8.le_iff_toNat_le, ne_eq, ← UInt8.toNat_inj, UInt8.reduceToNat]
  omega

section Keyboard

variable {s s' : Keyboard} {e : KeyboardEvent} {b : CharBuffer} {queue : List UInt8}

/-- Every code but 0 passes the test: a `char` is never above 127. -/
theorem irq1_buffer (s : Keyboard) (ch : UInt8) :
    (s.irq1 ch).buffer =
      if (getchar s.modifiers ch).1 = 0 then s.buffer
        else s.buffer.bufferPut (getchar s.modifiers ch).1 := by
  unfold Keyboard.irq1
  generalize getchar s.modifiers ch = result
  rcases result with ⟨c, modifiers⟩
  have small : c.toInt8.toInt ≤ 127 := Int8.toInt_le _
  by_cases none : c = 0
  · simp [none]
  · have passes : c.toInt8 ≠ 0 := by
      intro same
      rw [← UInt8.toUInt8_toInt8 c, same] at none
      exact none rfl
    simp [none, passes, small]

def Keyboard.Clean (s : Keyboard) : Prop := ∃ queue, Queued s.buffer queue ∧ ∀ c ∈ queue, Ascii c

theorem Queued.stores (queued : Queued b queue) : b.StoresAscii ↔ ∀ c ∈ queue, Ascii c := by
  have count := queued.count_eq
  unfold CharBuffer.StoresAscii
  constructor
  · intro stored c member
    rcases List.mem_iff_get.mp member with ⟨i, rfl⟩
    rw [← queued.holds i i.isLt]
    exact stored i (by omega)
  · intro all i below
    rw [queued.holds i (by omega)]
    exact all _ (List.get_mem queue _)

theorem put_clean {c : UInt8} (queued : Queued b queue) (all : ∀ c ∈ queue, Ascii c)
    (fits : Ascii c ∨ b.count = bufferSize) :
    ∃ queue', Queued (b.bufferPut c) queue' ∧ ∀ c ∈ queue', Ascii c := by
  refine ⟨_, put_represents queued c, ?_⟩
  split
  · exact all
  · rename_i room
    have ascii : Ascii c := fits.resolve_right fun full => room (queued.count_eq ▸ full)
    intro d member
    rcases List.mem_append.mp member with old | new
    · exact all d old
    · rw [List.mem_singleton.mp new]
      exact ascii

theorem kgetc_queued {b' : CharBuffer} {c : UInt8} {blocking : Bool} (queued : Queued b queue)
    (call : b.kgetc blocking = some (c, b')) :
    b.count = 0 ∧ b' = b ∨ ∃ rest, queue = c :: rest ∧ Queued b' rest := by
  cases queue with
  | nil =>
      have empty : b.count = 0 := queued.count_eq
      cases blocking with
      | true => simp [CharBuffer.kgetc, empty] at call
      | false =>
          simp only [CharBuffer.kgetc, empty, Bool.not_false, and_self, if_true, Option.some.injEq,
            Prod.mk.injEq] at call
          exact .inl ⟨empty, call.2.symm⟩
  | cons first rest =>
      rcases kgetc_represents queued blocking with ⟨next, read, later⟩
      rw [read, Option.some.injEq, Prod.mk.injEq] at call
      rcases call with ⟨rfl, rfl⟩
      exact .inr ⟨rest, rfl, later⟩

theorem plain_clean (clean : s.Clean) (step : KeyboardStep s e s') (plain : Plain s e s') :
    s'.Clean := by
  rcases clean with ⟨queue, queued, all⟩
  cases step with
  | scanCode ch =>
      unfold Keyboard.Clean
      rw [irq1_buffer]
      split
      · exact ⟨queue, queued, all⟩
      · rename_i code
        refine put_clean queued all ?_
        by_cases high : 128 ≤ (getchar s.modifiers ch).1
        · exact .inr (plain ch rfl ((getchar_high _ _).mp high))
        · exact .inl ((ascii_iff _).mpr ⟨code, high⟩)
  | kgetc call =>
      rcases kgetc_queued queued call with ⟨_, same⟩ | ⟨rest, split, later⟩
      · rw [same]
        exact ⟨queue, queued, all⟩
      · rw [split, List.forall_mem_cons] at all
        exact ⟨rest, later, all.2⟩

theorem ascii_step (clean : s.Clean) (step : KeyboardStep s e s') :
    OnlyAscii s e s' ↔ Plain s e s' := by
  constructor
  · rintro only ch rfl key
    cases step
    have high := (getchar_high s.modifiers ch).mpr key
    have code : (getchar s.modifiers ch).1 ≠ 0 := fun zero => absurd (zero ▸ high) (by decide)
    have same := only.dropped ch rfl fun ascii => ((ascii_iff _).mp ascii).2 high
    rw [irq1_buffer, if_neg code] at same
    by_contra room
    have count := congrArg CharBuffer.count same
    rw [CharBuffer.bufferPut, if_pos room] at count
    exact absurd count (Nat.succ_ne_self _)
  · intro plain
    rcases plain_clean clean step plain with ⟨queue', queued', all'⟩
    refine ⟨queued'.stores.mpr all', ?_, ?_⟩
    · rintro blocking c rfl filled
      rcases clean with ⟨queue, queued, all⟩
      cases step with
      | kgetc call =>
          rcases kgetc_queued queued call with ⟨empty, _⟩ | ⟨rest, split, _⟩
          · exact absurd empty filled
          · exact all c (split ▸ List.mem_cons_self)
    · rintro ch rfl other
      cases step
      rw [irq1_buffer]
      split
      · rfl
      · rename_i code
        have high : 128 ≤ (getchar s.modifiers ch).1 := by
          by_contra low
          exact other ((ascii_iff _).mpr ⟨code, low⟩)
        have full := plain ch rfl ((getchar_high _ _).mp high)
        rw [CharBuffer.bufferPut, if_neg (not_not.mpr full)]

end Keyboard

def bootKeyboard (cells : Nat → UInt8) : Keyboard := ⟨⟨cells, 0, 0⟩, ⟨false, false, false⟩⟩

/-- Every step of a run handles ASCII only exactly when no step of it is a function key that finds
room in the buffer. -/
theorem only_ascii_iff (cells : Nat → UInt8) {events : List KeyboardEvent} {s : Keyboard} :
    Run (fun s e s' => KeyboardStep s e s' ∧ OnlyAscii s e s') (bootKeyboard cells) events s ↔
      Run (fun s e s' => KeyboardStep s e s' ∧ Plain s e s') (bootKeyboard cells) events s := by
  refine run_congr Keyboard.Clean (fun _ _ _ => ascii_step) (fun _ _ _ => plain_clean)
    ⟨[], ⟨Nat.zero_lt_succ _, rfl, Nat.zero_le _, holds_nil⟩, by simp⟩

theorem f1_delivered :
    ∃ s, Run KeyboardStep (bootKeyboard fun _ => 0) [.scanCode 0x3B, .kgetc false 129] s ∧
      ¬ Run (fun s e s' => KeyboardStep s e s' ∧ OnlyAscii s e s') (bootKeyboard fun _ => 0)
        [.scanCode 0x3B, .kgetc false 129] s := by
  have call : ((bootKeyboard fun _ => 0).irq1 0x3B).buffer.kgetc false =
      some (129, ⟨Function.update (fun _ => 0) 0 129, 1, 0⟩) := rfl
  refine ⟨_, .cons (.scanCode _ _) (.cons (.kgetc call) (.nil _)), ?_⟩
  intro run
  cases run with
  | cons first _ =>
      rcases first with ⟨step, only⟩
      have same := only.dropped 0x3B rfl (by decide)
      cases step
      exact absurd (congrArg CharBuffer.count same) (by decide)

end PaintKernel
