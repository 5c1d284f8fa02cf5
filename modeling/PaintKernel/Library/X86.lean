import Mathlib
import PaintKernel.Library.ByteMemory

set_option autoImplicit false

/-! The stack, calls, software interrupts and returns from them on an x86-64 processor. Memory never
faults, single steps do not trap, and all addresses are taken for canonical ones. -/

namespace X86

open ByteMemory

inductive Reg where
  | rax | rbx | rcx | rdx | rsi | rdi | rbp | rsp | r8 | r9 | r10 | r11 | r12 | r13 | r14 | r15
  deriving DecidableEq

inductive DataSegment where
  | ds | es | fs | gs
  deriving DecidableEq

structure State where
  regs : Reg → UInt64
  rip : UInt64
  rflags : UInt64
  cs : UInt16
  ss : UInt16
  data : DataSegment → UInt16
  mem : Mem

structure Entry where
  offset : UInt64
  selector : UInt16
  dpl : Nat
  /-- Whether interrupts are disabled on the way in. -/
  disables : Bool

structure Tables where
  /-- The access byte of the descriptor that a selector leads to. -/
  access : UInt16 → Nat
  gate : UInt8 → Option Entry
  rsp0 : UInt64

inductive Instr where
  /-- `mov disp(%rsp), dst` -/
  | load (dst : Reg) (disp : UInt64)
  | mov (dst src : Reg)
  | movSegment (dst : DataSegment) (src : Reg)
  | push (src : Reg)
  | pushf
  | addRsp (n : UInt64)
  | call (target : UInt64)
  | ret
  | int (vector : UInt8)
  | iretq
  deriving DecidableEq

def level (selector : UInt16) : Nat := selector.toNat % 4

def descriptorLevel (access : Nat) : Nat := access / 32 % 4

def IsCode (access : Nat) : Prop := access / 128 % 2 = 1 ∧ access / 16 % 2 = 1 ∧ access / 8 % 2 = 1

def IsData (access : Nat) : Prop :=
  access / 128 % 2 = 1 ∧ access / 16 % 2 = 1 ∧ access / 8 % 2 = 0 ∧ access / 2 % 2 = 1

instance (access : Nat) : Decidable (IsCode access) := inferInstanceAs (Decidable (_ ∧ _))
instance (access : Nat) : Decidable (IsData access) := inferInstanceAs (Decidable (_ ∧ _))

namespace State

def rsp (s : State) : UInt64 := s.regs .rsp

def cpl (s : State) : Nat := level s.cs

def set (s : State) (r : Reg) (v : UInt64) : State := { s with regs := Function.update s.regs r v }

def word (s : State) (address : UInt64) : UInt64 := UInt64.ofNat (readLE s.mem address.toNat 8)

def push (s : State) (v : UInt64) : State :=
  { s.set .rsp (s.rsp - 8) with mem := writeLE s.mem (s.rsp - 8).toNat 8 v.toNat }

def pop (s : State) : UInt64 × State := (s.word s.rsp, s.set .rsp (s.rsp + 8))

end State

/-- The flags on entry through a gate: no single steps, no nested task, and no interrupts if the
gate says so. -/
def entryFlags (disables : Bool) (rflags : UInt64) : UInt64 :=
  rflags &&& ~~~(if disables then 0x34300 else 0x34100)

/-- The flags as an instruction pushes them: those of virtual 8086 mode and of resumption are clear.
-/
def pushedFlags (rflags : UInt64) : UInt64 := rflags &&& ~~~0x30000

def gateStack (t : Tables) (s : State) (target : Nat) : UInt64 :=
  (if target < s.cpl then t.rsp0 else s.rsp) &&& ~~~15

def interrupt (t : Tables) (vector : UInt8) (s : State) : Option State := do
  let gate ← t.gate vector
  let target := descriptorLevel (t.access gate.selector)
  if s.cpl ≤ gate.dpl ∧ IsCode (t.access gate.selector) ∧ target ≤ s.cpl then
    let inner := s.set .rsp (gateStack t s target)
    let inner := { inner with ss := if target < s.cpl then UInt16.ofNat target else s.ss }
    let inner :=
      ((((inner.push s.ss.toUInt64).push s.rsp).push s.rflags).push s.cs.toUInt64).push s.rip
    return { inner with
      rip := gate.offset
      cs := (gate.selector &&& 0xFFFC) ||| UInt16.ofNat target
      rflags := entryFlags gate.disables s.rflags }
  else none

/-- A return takes away the data segments that the code it goes to has no right to. -/
def dataLeft (t : Tables) (s : State) (cs : UInt16) (d : DataSegment) : UInt16 :=
  if descriptorLevel (t.access (s.data d)) < level cs then 0 else s.data d

/-- The return to the frame on the stack; the code and the stack that it names have one privilege
level, and not a higher one. The null stack segment that a return within the kernel may find is left
out, and so are the faults for a nested task and for an instruction pointer that is not canonical.
-/
def interruptReturn (t : Tables) (s : State) : Option State :=
  let (rip, s1) := s.pop
  let (cs, s2) := s1.pop
  let (rflags, s3) := s2.pop
  let (rsp, s4) := s3.pop
  let ss := (s4.pop).1
  if s.cpl ≤ level cs.toUInt16 ∧ IsCode (t.access cs.toUInt16) ∧
    descriptorLevel (t.access cs.toUInt16) = level cs.toUInt16 ∧
      IsData (t.access ss.toUInt16) ∧ descriptorLevel (t.access ss.toUInt16) = level cs.toUInt16 ∧
      level ss.toUInt16 = level cs.toUInt16 then
    some { s.set .rsp rsp with
      rip, rflags, cs := cs.toUInt16, ss := ss.toUInt16, data := dataLeft t s cs.toUInt16 }
  else none

def exec (t : Tables) (s : State) : Instr → Option State
  | .load dst disp => some (s.set dst (s.word (s.rsp + disp)))
  | .mov dst src => some (s.set dst (s.regs src))
  | .movSegment dst src =>
      let selector := (s.regs src).toUInt16
      if IsData (t.access selector) ∧ s.cpl ≤ descriptorLevel (t.access selector) ∧
          level selector ≤ descriptorLevel (t.access selector) then
        some { s with data := Function.update s.data dst selector }
      else none
  | .push src => some (s.push (s.regs src))
  | .pushf => some (s.push (pushedFlags s.rflags))
  | .addRsp n => some (s.set .rsp (s.rsp + n))
  | .call target => some { s.push s.rip with rip := target }
  | .ret =>
      let (rip, s) := s.pop
      some { s with rip }
  | .int vector => interrupt t vector s
  | .iretq => interruptReturn t s

abbrev Code := UInt64 → Option (Instr × UInt64)

def step (t : Tables) (code : Code) (s : State) : Option State := do
  let (i, next) ← code s.rip
  exec t { s with rip := next } i

def Leads (t : Tables) (code : Code) : State → State → Prop :=
  Relation.ReflTransGen fun s s' => step t code s = some s'

/-- The instructions are one behind the other from an address to an address. -/
def Placed (code : Code) : UInt64 → List Instr → UInt64 → Prop
  | a, [], b => a = b
  | a, i :: rest, b => ∃ next, code a = some (i, next) ∧ Placed code next rest b

section Stack

variable {s : State} {words : List UInt64} {v : UInt64}

/-- The words are on the stack, the last that was pushed first. -/
structure Holds (s : State) (words : List UInt64) : Prop where
  read : ∀ i v, words[i]? = some v → readLE s.mem (s.rsp.toNat + 8 * i) 8 = v.toNat
  fits : s.rsp.toNat + 8 * words.length < 2 ^ 64

@[simp] theorem set_here (s : State) (r : Reg) (v : UInt64) : (s.set r v).regs r = v := by
  simp [State.set]

theorem set_other (s : State) {r q : Reg} (different : q ≠ r) (v : UInt64) :
    (s.set r v).regs q = s.regs q := by
  simp [State.set, different]

@[simp] theorem push_rsp (s : State) (v : UInt64) : (s.push v).rsp = s.rsp - 8 := set_here s .rsp _

theorem push_regs (s : State) {r : Reg} (different : r ≠ .rsp) (v : UInt64) :
    (s.push v).regs r = s.regs r :=
  set_other s different _

@[simp] theorem pop_rsp (s : State) : s.pop.2.rsp = s.rsp + 8 := set_here s .rsp _

theorem Holds.nil (s : State) : Holds s [] where
  read := fun i v none => by cases none
  fits := s.rsp.toNat_lt

theorem sub_eight {a : UInt64} (room : 8 ≤ a.toNat) : (a - 8).toNat = a.toNat - 8 :=
  UInt64.toNat_sub_of_le a 8 (UInt64.le_iff_toNat_le.mpr room)

theorem Holds.push (holds : Holds s words) (room : 8 ≤ s.rsp.toNat) (v : UInt64) :
    Holds (s.push v) (v :: words) where
  read := by
    intro i w here
    rw [push_rsp, sub_eight room]
    cases i with
    | zero =>
        cases here
        rw [State.push, sub_eight room]
        exact readLE_writeLE s.mem _ 8 v.toNat v.toNat_lt
    | succ i =>
        have below := writeLE_agreeOutside s.mem (s.rsp - 8).toNat 8 v.toNat
        rw [sub_eight room] at below
        have kept := readLE_agree s.mem _ _ 8 (s.rsp.toNat - 8 + 8 * (i + 1)) 8 below
          (Or.inr (by omega))
        rw [State.push, sub_eight room, kept, show s.rsp.toNat - 8 + 8 * (i + 1) =
          s.rsp.toNat + 8 * i by omega]
        exact holds.read i w here
  fits := by
    have fits := holds.fits
    rw [push_rsp, sub_eight room, List.length_cons]
    omega

theorem Holds.top (holds : Holds s (v :: words)) : s.word s.rsp = v := by
  have word := holds.read 0 v rfl
  rw [Nat.mul_zero, Nat.add_zero] at word
  rw [State.word, word, UInt64.ofNat_toNat]

theorem Holds.add_eight (holds : Holds s (v :: words)) : (s.rsp + 8).toNat = s.rsp.toNat + 8 := by
  have fits := holds.fits
  rw [List.length_cons] at fits
  rw [UInt64.toNat_add]
  exact Nat.mod_eq_of_lt (by show s.rsp.toNat + 8 < 2 ^ 64; omega)

theorem Holds.pop (holds : Holds s (v :: words)) : Holds s.pop.2 words where
  read := by
    intro i w here
    have word := holds.read (i + 1) w here
    rw [pop_rsp, holds.add_eight]
    rw [show s.rsp.toNat + 8 * (i + 1) = s.rsp.toNat + 8 + 8 * i by omega] at word
    exact word
  fits := by
    have fits := holds.fits
    rw [List.length_cons] at fits
    rw [pop_rsp, holds.add_eight]
    omega

theorem Holds.congr {s' : State} (holds : Holds s words) (same : s'.rsp = s.rsp)
    (agree : ∀ n, s.rsp.toNat ≤ n → n < s.rsp.toNat + 8 * words.length → s'.mem n = s.mem n) :
    Holds s' words where
  read := by
    intro i v here
    have inside := (List.getElem?_eq_some_iff.mp here).1
    rw [same, ← holds.read i v here]
    apply readLE_congr
    intro n lower upper
    exact agree n (by omega) (by omega)
  fits := by
    rw [same]
    exact holds.fits

theorem push_agreeOutside {size : Nat} {m : Mem} (room : 8 ≤ s.rsp.toNat)
    (before : AgreeOutside m s.mem s.rsp.toNat size) (v : UInt64) :
    AgreeOutside m (s.push v).mem (s.push v).rsp.toNat (size + 8) := by
  rw [push_rsp, sub_eight room]
  intro n outside
  have kept : (s.push v).mem n = s.mem n := by
    apply writeLE_agreeOutside
    rw [sub_eight room]
    omega
  exact kept.trans (before n (by omega))

theorem push_toNat (room : 8 ≤ s.rsp.toNat) (v : UInt64) :
    (s.push v).rsp.toNat = s.rsp.toNat - 8 := by
  rw [push_rsp, sub_eight room]

end Stack

section Runs

variable {t : Tables} {code : Code} {s s' last : State} {i : Instr} {next : UInt64}

theorem Leads.cons (found : code s.rip = some (i, next))
    (executed : exec t { s with rip := next } i = some s') (later : Leads t code s' last) :
    Leads t code s last := by
  apply Relation.ReflTransGen.head _ later
  rw [step, found]
  exact executed

theorem Leads.refl (s : State) : Leads t code s s := Relation.ReflTransGen.refl

structure Pushed (s s' : State) (v next : UInt64) : Prop where
  rip : s'.rip = next
  rsp : s'.rsp.toNat + 8 = s.rsp.toNat
  regs : ∀ r, r ≠ .rsp → s'.regs r = s.regs r
  rflags : s'.rflags = s.rflags
  cs : s'.cs = s.cs
  data : s'.data = s.data
  holds : ∀ words, Holds s words → Holds s' (v :: words)
  mem : ∀ m size, AgreeOutside m s.mem s.rsp.toNat size →
    AgreeOutside m s'.mem s'.rsp.toNat (size + 8)

theorem pushed (room : 8 ≤ s.rsp.toNat) (v next : UInt64) :
    Pushed s { s.push v with rip := next } v next where
  rip := rfl
  rsp := by
    have place := push_toNat room v
    have same : State.rsp { s.push v with rip := next } = (s.push v).rsp := rfl
    rw [same, place]
    exact Nat.sub_add_cancel room
  regs := fun r other => push_regs s other v
  rflags := rfl
  cs := rfl
  data := rfl
  holds := by
    intro words holds
    have more := holds.push room v
    exact ⟨more.read, more.fits⟩
  mem := fun m size before => push_agreeOutside room before v

theorem exec_push (t : Tables) (next : UInt64) (room : 8 ≤ s.rsp.toNat) (r : Reg) :
    ∃ s', exec t { s with rip := next } (.push r) = some s' ∧ Pushed s s' (s.regs r) next :=
  ⟨_, rfl, pushed room (s.regs r) next⟩

theorem exec_pushf (t : Tables) (next : UInt64) (room : 8 ≤ s.rsp.toNat) :
    ∃ s', exec t { s with rip := next } .pushf = some s' ∧
      Pushed s s' (pushedFlags s.rflags) next :=
  ⟨_, rfl, pushed room _ next⟩

theorem exec_call (t : Tables) (next : UInt64) (room : 8 ≤ s.rsp.toNat) (target : UInt64) :
    ∃ s', exec t { s with rip := next } (.call target) = some s' ∧ Pushed s s' next target :=
  ⟨_, rfl, pushed room next target⟩

structure Assigned (s s' : State) (r : Reg) (v next : UInt64) : Prop where
  rip : s'.rip = next
  here : s'.regs r = v
  other : ∀ q, q ≠ r → s'.regs q = s.regs q
  rflags : s'.rflags = s.rflags
  cs : s'.cs = s.cs
  ss : s'.ss = s.ss
  data : s'.data = s.data
  mem : s'.mem = s.mem

theorem assigned (s : State) (r : Reg) (v next : UInt64) :
    Assigned s (State.set { s with rip := next } r v) r v next where
  rip := rfl
  here := set_here _ r v
  other := fun _ different => set_other _ different v
  rflags := rfl
  cs := rfl
  ss := rfl
  data := rfl
  mem := rfl

theorem exec_load (t : Tables) (s : State) (next : UInt64) (r : Reg) (disp : UInt64) :
    ∃ s', exec t { s with rip := next } (.load r disp) = some s' ∧
      Assigned s s' r (s.word (s.rsp + disp)) next :=
  ⟨_, rfl, assigned s r _ next⟩

theorem exec_mov (t : Tables) (s : State) (next : UInt64) (r q : Reg) :
    ∃ s', exec t { s with rip := next } (.mov r q) = some s' ∧ Assigned s s' r (s.regs q) next :=
  ⟨_, rfl, assigned s r _ next⟩

theorem exec_addRsp (t : Tables) (s : State) (next n : UInt64) :
    ∃ s', exec t { s with rip := next } (.addRsp n) = some s' ∧
      Assigned s s' .rsp (s.rsp + n) next :=
  ⟨_, rfl, assigned s .rsp _ next⟩

theorem exec_ret (t : Tables) (s : State) (next : UInt64) :
    ∃ s', exec t { s with rip := next } .ret = some s' ∧
      Assigned s s' .rsp (s.rsp + 8) (s.word s.rsp) :=
  ⟨State.set { s with rip := s.word s.rsp } .rsp (s.rsp + 8), rfl, assigned s .rsp _ _⟩

structure Selected (s s' : State) (d : DataSegment) (selector : UInt16) (next : UInt64) : Prop where
  rip : s'.rip = next
  regs : s'.regs = s.regs
  rflags : s'.rflags = s.rflags
  cs : s'.cs = s.cs
  ss : s'.ss = s.ss
  data : s'.data = Function.update s.data d selector
  mem : s'.mem = s.mem

theorem exec_movSegment {t : Tables} {s : State} {selector : UInt16} (next : UInt64)
    (d : DataSegment) {r : Reg} (found : (s.regs r).toUInt16 = selector)
    (data : IsData (t.access selector)) (current : s.cpl ≤ descriptorLevel (t.access selector))
    (requested : level selector ≤ descriptorLevel (t.access selector)) :
    ∃ s', exec t { s with rip := next } (.movSegment d r) = some s' ∧
      Selected s s' d selector next := by
  subst found
  exact ⟨_, if_pos ⟨data, current, requested⟩, ⟨rfl, rfl, rfl, rfl, rfl, rfl, rfl⟩⟩

end Runs

section Frames

variable {t : Tables} {s s' : State} {vector : UInt8} {gate : Entry}

structure Admits (t : Tables) (s : State) (gate : Entry) : Prop where
  allowed : s.cpl ≤ gate.dpl
  code : IsCode (t.access gate.selector)
  inward : descriptorLevel (t.access gate.selector) ≤ s.cpl
  /-- The frame fits below the top of the stack. -/
  room : 40 ≤ (gateStack t s (descriptorLevel (t.access gate.selector))).toNat

structure Entered (t : Tables) (gate : Entry) (s s' : State) : Prop where
  rip : s'.rip = gate.offset
  cs : s'.cs = (gate.selector &&& 0xFFFC) ||| UInt16.ofNat
    (descriptorLevel (t.access gate.selector))
  rflags : s'.rflags = entryFlags gate.disables s.rflags
  rsp : s'.rsp.toNat + 40 = (gateStack t s (descriptorLevel (t.access gate.selector))).toNat
  regs : ∀ r, r ≠ .rsp → s'.regs r = s.regs r
  data : s'.data = s.data
  frame : Holds s' [s.rip, s.cs.toUInt64, s.rflags, s.rsp, s.ss.toUInt64]
  mem : AgreeOutside s.mem s'.mem s'.rsp.toNat 40

theorem push_frame (room : 40 ≤ s.rsp.toNat) (a b c d e : UInt64) :
    let s' := ((((s.push a).push b).push c).push d).push e
    Holds s' [e, d, c, b, a] ∧ s'.rsp.toNat + 40 = s.rsp.toNat ∧
      (∀ r, r ≠ .rsp → s'.regs r = s.regs r) ∧
      AgreeOutside s.mem s'.mem s'.rsp.toNat 40 := by
  have room1 : 8 ≤ s.rsp.toNat := by omega
  have place1 := push_toNat room1 a
  have room2 : 8 ≤ (s.push a).rsp.toNat := by omega
  have place2 := push_toNat room2 b
  have room3 : 8 ≤ ((s.push a).push b).rsp.toNat := by omega
  have place3 := push_toNat room3 c
  have room4 : 8 ≤ (((s.push a).push b).push c).rsp.toNat := by omega
  have place4 := push_toNat room4 d
  have room5 : 8 ≤ ((((s.push a).push b).push c).push d).rsp.toNat := by omega
  have place5 := push_toNat room5 e
  refine ⟨?_, ?_, ?_, ?_⟩
  · exact (((((Holds.nil s).push room1 a).push room2 b).push room3 c).push room4 d).push room5 e
  · omega
  · intro r other
    rw [push_regs _ other, push_regs _ other, push_regs _ other, push_regs _ other,
      push_regs _ other]
  · have none : AgreeOutside s.mem s.mem s.rsp.toNat 0 := fun n _ => rfl
    exact push_agreeOutside room5
      (push_agreeOutside room4 (push_agreeOutside room3 (push_agreeOutside room2
      (push_agreeOutside room1 none a) b) c) d) e

theorem interrupt_entered (found : t.gate vector = some gate) (admits : Admits t s gate) :
    ∃ s', interrupt t vector s = some s' ∧ Entered t gate s s' := by
  obtain ⟨allowed, code, inward, room⟩ := admits
  have start : ∀ ss,
      State.rsp { s.set .rsp
        (gateStack t s (descriptorLevel (t.access gate.selector))) with ss := ss } =
      gateStack t s (descriptorLevel (t.access gate.selector)) := fun ss => set_here s .rsp _
  rw [interrupt, found]
  simp only [Option.bind_eq_bind, Option.bind_some,
    if_pos (And.intro allowed (And.intro code inward))]
  refine ⟨_, rfl, ?_⟩
  have frame :=
    push_frame (s := { s.set .rsp (gateStack t s (descriptorLevel (t.access gate.selector))) with
    ss := if descriptorLevel (t.access gate.selector) < s.cpl then
      UInt16.ofNat (descriptorLevel (t.access gate.selector)) else s.ss })
        (by rw [start]; exact room)
    s.ss.toUInt64 s.rsp s.rflags s.cs.toUInt64 s.rip
  obtain ⟨holds, place, regs, mem⟩ := frame
  rw [start] at place
  exact {
    rip := rfl
    cs := rfl
    rflags := rfl
    rsp := place
    regs := fun r other => (regs r other).trans (set_other s other _)
    data := rfl
    frame := ⟨holds.read, holds.fits⟩
    mem := mem }

structure Returns (t : Tables) (s : State) (cs ss : UInt16) : Prop where
  outward : s.cpl ≤ level cs
  code : IsCode (t.access cs)
  codeLevel : descriptorLevel (t.access cs) = level cs
  stack : IsData (t.access ss)
  stackLevel : descriptorLevel (t.access ss) = level cs
  same : level ss = level cs

structure Returned (t : Tables) (target : UInt64) (code : UInt16) (flags stack : UInt64)
    (segment : UInt16) (s s' : State) : Prop where
  rip : s'.rip = target
  cs : s'.cs = code
  rflags : s'.rflags = flags
  rsp : s'.rsp = stack
  ss : s'.ss = segment
  regs : ∀ r, r ≠ .rsp → s'.regs r = s.regs r
  data : s'.data = dataLeft t s code
  mem : s'.mem = s.mem

theorem toUInt16_toUInt64 (a : UInt16) : a.toUInt64.toUInt16 = a := by simp

theorem interruptReturn_frame {rip rflags rsp : UInt64} {cs ss : UInt16} {words : List UInt64}
    (frame : Holds s (rip :: cs.toUInt64 :: rflags :: rsp :: ss.toUInt64 :: words))
    (returns : Returns t s cs ss) :
    ∃ s', interruptReturn t s = some s' ∧ Returned t rip cs rflags rsp ss s s' := by
  have frame1 := frame.pop
  have frame2 := frame1.pop
  have frame3 := frame2.pop
  have frame4 := frame3.pop
  have top0 : s.pop.1 = rip := frame.top
  have top1 : s.pop.2.pop.1 = cs.toUInt64 := frame1.top
  have top2 : s.pop.2.pop.2.pop.1 = rflags := frame2.top
  have top3 : s.pop.2.pop.2.pop.2.pop.1 = rsp := frame3.top
  have top4 : s.pop.2.pop.2.pop.2.pop.2.pop.1 = ss.toUInt64 := frame4.top
  rw [interruptReturn]
  simp only [top0, top1, top2, top3, top4, toUInt16_toUInt64]
  refine ⟨_, if_pos ⟨returns.outward, returns.code, returns.codeLevel, returns.stack,
    returns.stackLevel, returns.same⟩, ?_⟩
  exact {
    rip := rfl
    cs := rfl
    rflags := rfl
    rsp := set_here s .rsp rsp
    ss := rfl
    regs := fun r other => set_other s other rsp
    data := rfl
    mem := rfl }

end Frames

end X86
