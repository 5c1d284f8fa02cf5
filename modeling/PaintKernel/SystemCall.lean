import Mathlib
import PaintKernel.Descriptors
import PaintKernel.Library.X86

set_option autoImplicit false

/-! The assembly of the kernel: `syscall`, `syscall_entry` and `usermode_entry` between the two
privilege levels. -/

namespace PaintKernel

open BitFields ByteMemory X86

def syscall : List Instr := [.load .rax 8, .int 0x80, .ret]

/-- The address of `syscall_handler` is a parameter. -/
def syscallEntry (syscallHandler : UInt64) : List Instr :=
  [.push .rax, .call syscallHandler, .addRsp 8, .iretq]

def usermodeEntry : List Instr :=
  [.movSegment .ds .rdi, .movSegment .es .rdi, .movSegment .fs .rdi, .movSegment .gs .rdi,
    .push .rdi, .push .rsi, .pushf, .push .rdx, .push .rcx,
    .mov .rdi .r8, .mov .rsi .r9, .load .rdx 48, .load .rcx 56, .load .r8 64, .load .r9 72, .iretq]

def kernelTables (address : InterruptHandler → UInt64) (idt : Mem) (tss : UInt64) (g : Gdt)
    (rsp0 : UInt64) : Tables where
  access selector := get (gdtSetup tss g).bytes (selector.toNat / 8 * 8) SegDescriptor.access
  gate vector :=
    let gate := gateAt (idtSetup address idt) vector
    if gate.present = 1 then
      some {
        offset := UInt64.ofNat gate.handler
        selector := UInt16.ofNat gate.selector
        dpl := gate.dpl
        disables := gate.type = idtTypeInterrupt.toNat }
    else none
  rsp0

def userCode : UInt16 := 0x3B
def userData : UInt16 := 0x43

section Tables

variable {address : InterruptHandler → UInt64} {idt : Mem} {tss : UInt64} {g : Gdt} {rsp0 : UInt64}

theorem gate_syscall : (kernelTables address idt tss g rsp0).gate 0x80 =
    some { offset := address .syscallEntry, selector := 0x28, dpl := 3, disables := false } := by
  have gate := (idtSetup_gate address idt 0x80).1 ⟨0x80, .syscallEntry, idtTypeTrap⟩
    (List.mem_of_getElem? (i := 24) rfl) rfl
  simp only [kernelTables, gate, if_true, UInt64.ofNat_toNat]
  rfl

theorem access_kernelCode : (kernelTables address idt tss g rsp0).access 0x28 = 0x9A :=
  (gdtSetup_segments tss g).1

theorem access_userCode : (kernelTables address idt tss g rsp0).access userCode = 0xFA :=
  (gdtSetup_segments tss g).2.2.1

theorem access_userData : (kernelTables address idt tss g rsp0).access userData = 0xF2 :=
  (gdtSetup_segments tss g).2.2.2.1

end Tables

/-! The way into the kernel and back. -/

def calleeSaved : List Reg := [.rbx, .rbp, .r12, .r13, .r14, .r15]

def arguments : List Reg := [.rdi, .rsi, .rdx, .rcx, .r8, .r9]

/-- `syscall_handler` is called for the system call that the program makes in state `s`. -/
structure HandlerCalled (syscallHandler rsp0 : UInt64) (s k : State) : Prop where
  rip : k.rip = syscallHandler
  arguments : ∀ r ∈ arguments, k.regs r = s.regs r
  /-- The seventh argument of the stub is the seventh of the handler. -/
  stackArgument : k.word (k.rsp + 8) = s.word (s.rsp + 8)
  saved : ∀ r ∈ calleeSaved, k.regs r = s.regs r
  level : k.cpl = 0
  /-- A trap gate leaves interrupts enabled. -/
  interrupts : k.rflags &&& 0x200 = s.rflags &&& 0x200
  /-- The stack starts anew with every call, and it is aligned as a C function wants it. -/
  stack : k.rsp.toNat + 56 = (rsp0 &&& ~~~15).toNat
  aligned : (k.rsp.toNat + 8) % 16 = 0
  /-- Nothing else in memory is touched. -/
  mem : AgreeOutside s.mem k.mem k.rsp.toNat 56

/-- A C function called in state `k` returns; on the stack it writes nothing above its arguments. -/
structure CReturns (k left : State) : Prop where
  rip : left.rip = k.word k.rsp
  rsp : left.rsp = k.rsp + 8
  saved : ∀ r ∈ calleeSaved, left.regs r = k.regs r
  cs : left.cs = k.cs
  frame : ∀ n, k.rsp.toNat + 16 ≤ n → n < k.rsp.toNat + 56 → left.mem n = k.mem n

/-- The program goes on behind the call of the stub. -/
structure BackInProgram (s left s' : State) : Prop where
  rip : s'.rip = left.word s.rsp
  rsp : s'.rsp = s.rsp + 8
  result : s'.regs .rax = left.regs .rax
  saved : ∀ r ∈ calleeSaved, s'.regs r = s.regs r
  cs : s'.cs = s.cs
  ss : s'.ss = s.ss
  rflags : s'.rflags = s.rflags
  mem : s'.mem = left.mem

section Alignment

theorem aligned_mod (a : UInt64) : (a &&& ~~~15).toNat % 16 = 0 := by
  have mask : (a &&& ~~~15).toNat &&& (15 : UInt64).toNat = (a &&& ~~~15).toNat % 16 :=
    Nat.and_two_pow_sub_one_eq_mod _ 4
  have none : (a &&& ~~~15) &&& 15 = 0 := by
    rw [UInt64.and_assoc]
    exact UInt64.and_zero
  rw [← mask, ← UInt64.toNat_and, none]
  rfl

theorem entryFlags_interrupts (rflags : UInt64) :
    entryFlags false rflags &&& 0x200 = rflags &&& 0x200 := by
  rw [entryFlags, UInt64.and_assoc]
  rfl

end Alignment

section SystemCall

variable {address : InterruptHandler → UInt64} {idt : Mem} {tss : UInt64} {g : Gdt}
  {rsp0 syscallHandler : UInt64}
  {code : Code} {s k left : State}

structure UserMode (s : State) : Prop where
  cs : s.cs = userCode
  ss : s.ss = userData

theorem UserMode.cpl (user : UserMode s) : s.cpl = 3 := by
  rw [State.cpl, user.cs]
  rfl

theorem syscall_admitted (address : InterruptHandler → UInt64) (idt : Mem) (tss : UInt64) (g : Gdt)
    (user : UserMode s) (room : 56 ≤ (rsp0 &&& ~~~15).toNat) :
    Admits (kernelTables address idt tss g rsp0) s
      { offset := address .syscallEntry, selector := 0x28, dpl := 3, disables := false } where
  allowed := by
    rw [user.cpl]
  code := by
    simp only [access_kernelCode]
    decide
  inward := by
    rw [user.cpl]
    simp only [access_kernelCode]
    decide
  room := by
    have inner : gateStack (kernelTables address idt tss g rsp0) s 0 = rsp0 &&& ~~~15 := by
      rw [gateStack, user.cpl]
      rfl
    have zero : descriptorLevel 0x9A = 0 := rfl
    simp only [access_kernelCode, zero, inner]
    omega

/-- The kernel at `syscall_entry`, for a call that returns to `retq` behind the `int` of the stub.
-/
structure AtEntry (entry rsp0 retq : UInt64) (s e : State) : Prop where
  rip : e.rip = entry
  argument : e.regs .rax = s.word (s.rsp + 8)
  regs : ∀ r, r ≠ .rsp → r ≠ .rax → e.regs r = s.regs r
  cs : e.cs = 0x28
  rflags : e.rflags = entryFlags false s.rflags
  data : e.data = s.data
  rsp : e.rsp.toNat + 40 = (rsp0 &&& ~~~15).toNat
  frame : Holds e [retq, s.cs.toUInt64, s.rflags, s.rsp, s.ss.toUInt64]
  mem : AgreeOutside s.mem e.mem e.rsp.toNat 40

theorem syscall_enters (user : UserMode s) (room : 56 ≤ (rsp0 &&& ~~~15).toNat) {a1 retq : UInt64}
    (loads : code s.rip = some (.load .rax 8, a1)) (interrupts : code a1 = some (.int 0x80, retq)) :
    ∃ e, Leads (kernelTables address idt tss g rsp0) code s e ∧
      AtEntry (address .syscallEntry) rsp0 retq s e := by
  -- The sixth argument of the system call goes to `%rax`.
  obtain ⟨s1, loading, loaded⟩ := exec_load (kernelTables address idt tss g rsp0) s a1 .rax 8
  have rsp1 : State.rsp { s1 with rip := retq } = s.rsp := loaded.other .rsp (by decide)
  have user1 : UserMode { s1 with rip := retq } :=
    ⟨loaded.cs.trans user.cs, loaded.ss.trans user.ss⟩
  obtain ⟨e, entered, inside⟩ :=
    interrupt_entered gate_syscall (syscall_admitted address idt tss g user1 room)
  have reaches : Leads (kernelTables address idt tss g rsp0) code s e := by
    rw [← loaded.rip] at interrupts
    exact Leads.cons loads loading (Leads.cons interrupts entered (Leads.refl e))
  have deep := inside.rsp
  have cs := inside.cs
  rw [gateStack, user1.cpl] at deep
  simp only [access_kernelCode] at deep cs
  have frame := inside.frame
  rw [rsp1] at frame
  simp only [loaded.cs, loaded.ss, loaded.rflags] at frame
  exact ⟨e, reaches, {
    rip := inside.rip
    argument := (inside.regs .rax (by decide)).trans loaded.here
    regs := fun r notRsp notRax => (inside.regs r notRsp).trans (loaded.other r notRax)
    cs := cs
    rflags := inside.rflags.trans (congrArg _ loaded.rflags)
    data := inside.data.trans loaded.data
    rsp := deep
    frame := frame
    mem := loaded.mem ▸ inside.mem }⟩

theorem handler_called {t : Tables} {entry retq b1 leave : UInt64} {e : State}
    (at_entry : AtEntry entry rsp0 retq s e) (room : 56 ≤ (rsp0 &&& ~~~15).toNat)
    (pushes : code entry = some (.push .rax, b1))
    (calls : code b1 = some (.call syscallHandler, leave)) :
    ∃ k, Leads t code e k ∧ HandlerCalled syscallHandler rsp0 s k ∧ k.cs = 0x28 ∧
      Holds k [leave, s.word (s.rsp + 8), retq, s.cs.toUInt64, s.rflags, s.rsp, s.ss.toUInt64] := by
  have top := at_entry.rsp
  obtain ⟨p, pushing, pushed⟩ := exec_push (s := e) t b1 (by omega) .rax
  have topPushed := pushed.rsp
  obtain ⟨k, calling, called⟩ := exec_call (s := p) t leave (by omega) syscallHandler
  have topCalled := called.rsp
  have reaches : Leads t code e k := by
    rw [← at_entry.rip] at pushes
    rw [← pushed.rip] at calls
    exact Leads.cons pushes pushing (Leads.cons calls calling (Leads.refl k))
  have frame := called.holds _ (pushed.holds _ at_entry.frame)
  rw [at_entry.argument] at frame
  have selector : k.cs = 0x28 := by rw [called.cs, pushed.cs, at_entry.cs]
  have kept : ∀ r, r ≠ .rsp → r ≠ .rax → k.regs r = s.regs r := by
    intro r notRsp notRax
    calc
      k.regs r = p.regs r := called.regs r notRsp
      _ = e.regs r := pushed.regs r notRsp
      _ = s.regs r := at_entry.regs r notRsp notRax
  have arguments_other : ∀ r ∈ arguments, r ≠ .rsp ∧ r ≠ .rax := by decide
  have saved_other : ∀ r ∈ calleeSaved, r ≠ .rsp ∧ r ≠ .rax := by decide
  have interrupts : k.rflags &&& 0x200 = s.rflags &&& 0x200 := by
    rw [called.rflags, pushed.rflags, at_entry.rflags, entryFlags_interrupts]
  have aligned := aligned_mod rsp0
  exact ⟨k, reaches, {
    rip := called.rip
    arguments := fun r member => kept r (arguments_other r member).1 (arguments_other r member).2
    stackArgument := by
      have second := frame.pop.top
      rwa [pop_rsp] at second
    saved := fun r member => kept r (saved_other r member).1 (saved_other r member).2
    level := by rw [State.cpl, selector]; rfl
    interrupts := interrupts
    stack := by omega
    aligned := by omega
    mem := called.mem _ _ (pushed.mem _ _ at_entry.mem) }, selector, frame⟩

variable (address idt tss g rsp0) in
theorem program_returns {rsp : UInt64} {cs ss : UInt16} {rflags : UInt64} (kernel : s.cs = 0x28)
    (code : cs = userCode) (stack : ss = userData) {rip : UInt64}
    (frame : Holds s [rip, cs.toUInt64, rflags, rsp, ss.toUInt64]) :
    ∃ s', interruptReturn (kernelTables address idt tss g rsp0) s = some s' ∧
      Returned (kernelTables address idt tss g rsp0) rip cs rflags rsp ss s s' := by
  apply interruptReturn_frame frame
  rw [code, stack]
  exact {
    outward := by rw [State.cpl, kernel]; decide
    code := by rw [access_userCode]; decide
    codeLevel := by rw [access_userCode]; rfl
    stack := by rw [access_userData]; decide
    stackLevel := by rw [access_userData]; rfl
    same := rfl }

theorem frame_left {f : State} {leave argument : UInt64} {words : List UInt64}
    (returned : CReturns k left) (frame : Holds k (leave :: argument :: words))
    (few : words.length ≤ 5) (rsp : f.rsp = left.rsp + 8) (mem : f.mem = left.mem) :
    Holds f words := by
  have place := frame.add_eight
  have place2 := frame.pop.add_eight
  rw [pop_rsp] at place2
  apply frame.pop.pop.congr
  · rw [rsp, returned.rsp, pop_rsp, pop_rsp]
  · intro n lower upper
    rw [pop_rsp, pop_rsp] at lower upper
    calc
      f.mem n = left.mem n := congrFun mem n
      _ = k.mem n := returned.frame n (by omega) (by omega)

/-- The way out, from the return of the handler. -/
theorem syscall_returns {leave iret end1 retq end2 argument : UInt64} (user : UserMode s)
    (kernel : k.cs = 0x28)
    (frame : Holds k [leave, argument, retq, s.cs.toUInt64, s.rflags, s.rsp, s.ss.toUInt64])
    (adds : code leave = some (.addRsp 8, iret)) (irets : code iret = some (.iretq, end1))
    (rets : code retq = some (.ret, end2)) (returned : CReturns k left)
    (saved : ∀ r ∈ calleeSaved, k.regs r = s.regs r) :
    ∃ s', Leads (kernelTables address idt tss g rsp0) code left s' ∧ BackInProgram s left s' := by
  obtain ⟨f, dropping, dropped⟩ := exec_addRsp (kernelTables address idt tss g rsp0) left iret 8
  have csF : f.cs = 0x28 := by rw [dropped.cs, returned.cs, kernel]
  have frameF := frame_left returned frame (Nat.le_refl 5) dropped.here dropped.mem
  obtain ⟨u, returning, outside⟩ :=
    program_returns address idt tss g rsp0 (s := { f with rip := end1 }) csF user.cs
    user.ss ⟨frameF.read, frameF.fits⟩
  obtain ⟨s', leaving, went⟩ := exec_ret (kernelTables address idt tss g rsp0) u end2
  have memU : u.mem = left.mem := outside.mem.trans dropped.mem
  have reaches : Leads (kernelTables address idt tss g rsp0) code left s' := by
    rw [← dropped.rip] at irets
    rw [← outside.rip] at rets
    have leaveRip : left.rip = leave := returned.rip.trans frame.top
    rw [← leaveRip] at adds
    exact Leads.cons adds dropping
      (Leads.cons irets returning (Leads.cons rets leaving (Leads.refl s')))
  have other : ∀ r, r ≠ .rsp → s'.regs r = left.regs r := by
    intro r notRsp
    calc
      s'.regs r = u.regs r := went.other r notRsp
      _ = f.regs r := outside.regs r notRsp
      _ = left.regs r := dropped.other r notRsp
  have saved_other : ∀ r ∈ calleeSaved, r ≠ .rsp := by decide
  exact ⟨s', reaches, {
    rip := by rw [went.rip, State.word, State.word, memU, outside.rsp]
    rsp := by
      have place := went.here
      rwa [outside.rsp] at place
    result := other .rax (by decide)
    saved := by
      intro r member
      calc
        s'.regs r = left.regs r := other r (saved_other r member)
        _ = k.regs r := returned.saved r member
        _ = s.regs r := saved r member
    cs := went.cs.trans outside.cs
    ss := went.ss.trans outside.ss
    rflags := went.rflags.trans outside.rflags
    mem := went.mem.trans memU }⟩

/-- A system call from a program in user mode, within the limits of the processor model:
`syscall_handler` is called on the stack of the kernel with the arguments of the stub, and when it
returns the program goes on behind the call of the stub, with the result of the handler and with its
code and stack segments. -/
theorem syscall_round_trip (user : UserMode s) (room : 56 ≤ (rsp0 &&& ~~~15).toNat)
    (stub : ∃ back, Placed code s.rip syscall back)
    (entry : ∃ back, Placed code (address .syscallEntry) (syscallEntry syscallHandler) back) :
    ∃ k, Leads (kernelTables address idt tss g rsp0) code s k ∧
      HandlerCalled syscallHandler rsp0 s k ∧
      ∀ left, CReturns k left →
        ∃ s', Leads (kernelTables address idt tss g rsp0) code left s' ∧
          BackInProgram s left s' := by
  obtain ⟨back, a1, loads, retq, interrupts, end2, rets, _⟩ := stub
  obtain ⟨back', b1, pushes, leave, calls, iret, adds, end1, irets, _⟩ := entry
  obtain ⟨e, enters, inside⟩ := syscall_enters user room loads interrupts
  obtain ⟨k, called, handler, kernel, frame⟩ := handler_called inside room pushes calls
  refine ⟨k, Relation.ReflTransGen.trans enters called, handler, ?_⟩
  intro left returned
  exact syscall_returns user kernel frame adds irets rets returned handler.saved

end SystemCall

def stubs : Code := fun a =>
  [(0x1000, .load .rax 8, 0x1005), (0x1005, .int 0x80, 0x1007), (0x1007, .ret, 0x1008),
    (0x2000, .push .rax, 0x2001), (0x2001, .call 0x3000, 0x2006), (0x2006, .addRsp 8, 0x200A),
    (0x200A, .iretq, 0x200C)].lookup a

def calling : State where
  regs := fun _ => 0x70000007F00
  rip := 0x1000
  rflags := 0x202
  cs := userCode
  ss := userData
  data := fun _ => userData
  mem := fun _ => 0

theorem calling_round_trip :
    let tables := kernelTables (fun _ => 0x2000) (fun _ => 0) 0 ⟨fun _ => 0, 0⟩ 0x8000
    ∃ k, Leads tables stubs calling k ∧ HandlerCalled 0x3000 0x8000 calling k ∧
      ∀ left, CReturns k left → ∃ s', Leads tables stubs left s' ∧ BackInProgram calling left s' :=
  syscall_round_trip ⟨rfl, rfl⟩ (by decide) ⟨_, _, rfl, _, rfl, _, rfl, rfl⟩ ⟨_, _, rfl, _, rfl, _,
    rfl, _, rfl, rfl⟩

/-! The way into a program. -/

structure EntersProgram (s s' : State) : Prop where
  rip : s'.rip = s.regs .rcx
  rsp : s'.rsp = s.regs .rsi
  cs : s'.cs = userCode
  ss : s'.ss = userData
  data : ∀ d, s'.data d = userData
  rflags : s'.rflags = pushedFlags s.rflags
  /-- The arguments behind the first four become the arguments of the program. -/
  passed : s'.regs .rdi = s.regs .r8 ∧ s'.regs .rsi = s.regs .r9 ∧
    s'.regs .rdx = s.word (s.rsp + 8) ∧
    s'.regs .rcx = s.word (s.rsp + 16) ∧ s'.regs .r8 = s.word (s.rsp + 24) ∧
      s'.regs .r9 = s.word (s.rsp + 32)
  regs : ∀ r, r ≠ .rsp → r ∉ arguments → s'.regs r = s.regs r
  mem : AgreeOutside s.mem s'.mem (s.rsp.toNat - 40) 40

section UsermodeEntry

variable {address : InterruptHandler → UInt64} {idt : Mem} {tss : UInt64} {g : Gdt} {rsp0 : UInt64}
  {code : Code}
  {s s4 p : State}

theorem segments_selected (address : InterruptHandler → UInt64) (idt : Mem) (tss : UInt64) (g : Gdt)
    (rsp0 : UInt64) (kernel : s.cs = 0x28) (selector : s.regs .rdi = userData.toUInt64)
    {a1 a2 a3 a4 : UInt64} (first : code s.rip = some (.movSegment .ds .rdi, a1))
    (second : code a1 = some (.movSegment .es .rdi, a2))
    (third : code a2 = some (.movSegment .fs .rdi, a3))
    (fourth : code a3 = some (.movSegment .gs .rdi, a4)) :
    ∃ s4, Leads (kernelTables address idt tss g rsp0) code s s4 ∧ s4.rip = a4 ∧ s4.regs = s.regs ∧
      s4.rflags = s.rflags ∧ s4.cs = s.cs ∧ (∀ d, s4.data d = userData) ∧ s4.mem = s.mem := by
  have move : ∀ (q : State) (next : UInt64) (d : DataSegment), q.regs = s.regs → q.cs = s.cs →
      ∃ q', exec (kernelTables address idt tss g rsp0) { q with rip := next }
        (.movSegment d .rdi) = some q' ∧
        Selected q q' d userData next := by
    intro q next d regs cs
    apply exec_movSegment
    · rw [regs, selector]
      rfl
    · rw [access_userData]
      decide
    · rw [access_userData, State.cpl, cs, kernel]
      decide
    · rw [access_userData]
      decide
  obtain ⟨s1, step1, there1⟩ := move s a1 .ds rfl rfl
  obtain ⟨s2, step2, there2⟩ := move s1 a2 .es there1.regs there1.cs
  have regs2 : s2.regs = s.regs := there2.regs.trans there1.regs
  have cs2 : s2.cs = s.cs := there2.cs.trans there1.cs
  obtain ⟨s3, step3, there3⟩ := move s2 a3 .fs regs2 cs2
  have regs3 : s3.regs = s.regs := there3.regs.trans regs2
  have cs3 : s3.cs = s.cs := there3.cs.trans cs2
  obtain ⟨s4, step4, there4⟩ := move s3 a4 .gs regs3 cs3
  rw [← there1.rip] at second
  rw [← there2.rip] at third
  rw [← there3.rip] at fourth
  refine ⟨s4, ?_, there4.rip, there4.regs.trans regs3, ?_, there4.cs.trans cs3, ?_, ?_⟩
  · exact Leads.cons first step1
      (Leads.cons second step2 (Leads.cons third step3 (Leads.cons fourth step4 (Leads.refl s4))))
  · rw [there4.rflags, there3.rflags, there2.rflags, there1.rflags]
  · intro d
    rw [there4.data, there3.data, there2.data, there1.data]
    cases d <;> rfl
  · rw [there4.mem, there3.mem, there2.mem, there1.mem]

/-- The frame for the return to the program is on the stack. -/
theorem frame_pushed {t : Tables} (room : 40 ≤ s.rsp.toNat) {a1 a2 a3 a4 a5 : UInt64}
    (first : code s.rip = some (.push .rdi, a1)) (second : code a1 = some (.push .rsi, a2))
    (third : code a2 = some (.pushf, a3)) (fourth : code a3 = some (.push .rdx, a4))
    (fifth : code a4 = some (.push .rcx, a5)) :
    ∃ p, Leads t code s p ∧ p.rip = a5 ∧ p.rsp.toNat + 40 = s.rsp.toNat ∧
      (∀ r, r ≠ .rsp → p.regs r = s.regs r) ∧
      p.cs = s.cs ∧ p.data = s.data ∧ AgreeOutside s.mem p.mem p.rsp.toNat 40 ∧
      Holds p [s.regs .rcx, s.regs .rdx, pushedFlags s.rflags, s.regs .rsi, s.regs .rdi] := by
  obtain ⟨s1, step1, there1⟩ := exec_push (s := s) t a1 (by omega) .rdi
  have place1 := there1.rsp
  obtain ⟨s2, step2, there2⟩ := exec_push (s := s1) t a2 (by omega) .rsi
  have place2 := there2.rsp
  obtain ⟨s3, step3, there3⟩ := exec_pushf (s := s2) t a3 (by omega)
  have place3 := there3.rsp
  obtain ⟨s4, step4, there4⟩ := exec_push (s := s3) t a4 (by omega) .rdx
  have place4 := there4.rsp
  obtain ⟨p, step5, there5⟩ := exec_push (s := s4) t a5 (by omega) .rcx
  have place5 := there5.rsp
  have regs2 : ∀ r, r ≠ .rsp → s2.regs r = s.regs r :=
    fun r other => (there2.regs r other).trans (there1.regs r other)
  have regs4 : ∀ r, r ≠ .rsp → s4.regs r = s.regs r := fun r other =>
    (there4.regs r other).trans ((there3.regs r other).trans (regs2 r other))
  have holds := there5.holds _
    (there4.holds _ (there3.holds _ (there2.holds _ (there1.holds _ (Holds.nil s)))))
  rw [there1.regs .rsi (by decide), there2.rflags, there1.rflags, there3.regs .rdx (by decide),
    regs2 .rdx (by decide), regs4 .rcx (by decide)] at holds
  have none : AgreeOutside s.mem s.mem s.rsp.toNat 0 := fun _ _ => rfl
  rw [← there1.rip] at second
  rw [← there2.rip] at third
  rw [← there3.rip] at fourth
  rw [← there4.rip] at fifth
  refine ⟨p, ?_, there5.rip, by omega, fun r other => (there5.regs r other).trans (regs4 r other),
    ?_, ?_, ?_, holds⟩
  · exact Leads.cons first step1
      (Leads.cons second step2 (Leads.cons third step3 (Leads.cons fourth step4
      (Leads.cons fifth step5 (Leads.refl p)))))
  · rw [there5.cs, there4.cs, there3.cs, there2.cs, there1.cs]
  · rw [there5.data, there4.data, there3.data, there2.data, there1.data]
  · exact there5.mem _ _ (there4.mem _ _ (there3.mem _ _ (there2.mem _ _ (there1.mem _ _ none))))

theorem argument_kept (place : p.rsp.toNat + 40 = s.rsp.toNat)
    (agree : AgreeOutside s.mem p.mem p.rsp.toNat 40) {n m : UInt64} (offset : n = 40 + m)
    (fits : s.rsp.toNat + m.toNat < 2 ^ 64) :
    p.word (p.rsp + n) = s.word (s.rsp + m) := by
  have back : p.rsp + 40 = s.rsp := by
    apply UInt64.toNat_inj.mp
    rw [UInt64.toNat_add, ← place]
    exact Nat.mod_eq_of_lt (by have := s.rsp.toNat_lt; show p.rsp.toNat + 40 < 2 ^ 64; omega)
  have above : (s.rsp + m).toNat = s.rsp.toNat + m.toNat := by
    rw [UInt64.toNat_add]
    exact Nat.mod_eq_of_lt fits
  have same := readLE_agree s.mem p.mem p.rsp.toNat 40 (s.rsp + m).toNat 8 agree (Or.inr (by omega))
  rw [State.word, State.word, offset, ← UInt64.add_assoc, back, same]

theorem arguments_shifted {t : Tables} (place : p.rsp.toNat + 40 = s.rsp.toNat)
    (agree : AgreeOutside s.mem p.mem p.rsp.toNat 40) (fits : s.rsp.toNat + 32 < 2 ^ 64)
    (same : ∀ r, r ≠ .rsp → p.regs r = s.regs r) {a1 a2 a3 a4 a5 a6 : UInt64}
    (first : code p.rip = some (.mov .rdi .r8, a1)) (second : code a1 = some (.mov .rsi .r9, a2))
    (third : code a2 = some (.load .rdx 48, a3)) (fourth : code a3 = some (.load .rcx 56, a4))
    (fifth : code a4 = some (.load .r8 64, a5)) (sixth : code a5 = some (.load .r9 72, a6)) :
    ∃ q, Leads t code p q ∧ q.rip = a6 ∧ q.rsp = p.rsp ∧ q.cs = p.cs ∧ q.data = p.data ∧
      q.mem = p.mem ∧
      (q.regs .rdi = s.regs .r8 ∧ q.regs .rsi = s.regs .r9 ∧ q.regs .rdx = s.word (s.rsp + 8) ∧
        q.regs .rcx = s.word (s.rsp + 16) ∧ q.regs .r8 = s.word (s.rsp + 24) ∧
          q.regs .r9 = s.word (s.rsp + 32)) ∧
      ∀ r, r ≠ .rsp → r ∉ arguments → q.regs r = s.regs r := by
  obtain ⟨s1, step1, there1⟩ := exec_mov t p a1 .rdi .r8
  obtain ⟨s2, step2, there2⟩ := exec_mov t s1 a2 .rsi .r9
  obtain ⟨s3, step3, there3⟩ := exec_load t s2 a3 .rdx 48
  obtain ⟨s4, step4, there4⟩ := exec_load t s3 a4 .rcx 56
  obtain ⟨s5, step5, there5⟩ := exec_load t s4 a5 .r8 64
  obtain ⟨q, step6, there6⟩ := exec_load t s5 a6 .r9 72
  -- None of these instructions moves the stack or changes what is on it.
  have rsp2 : s2.rsp = p.rsp :=
    (there2.other .rsp (by decide)).trans (there1.other .rsp (by decide))
  have rsp3 : s3.rsp = p.rsp := (there3.other .rsp (by decide)).trans rsp2
  have rsp4 : s4.rsp = p.rsp := (there4.other .rsp (by decide)).trans rsp3
  have rsp5 : s5.rsp = p.rsp := (there5.other .rsp (by decide)).trans rsp4
  have mem2 : s2.mem = p.mem := there2.mem.trans there1.mem
  have mem3 : s3.mem = p.mem := there3.mem.trans mem2
  have mem4 : s4.mem = p.mem := there4.mem.trans mem3
  have mem5 : s5.mem = p.mem := there5.mem.trans mem4
  have loaded : ∀ (u : State) (n m : UInt64), u.rsp = p.rsp → u.mem = p.mem → n = 40 + m →
      m.toNat ≤ 32 →
      u.word (u.rsp + n) = s.word (s.rsp + m) := by
    intro u n m rsp mem offset small
    have kept := argument_kept place agree offset (by omega)
    rwa [State.word, ← rsp, ← mem] at kept
  rw [← there1.rip] at second
  rw [← there2.rip] at third
  rw [← there3.rip] at fourth
  rw [← there4.rip] at fifth
  rw [← there5.rip] at sixth
  refine ⟨q, ?_, there6.rip, (there6.other .rsp (by decide)).trans rsp5, ?_, ?_,
    there6.mem.trans mem5,
    ⟨?_, ?_, ?_, ?_, ?_, ?_⟩, ?_⟩
  · exact Leads.cons first step1
      (Leads.cons second step2 (Leads.cons third step3 (Leads.cons fourth step4
      (Leads.cons fifth step5 (Leads.cons sixth step6 (Leads.refl q))))))
  · rw [there6.cs, there5.cs, there4.cs, there3.cs, there2.cs, there1.cs]
  · rw [there6.data, there5.data, there4.data, there3.data, there2.data, there1.data]
  · rw [there6.other .rdi (by decide), there5.other .rdi (by decide), there4.other .rdi (by decide),
      there3.other .rdi (by decide), there2.other .rdi (by decide), there1.here,
        same .r8 (by decide)]
  · rw [there6.other .rsi (by decide), there5.other .rsi (by decide), there4.other .rsi (by decide),
      there3.other .rsi (by decide), there2.here, there1.other .r9 (by decide),
        same .r9 (by decide)]
  · rw [there6.other .rdx (by decide), there5.other .rdx (by decide), there4.other .rdx (by decide),
      there3.here]
    exact loaded s2 48 8 rsp2 mem2 rfl (by decide)
  · rw [there6.other .rcx (by decide), there5.other .rcx (by decide), there4.here]
    exact loaded s3 56 16 rsp3 mem3 rfl (by decide)
  · rw [there6.other .r8 (by decide), there5.here]
    exact loaded s4 64 24 rsp4 mem4 rfl (by decide)
  · rw [there6.here]
    exact loaded s5 72 32 rsp5 mem5 rfl (by decide)
  · intro r notRsp others
    simp only [arguments, List.mem_cons, List.not_mem_nil, or_false, not_or] at others
    obtain ⟨rdi, rsi, rdx, rcx, r8, r9⟩ := others
    rw [there6.other r r9, there5.other r r8, there4.other r rcx, there3.other r rdx,
      there2.other r rsi, there1.other r rdi, same r notRsp]

/-- The kernel enters a program, within the limits of the processor model. -/
theorem usermode_entered (address : InterruptHandler → UInt64) (idt : Mem) (tss : UInt64) (g : Gdt)
    (rsp0 : UInt64) (kernel : s.cs = 0x28) (data : s.regs .rdi = userData.toUInt64)
    (selector : s.regs .rdx = userCode.toUInt64) (room : 40 ≤ s.rsp.toNat)
    (fits : s.rsp.toNat + 32 < 2 ^ 64) (placed : ∃ back, Placed code s.rip usermodeEntry back) :
    ∃ s', Leads (kernelTables address idt tss g rsp0) code s s' ∧ EntersProgram s s' := by
  obtain ⟨back, a1, ds, a2, es, a3, fs, a4, gs, a5, stack, a6, pointer, a7, flags, a8,
      segment, a9, entry,
    a10, first, a11, second, a12, third, a13, fourth, a14, fifth, a15, sixth, a16, irets, _⟩ :=
      placed
  obtain ⟨s4, selects, rip4, regs4, rflags4, cs4, data4, mem4⟩ :=
    segments_selected address idt tss g rsp0 kernel data ds es fs gs
  have rsp4 : s4.rsp = s.rsp := congrFun regs4 .rsp
  rw [← rip4] at stack
  obtain ⟨p, pushes, ripP, placeP, regsP, csP, dataP, memP, holds⟩ :=
    frame_pushed (t := kernelTables address idt tss g rsp0) (by rw [rsp4]; exact room) stack pointer
      flags segment entry
  rw [rsp4] at placeP
  rw [mem4] at memP
  rw [regs4, rflags4, data, selector] at holds
  have sameP : ∀ r, r ≠ .rsp → p.regs r = s.regs r := by
    intro r other
    rw [regsP r other, regs4]
  rw [← ripP] at first
  obtain ⟨q, shifts, ripQ, rspQ, csQ, dataQ, memQ, passed, kept⟩ :=
    arguments_shifted (t := kernelTables address idt tss g rsp0) placeP memP fits sameP first second
      third fourth fifth sixth
  have frame : Holds q [s.regs .rcx, userCode.toUInt64, pushedFlags s.rflags, s.regs .rsi,
      userData.toUInt64] :=
    holds.congr rspQ (fun n _ _ => congrFun memQ n)
  have csKernel : q.cs = 0x28 := by rw [csQ, csP, cs4, kernel]
  obtain ⟨s', returning, there⟩ :=
    program_returns address idt tss g rsp0 (s := { q with rip := a16 }) csKernel rfl rfl
    ⟨frame.read, frame.fits⟩
  rw [← ripQ] at irets
  have leaves : Leads (kernelTables address idt tss g rsp0) code q s' :=
    Leads.cons irets returning (Leads.refl s')
  refine ⟨s', ((selects.trans pushes).trans shifts).trans leaves, ?_⟩
  have regs' : ∀ r, r ≠ .rsp → s'.regs r = q.regs r := there.regs
  exact {
    rip := there.rip
    rsp := there.rsp
    cs := there.cs
    ss := there.ss
    data := by
      intro d
      have level3 : dataLeft (kernelTables address idt tss g rsp0) { q with rip := a16 } userCode
          d = userData := by
        rw [dataLeft]
        simp only [dataQ, dataP, data4, access_userData]
        rfl
      rw [there.data, level3]
    rflags := there.rflags
    passed := by
      rw [regs' .rdi (by decide), regs' .rsi (by decide), regs' .rdx (by decide),
        regs' .rcx (by decide), regs' .r8 (by decide), regs' .r9 (by decide)]
      exact passed
    regs := fun r notRsp others => (regs' r notRsp).trans (kept r notRsp others)
    mem := by
      have below : p.rsp.toNat = s.rsp.toNat - 40 := by omega
      rw [there.mem, ← below]
      exact memQ ▸ memP }

end UsermodeEntry

def entering : Code := fun a => usermodeEntry[a.toNat]?.map fun i => (i, a + 1)

def starting : State where
  regs := fun r =>
    match r with
    | .rdi => userData.toUInt64
    | .rsi => 0x70000007FF8
    | .rdx => userCode.toUInt64
    | .rcx => 0x400000
    | .rsp => 0x9000
    | _ => 0
  rip := 0
  rflags := 0x202
  cs := 0x28
  ss := 0x30
  data := fun _ => 0x30
  mem := fun _ => 0

theorem starting_entered :
    ∃ s', Leads (kernelTables (fun _ => 0x2000) (fun _ => 0) 0 ⟨fun _ => 0, 0⟩ 0x8000) entering
      starting s' ∧
      EntersProgram starting s' :=
  usermode_entered _ _ _ _ _ rfl rfl rfl (by decide) (by decide)
    ⟨_, _, rfl, _, rfl, _, rfl, _, rfl, _, rfl, _, rfl, _, rfl, _, rfl, _, rfl, _, rfl, _, rfl, _,
      rfl, _, rfl, _, rfl,
      _, rfl, _, rfl, rfl⟩

end PaintKernel
