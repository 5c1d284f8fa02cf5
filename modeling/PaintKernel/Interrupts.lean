import Mathlib
import PaintKernel.Descriptors
import PaintKernel.MouseInit
import PaintKernel.Pic
import PaintKernel.TextCursor
import PaintKernel.Library.Run

set_option autoImplicit false

/-! Interrupt requests from the devices to the handlers, from the boot of the kernel on. A mouse
interrupt before `initialize_cursor` is a page fault in its handler, which never returns. -/

namespace PaintKernel

open ByteMemory Ports Transition

def irq1InterruptHandler : PortProgram Unit := do
  let _ ← inb 0x60
  outb pic1Command picEoi
  outb pic2Command picEoi

/-- `store_mouse_data` goes through `mousebytes` and `data`. -/
def irq12InterruptHandler : PortProgram Unit := do
  let _ ← inb 0x60
  deref
  outb pic1Command picEoi
  outb pic2Command picEoi

/-- The port accesses of `_start`, and what the kernel does after them. Of `initialize_cursor` there
are the two pointers. -/
def bootPorts (rest : PortProgram Unit) : PortProgram Unit := do
  picInit
  picUnmaskIrq 1
  picUnmaskIrq 2
  picUnmaskIrq 12
  assign
  initializeMouse
  rest

/-! Requests and their acknowledgement. Lines 8 to 15 are those of the slave. -/

def masterLine (n : Fin 8) : Fin 16 := ⟨n.val, by omega⟩
def slaveLine (n : Fin 8) : Fin 16 := ⟨n.val + 8, by omega⟩

namespace Pics

def masterLines (requests : Finset (Fin 16)) (slaveSignals : Bool) : Finset (Fin 8) :=
  Finset.univ.filter fun n => if n = 2 then slaveSignals = true else masterLine n ∈ requests

def slaveLines (requests : Finset (Fin 16)) : Finset (Fin 8) :=
  Finset.univ.filter fun n => slaveLine n ∈ requests

def acknowledge (d : Pics) (requests : Finset (Fin 16)) : Option (Fin 16 × UInt8 × Pics) :=
  let signal := d.slave.irq (slaveLines requests)
  match d.master.irq (masterLines requests signal.isSome) with
  | none => none
  | some n =>
      if n = 2 ∧ d.master.cascade.toBitVec.getLsbD 2 = true then
        match signal with
        | some k =>
            if d.slave.cascade = 2 then
              some (slaveLine k, d.slave.vector k,
                { master := d.master.serve 2, slave := d.slave.serve k })
            else none
        | none => none
      else some (masterLine n, d.master.vector n, { d with master := d.master.serve n })

/-- An ICW1 clears the latched requests of its controller. -/
def latched (port : UInt16) (val : UInt8) (requests : Finset (Fin 16)) : Finset (Fin 16) :=
  if val &&& 0x10 ≠ 0 ∧ port = pic1Command then requests.filter fun l => 8 ≤ l.val
  else if val &&& 0x10 ≠ 0 ∧ port = pic2Command then requests.filter fun l => l.val < 8
  else requests

end Pics

structure Cpu where
  pics : Pics
  requests : Finset (Fin 16)
  interruptFlag : Bool
  /-- `initialize_cursor` has assigned `data` and `mousebytes`. -/
  cursor : Bool
  /-- The code that is interrupted. -/
  program : PortProgram Unit
  /-- The handlers that have not returned, each with the interrupt flag it restores. -/
  handlers : List (PortProgram Unit × Bool)
  /-- The requests that were latched so far. -/
  taken : List (Fin 16)
  /-- The requests that were acknowledged so far, with their vectors. -/
  served : List (Fin 16 × UInt8)

inductive InterruptEvent where
  | request (line : Fin 16)
  | access (answer : UInt8)
  | interrupt
  | iret

namespace Cpu

def perform (c : Cpu) (p : PortProgram Unit) (answer : UInt8) : Option (PortProgram Unit × Cpu) :=
  match p with
  | .done _ => none
  | .inb port next => some (next (c.pics.read port answer), c)
  | .outb port val next =>
      (c.pics.write port val).map fun pics =>
        (next, { c with pics, requests := Pics.latched port val c.requests })
  | .sti next => some (next, { c with interruptFlag := true })
  | .assign next => some (next, { c with cursor := true })
  | .deref next => if c.cursor = true then some (next, c) else none

variable (idt : Mem) (code : Nat → PortProgram Unit)

/-- Entry through the gate of the vector; `none` is a fault. -/
def enter (c : Cpu) (line : Fin 16) (vector : UInt8) (pics : Pics) : Option Cpu :=
  let gate := gateAt idt vector
  if gate.present = 1 then
    some { c with
      pics, requests := c.requests.erase line
      interruptFlag := if gate.type = idtTypeInterrupt.toNat then false else c.interruptFlag
      handlers := (code gate.handler, c.interruptFlag) :: c.handlers
      served := (line, vector) :: c.served }
  else none

def step (c : Cpu) : InterruptEvent → Option Cpu
  | .request line =>
      if line = 2 then none
      else some { c with
        requests := insert line c.requests
        taken := if line ∈ c.requests then c.taken else line :: c.taken }
  | .access answer =>
      match c.handlers with
      | [] => (c.perform c.program answer).map fun (p, c) => { c with program := p }
      | (p, flag) :: rest => (c.perform p answer).map fun (p, c) =>
          { c with handlers := (p, flag) :: rest }
  | .interrupt =>
      if c.interruptFlag = true then
        match c.pics.acknowledge c.requests with
        | none => none
        | some (line, vector, pics) => c.enter idt code line vector pics
      else none
  | .iret =>
      match c.handlers with
      | (.done _, flag) :: rest => some { c with interruptFlag := flag, handlers := rest }
      | _ => none

end Cpu

/-! The state of the controllers while interrupts are enabled. -/

def Pics.Configured (d : Pics) : Prop := ∃ master slave, d = initialised.withMasks master slave

structure Pics.Quiet (d : Pics) : Prop where
  configured : d.Configured
  masked : ∀ l, d.Unmasked l → l = 1 ∨ l = 2 ∨ l = 12

theorem Pics.Configured.ready {d : Pics} (configured : d.Configured) : d.Ready := by
  obtain ⟨master, slave, rfl⟩ := configured
  exact ⟨rfl, rfl⟩

theorem Pics.Configured.withMasks {d : Pics} (configured : d.Configured) (master slave : UInt8) :
    (d.withMasks master slave).Configured := by
  obtain ⟨_, _, rfl⟩ := configured
  exact ⟨master, slave, rfl⟩

section Boot

variable {d : Pics} {assigned : Bool}

def Opened (lines : List (Fin 16)) (d : Pics) : Prop := d.Configured ∧ ∀ l, d.Unmasked l ↔ l ∈ lines

theorem opened_initialised : Opened [] initialised := by
  constructor
  · exact ⟨0xFF, 0xFF, rfl⟩
  · decide

theorem Opened.quiet {lines : List (Fin 16)} (opened : Opened lines d)
    (handled : lines ⊆ [1, 2, 12]) : d.Quiet where
  configured := opened.1
  masked := by
    intro l unmasked
    have member := handled ((opened.2 l).mp unmasked)
    simpa using member

def EnabledQuiet (d : Pics) (flag : Bool) : Prop := flag = true → d.Quiet

theorem picUnmaskIrq_opened {lines : List (Fin 16)} (line : Fin 16) (opened : Opened lines d)
    (handled : line :: lines ⊆ [1, 2, 12]) :
    Safe Pics.Reads Pics.write EnabledQuiet (fun _ d' _ flag => flag = true ∧
      Opened (line :: lines) d')
      (picUnmaskIrq (UInt8.ofNat line.val)) d assigned true := by
  have after : ∀ d', Masks d true (fun l => d.Unmasked l ∨ l = line) d' true →
      Opened (line :: lines) d' := by
    intro d' masks
    obtain ⟨_, same, unmasked⟩ := masks
    constructor
    · rw [same]
      exact opened.1.withMasks _ _
    · intro l
      calc
        d'.Unmasked l ↔ d.Unmasked l ∨ l = line := unmasked l
        _ ↔ l ∈ line :: lines := by rw [opened.2, List.mem_cons, or_comm]
  have before : lines ⊆ [1, 2, 12] := fun l member => handled (List.mem_cons_of_mem line member)
  have safe : Safe Pics.Reads Pics.write EnabledQuiet
      (fun _ d' _ => Masks d true (fun l => d.Unmasked l ∨ l = line) d')
      (picUnmaskIrq (UInt8.ofNat line.val)) d assigned true :=
    picUnmaskIrq_safe line opened.1.ready (fun _ => opened.quiet before) fun d' masks _ =>
      (after d' masks).quiet handled
  exact safe.imp fun _ d' _ flag masks => ⟨masks.1, after d' (masks.1 ▸ masks)⟩

theorem leaves_mouseWaitLoop (ready : UInt8 → Bool) (timeOut : Nat) :
    Leaves Pics.write (mouseWaitLoop ready timeOut) := by
  induction timeOut with
  | zero => trivial
  | succ timeOut ih =>
      rw [mouseWaitLoop_succ]
      intro status
      beta_reduce
      split_ifs
      · trivial
      · exact ih

theorem leaves_mouseWait (type : UInt8) : Leaves Pics.write (mouseWait type) := by
  rw [mouseWait]
  split_ifs
  · exact leaves_mouseWaitLoop _ 100000
  · exact leaves_mouseWaitLoop _ 100000

section Ports

variable {next : PortProgram Unit}

theorem leaves_command (val : UInt8) (later : Leaves Pics.write next) :
    Leaves Pics.write (.outb 0x64 val next) :=
  ⟨fun d => d.write_other val (by decide) (by decide) (by decide) (by decide), later⟩

theorem leaves_data (val : UInt8) (later : Leaves Pics.write next) :
    Leaves Pics.write (.outb 0x60 val next) :=
  ⟨fun d => d.write_other val (by decide) (by decide) (by decide) (by decide), later⟩

theorem leaves_mouseWrite (data : UInt8) : Leaves Pics.write (mouseWrite data) := by
  apply (leaves_mouseWait readyToSend).bind
  intro _
  apply leaves_command
  apply (leaves_mouseWait readyToSend).bind
  intro _
  exact leaves_data data trivial

theorem leaves_mouseRead : Leaves Pics.write mouseRead :=
  (leaves_mouseWait readyToRead).bind fun _ _ => trivial

end Ports

theorem leaves_initializeMouse : Leaves Pics.write initializeMouse := by
  apply (leaves_mouseWait readyToSend).bind
  intro _
  apply leaves_command
  apply (leaves_mouseWait readyToSend).bind
  intro _
  apply leaves_command
  apply (leaves_mouseWait readyToRead).bind
  intro _ status
  apply (leaves_mouseWait readyToSend).bind
  intro _
  apply leaves_command
  apply (leaves_mouseWait readyToSend).bind
  intro _
  apply leaves_data
  apply (leaves_mouseWrite 0xFF).bind
  intro _
  apply leaves_mouseRead.bind
  intro _
  apply (leaves_mouseWrite 0xF6).bind
  intro _
  apply leaves_mouseRead.bind
  intro _
  apply (leaves_mouseWrite 0xF4).bind
  intro _
  apply leaves_mouseRead.bind
  intro _
  trivial

theorem write_crtc (d : Pics) (val : UInt8) :
    d.write 0x3D4 val = some d ∧ d.write 0x3D5 val = some d :=
  ⟨d.write_other val (by decide) (by decide) (by decide) (by decide),
    d.write_other val (by decide) (by decide) (by decide) (by decide)⟩

/-! After the boot only the terminal accesses ports. -/

theorem leaves_termEnableCursor : Leaves Pics.write termEnableCursor :=
  ⟨fun d => (write_crtc d _).1, fun _ => ⟨fun d => (write_crtc d _).2,
    fun d => (write_crtc d _).1, fun _ => ⟨fun d => (write_crtc d _).2, trivial⟩⟩⟩

theorem leaves_termUpdateCursor (t : Terminal) : Leaves Pics.write (termUpdateCursor t) :=
  ⟨fun d => (write_crtc d _).1, fun d => (write_crtc d _).2,
    fun d => (write_crtc d _).1, fun d => (write_crtc d _).2, trivial⟩

def Booted (_ : Unit) (d : Pics) (assigned flag : Bool) : Prop :=
  flag = true ∧ assigned = true ∧ Opened [12, 2, 1] d

/-- Whatever the devices answer, the boot never enables interrupts but with quiet controllers. -/
theorem bootPorts_safe {rest : PortProgram Unit} (leaves : Leaves Pics.write rest) (d : Pics)
    (assigned : Bool) :
    Safe Pics.Reads Pics.write EnabledQuiet Booted (bootPorts rest) d assigned false := by
  have off : ∀ d, EnabledQuiet d false := fun _ enabled => absurd enabled (by decide)
  have start : Safe Pics.Reads Pics.write EnabledQuiet
      (fun _ d' _ flag => d' = initialised ∧ flag = true) picInit d assigned false :=
    picInit_safe off (fun _ => opened_initialised.quiet (by simp)) d
  apply start.bind
  intro _ d1 assigned1 flag1 after1
  obtain ⟨rfl, rfl⟩ := after1
  apply (picUnmaskIrq_opened 1 opened_initialised (by decide)).bind
  intro _ d2 assigned2 flag2 after2
  obtain ⟨rfl, opened2⟩ := after2
  apply (picUnmaskIrq_opened 2 opened2 (by decide)).bind
  intro _ d3 assigned3 flag3 after3
  obtain ⟨rfl, opened3⟩ := after3
  apply (picUnmaskIrq_opened 12 opened3 (by decide)).bind
  intro _ d4 assigned4 flag4 after4
  obtain ⟨rfl, opened4⟩ := after4
  have quiet : EnabledQuiet d4 true := fun _ => opened4.quiet (by decide)
  have left : Leaves Pics.write (initializeMouse >>= fun _ => rest) :=
    leaves_initializeMouse.bind fun _ => leaves
  have safe : Safe Pics.Reads Pics.write EnabledQuiet
      (fun _ d' assigned' flag => d' = d4 ∧ assigned' = true ∧ flag = true)
      (initializeMouse >>= fun _ => rest) d4 true true := left.safe quiet
  have booted : Safe Pics.Reads Pics.write EnabledQuiet Booted (initializeMouse >>= fun _ => rest)
      d4 true true := safe.imp fun _ d' assigned' flag same => by
    obtain ⟨rfl, rfl, rfl⟩ := same
    exact ⟨rfl, rfl, opened4⟩
  exact ⟨quiet, booted⟩

end Boot

section Acknowledge

variable {d : Pics} {requests : Finset (Fin 16)}

theorem irq_some {p : Pic} {lines : Finset (Fin 8)} {n : Fin 8} (signals : p.irq lines = some n) :
    n ∈ lines ∧ p.Unmasked n := by
  rw [Pic.irq] at signals
  split_ifs at signals
  have found := List.find?_some signals
  simp only [decide_eq_true_eq] at found
  exact ⟨found.1, found.2.1⟩

/-- A controller with nothing in service signals every request that is not masked. -/
theorem irq_isSome {p : Pic} {lines : Finset (Fin 8)} {n : Fin 8} (expected : p.expected = .mask)
    (mode : p.mode = 0x01) (idle : p.isr = ∅) (requested : n ∈ lines) (unmasked : p.Unmasked n) :
    (p.irq lines).isSome = true := by
  have ready : p.expected = .mask ∧ p.mode &&& 0x01 ≠ 0 := by
    rw [mode]
    exact ⟨expected, by decide⟩
  rw [Pic.irq, if_pos ready, List.find?_isSome]
  exact ⟨n, List.mem_finRange n, by simp [requested, unmasked, idle]⟩

theorem unmasked_master (n : Fin 8) : d.Unmasked (masterLine n) ↔ d.master.Unmasked n :=
  unmasked_low n.isLt

theorem unmasked_slave (n : Fin 8) : d.Unmasked (slaveLine n) ↔ d.slave.Unmasked n := by
  have high : ¬(slaveLine n).val < 8 := by simp [slaveLine]
  have place : (⟨(slaveLine n).val - 8, by omega⟩ : Fin 8) = n := Fin.ext (Nat.add_sub_cancel _ _)
  rw [unmasked_high high, place]

def Pics.serving (d : Pics) (line : Fin 16) : Pics where
  master := d.master.serve (if line = 1 then 1 else 2)
  slave := if line = 1 then d.slave else d.slave.serve 4

theorem withMasks_cascaded (master slave : UInt8) :
    (initialised.withMasks master slave).master.cascade.toBitVec.getLsbD 2 = true ∧
      (initialised.withMasks master slave).slave.cascade = 2 :=
  ⟨(by decide : (0x04 : UInt8).toBitVec.getLsbD 2 = true), rfl⟩

/-- Quiet controllers acknowledge the keyboard or the mouse, with the vector of its handler. -/
theorem acknowledge_quiet (quiet : d.Quiet) {line : Fin 16} {vector : UInt8} {d' : Pics}
    (acknowledged : d.acknowledge requests = some (line, vector, d')) :
    (line = 1 ∧ vector = 0x21 ∨ line = 12 ∧ vector = 0x2c) ∧ line ∈ requests ∧
      d' = d.serving line := by
  obtain ⟨⟨master, slave, rfl⟩, masked⟩ := quiet
  rw [Pics.acknowledge] at acknowledged
  split at acknowledged
  · cases acknowledged
  · rename_i n signals
    obtain ⟨requested, open_n⟩ := irq_some signals
    have known := masked (masterLine n) ((unmasked_master n).mpr open_n)
    rw [Pics.masterLines, Finset.mem_filter] at requested
    by_cases two : n = 2
    · subst two
      rw [if_pos ⟨rfl, (withMasks_cascaded master slave).1⟩] at acknowledged
      split at acknowledged
      · rename_i k slaveSignals
        obtain ⟨requested, open_k⟩ := irq_some slaveSignals
        rw [Pics.slaveLines, Finset.mem_filter] at requested
        have four : k = 4 := by
          have place := masked (slaveLine k) ((unmasked_slave k).mpr open_k)
          simp only [slaveLine, Fin.ext_iff] at place ⊢
          norm_num at place ⊢
          omega
        subst four
        rw [if_pos (withMasks_cascaded master slave).2] at acknowledged
        cases acknowledged
        exact ⟨Or.inr ⟨rfl, rfl⟩, requested.2, rfl⟩
      · cases acknowledged
    · have one : n = 1 := by
        simp only [masterLine, Fin.ext_iff] at known two ⊢
        norm_num at known two ⊢
        omega
      subst one
      rw [if_neg fun both => absurd both.1 (by decide)] at acknowledged
      cases acknowledged
      exact ⟨Or.inl ⟨rfl, rfl⟩, requested.2, rfl⟩

theorem acknowledge_signal (quiet : d.Quiet)
    (signals : (d.master.irq
      (Pics.masterLines requests (d.slave.irq (Pics.slaveLines requests)).isSome)).isSome = true) :
    (d.acknowledge requests).isSome = true := by
  obtain ⟨⟨master, slave, rfl⟩, masked⟩ := quiet
  obtain ⟨n, signals⟩ := Option.isSome_iff_exists.mp signals
  rw [Pics.acknowledge, signals]
  by_cases two : n = 2
  · subst two
    have requested := (irq_some signals).1
    rw [Pics.masterLines, Finset.mem_filter, if_pos rfl] at requested
    obtain ⟨k, slaveSignals⟩ := Option.isSome_iff_exists.mp requested.2
    simp [slaveSignals, withMasks_cascaded]
  · simp [two]

/-- An open request of the keyboard or of the mouse is acknowledged. -/
theorem acknowledge_isSome (quiet : d.Quiet) (keyboard : d.Unmasked 1) (slave : d.Unmasked 2)
    (mouse : d.Unmasked 12) (requested : 1 ∈ requests ∨ 12 ∈ requests) :
    (d.acknowledge requests).isSome = true := by
  apply acknowledge_signal quiet
  obtain ⟨⟨master, slaveMask, rfl⟩, masked⟩ := quiet
  rcases requested with keys | moves
  · apply irq_isSome (n := 1) rfl rfl rfl
    · rw [Pics.masterLines, Finset.mem_filter]
      exact ⟨Finset.mem_univ 1, keys⟩
    · exact (unmasked_master 1).mp keyboard
  · have slaveSignals :
        ((initialised.withMasks master slaveMask).slave.irq (Pics.slaveLines requests)).isSome =
        true := by
      apply irq_isSome (n := 4) rfl rfl rfl
      · rw [Pics.slaveLines, Finset.mem_filter]
        exact ⟨Finset.mem_univ 4, moves⟩
      · exact (unmasked_slave 4).mp mouse
    apply irq_isSome (n := 2) rfl rfl rfl
    · rw [Pics.masterLines, Finset.mem_filter, slaveSignals]
      exact ⟨Finset.mem_univ 2, rfl⟩
    · exact (unmasked_master 2).mp slave

end Acknowledge

section Handlers

variable {d : Pics}

theorem command_eoi (p : Pic) :
    p.command picEoi = some { p with isr := p.isr.filter fun n => ∃ m ∈ p.isr, m < n } := by
  rw [Pic.command, if_neg (by decide), if_pos (by decide)]

theorem withIsr_eq {p : Pic} (idle : p.isr = ∅) : { p with isr := ∅ } = p := by rw [← idle]

theorem serve_eoi {p : Pic} (mode : p.mode = 0x01) (idle : p.isr = ∅) (n : Fin 8) :
    (p.serve n).command picEoi = some p := by
  have stays : ¬p.mode &&& 0x02 ≠ 0 := by
    rw [mode]
    decide
  rw [command_eoi, Pic.serve, if_neg stays, idle]
  simp [Finset.filter_singleton, withIsr_eq idle]

theorem idle_eoi {p : Pic} (idle : p.isr = ∅) : p.command picEoi = some p := by
  rw [command_eoi, idle]
  simp [withIsr_eq idle]

theorem serve_expected (p : Pic) (n : Fin 8) : (p.serve n).expected = p.expected := by
  rw [Pic.serve]
  split_ifs
  · rfl
  · rfl

theorem Pics.Quiet.serving_ready (quiet : d.Quiet) (line : Fin 16) : (d.serving line).Ready where
  master := (serve_expected _ _).trans quiet.configured.ready.master
  slave := by
    rw [Pics.serving]
    split_ifs
    · exact quiet.configured.ready.slave
    · exact (serve_expected _ _).trans quiet.configured.ready.slave

theorem write_eoi1 {master master' slave : Pic} (ends : master.command picEoi = some master') :
    (Pics.mk master slave).write pic1Command picEoi = some ⟨master', slave⟩ := by
  rw [Pics.write, if_pos rfl, ends]
  rfl

theorem write_eoi2 {master slave slave' : Pic} (ends : slave.command picEoi = some slave') :
    (Pics.mk master slave).write pic2Command picEoi = some ⟨master, slave'⟩ := by
  rw [Pics.write, if_neg (by decide), if_neg (by decide), if_pos rfl, ends]
  rfl

def HandlerRuns (d : Pics) (flag : Bool) : Prop := d.Ready ∧ flag = false

def HandlerEnds (d : Pics) (assigned : Bool) (_ : Unit) (d' : Pics)
    (assigned' flag : Bool) : Prop :=
  d' = d ∧ assigned' = assigned ∧ flag = false

/-- The two bytes at the end of a handler end exactly the interrupts that are in service for it. -/
theorem eois_safe (quiet : d.Quiet) (line : Fin 16) (assigned : Bool) :
    Safe Pics.Reads Pics.write HandlerRuns (HandlerEnds d assigned)
      (.outb pic1Command picEoi (.outb pic2Command picEoi (.done ()))) (d.serving line) assigned
      false := by
  have ready := quiet.serving_ready line
  obtain ⟨⟨master, slave, rfl⟩, masked⟩ := quiet
  have first := serve_eoi (p := (initialised.withMasks master slave).master) rfl rfl
    (if line = 1 then 1 else 2)
  have last : (if line = 1 then (initialised.withMasks master slave).slave
      else (initialised.withMasks master slave).slave.serve 4).command picEoi =
      some (initialised.withMasks master slave).slave := by
    split_ifs
    · exact idle_eoi rfl
    · exact serve_eoi rfl rfl 4
  have between : (Pics.mk (initialised.withMasks master slave).master
      ((initialised.withMasks master slave).serving line).slave).Ready := ⟨rfl, ready.slave⟩
  exact ⟨⟨ready, rfl⟩, _, write_eoi1 first, ⟨between, rfl⟩, _, write_eoi2 last,
    ⟨⟨rfl, rfl⟩, rfl⟩, rfl, rfl, rfl⟩

def Handles (line : Fin 16) (handler : PortProgram Unit) : Prop :=
  line = 1 ∧ handler = irq1InterruptHandler ∨ line = 12 ∧ handler = irq12InterruptHandler

theorem handler_safe (quiet : d.Quiet) {line : Fin 16} {handler : PortProgram Unit}
    {assigned : Bool} (handles : Handles line handler) (pointers : line = 12 → assigned = true) :
    Safe Pics.Reads Pics.write HandlerRuns (HandlerEnds d assigned) handler
      (d.serving line) assigned
      false := by
  have runs : HandlerRuns (d.serving line) false := ⟨quiet.serving_ready line, rfl⟩
  have eois := eois_safe quiet line assigned
  rcases handles with ⟨rfl, rfl⟩ | ⟨rfl, rfl⟩
  · exact ⟨runs, fun _ _ => eois⟩
  · exact ⟨runs, fun _ _ => ⟨runs, pointers rfl, eois⟩⟩

end Handlers

section Steps

variable {c c' : Cpu} {p p' : PortProgram Unit} {answer : UInt8} {inv : Pics → Bool → Prop}
  {post : Unit → Pics → Bool → Bool → Prop}

/-- Only an initialisation clears requests, and then more bytes are expected. -/
theorem latched_eq {d d' : Pics} {port : UInt16} {val : UInt8}
    (written : d.write port val = some d') (ready : d'.Ready) (requests : Finset (Fin 16)) :
    Pics.latched port val requests = requests := by
  rw [Pics.latched]
  split_ifs with first second
  · obtain ⟨initial, rfl⟩ := first
    rw [Pics.write, if_pos rfl, Pic.command, if_pos initial] at written
    cases written
    cases ready.master
  · obtain ⟨initial, rfl⟩ := second
    rw [Pics.write, if_neg (by decide), if_neg (by decide), if_pos rfl, Pic.command,
      if_pos initial] at written
    cases written
    cases ready.slave
  · rfl

structure Performed (c c' : Cpu) : Prop where
  handlers : c'.handlers = c.handlers
  program : c'.program = c.program
  taken : c'.taken = c.taken
  served : c'.served = c.served
  enabled : c.interruptFlag = true → c'.interruptFlag = true
  cursor : c.cursor = true → c'.cursor = true
  fewer : c'.requests ⊆ c.requests
  requests : c'.pics.Ready → c'.requests = c.requests

theorem latched_subset (port : UInt16) (val : UInt8) (requests : Finset (Fin 16)) :
    Pics.latched port val requests ⊆ requests := by
  rw [Pics.latched]
  split_ifs
  · exact Finset.filter_subset _ _
  · exact Finset.filter_subset _ _
  · exact Finset.Subset.refl _

theorem perform_performed (made : c.perform p answer = some (p', c')) : Performed c c' := by
  cases p with
  | done u => cases made
  | inb port next =>
      cases made
      exact ⟨rfl, rfl, rfl, rfl, id, id, Finset.Subset.refl _, fun _ => rfl⟩
  | outb port val next =>
      rw [Cpu.perform, Option.map_eq_some_iff] at made
      obtain ⟨d, written, made⟩ := made
      cases made
      exact ⟨rfl, rfl, rfl, rfl, id, id, latched_subset port val c.requests,
        fun ready => latched_eq written ready c.requests⟩
  | sti next =>
      cases made
      exact ⟨rfl, rfl, rfl, rfl, fun _ => rfl, id, Finset.Subset.refl _, fun _ => rfl⟩
  | assign next =>
      cases made
      exact ⟨rfl, rfl, rfl, rfl, id, fun _ => rfl, Finset.Subset.refl _, fun _ => rfl⟩
  | deref next =>
      rw [Cpu.perform] at made
      split_ifs at made
      cases made
      exact ⟨rfl, rfl, rfl, rfl, id, id, Finset.Subset.refl _, fun _ => rfl⟩

theorem perform_safe (safe : Safe Pics.Reads Pics.write inv post p c.pics c.cursor c.interruptFlag)
    (made : c.perform p answer = some (p', c')) :
    Safe Pics.Reads Pics.write inv post p' c'.pics c'.cursor c'.interruptFlag := by
  cases p with
  | done u => cases made
  | inb port next =>
      cases made
      exact safe.2 _ ⟨answer, rfl⟩
  | outb port val next =>
      obtain ⟨_, d, written, later⟩ := safe
      rw [Cpu.perform, written] at made
      cases made
      exact later
  | sti next =>
      cases made
      exact safe.2
  | assign next =>
      cases made
      exact safe.2
  | deref next =>
      obtain ⟨_, assigned, later⟩ := safe
      rw [Cpu.perform, if_pos assigned] at made
      cases made
      exact later

theorem perform_isSome
    (safe : Safe Pics.Reads Pics.write inv post p c.pics c.cursor c.interruptFlag)
    (more : ∀ u, p ≠ .done u) (answer : UInt8) : (c.perform p answer).isSome = true := by
  cases p with
  | done u => exact absurd rfl (more u)
  | inb port next => rfl
  | outb port val next =>
      obtain ⟨_, d, written, _⟩ := safe
      rw [Cpu.perform, written]
      rfl
  | sti next => rfl
  | assign next => rfl
  | deref next =>
      rw [Cpu.perform, if_pos safe.2.1]
      rfl

structure Linked (address : InterruptHandler → UInt64) (code : Nat → PortProgram Unit) : Prop where
  irq1 : code (address .irq1InterruptHandler).toNat = irq1InterruptHandler
  irq12 : code (address .irq12InterruptHandler).toNat = irq12InterruptHandler

def Vectored (line : Fin 16) (vector : UInt8) : Prop :=
  line = 1 ∧ vector = 0x21 ∨ line = 12 ∧ vector = 0x2c

variable {address : InterruptHandler → UInt64} {code : Nat → PortProgram Unit}

/-- The gates of both vectors lead to their handlers, with interrupts disabled. -/
theorem enter_vectored (linked : Linked address code) (idt : Mem) (c : Cpu) {line : Fin 16}
    {vector : UInt8} (vectored : Vectored line vector) (pics : Pics) :
    ∃ handler, Handles line handler ∧
      c.enter (idtSetup address idt) code line vector pics = some { c with
        pics, requests := c.requests.erase line, interruptFlag := false
        handlers := (handler, c.interruptFlag) :: c.handlers,
          served := (line, vector) :: c.served } := by
  rcases vectored with ⟨rfl, rfl⟩ | ⟨rfl, rfl⟩
  · have gate := (idtSetup_gate address idt 0x21).1 ⟨0x21, .irq1InterruptHandler, idtTypeInterrupt⟩
      (List.mem_of_getElem? (i := 22) rfl) rfl
    refine ⟨irq1InterruptHandler, Or.inl ⟨rfl, rfl⟩, ?_⟩
    rw [Cpu.enter, gate]
    simp [linked.irq1]
  · have gate := (idtSetup_gate address idt 0x2c).1 ⟨0x2c, .irq12InterruptHandler, idtTypeInterrupt⟩
      (List.mem_of_getElem? (i := 23) rfl) rfl
    refine ⟨irq12InterruptHandler, Or.inr ⟨rfl, rfl⟩, ?_⟩
    rw [Cpu.enter, gate]
    simp [linked.irq12]

/-- The handler of the mouse was entered before `initialize_cursor`. -/
structure Cpu.Stuck (c : Cpu) : Prop where
  null : c.cursor = false
  under : c.handlers ≠ []
  mouse : c.served.head?.map Prod.fst = some 12

def Faults (p : PortProgram Unit) : Prop := p = irq12InterruptHandler ∨ ∃ next, p = .deref next

/-- The state of the processor in every run: the interrupted code goes on as if there were no
interrupts, and at most one handler is under way. -/
inductive Steady (post : Unit → Pics → Bool → Bool → Prop) (c : Cpu) : Prop
  | idle (alone : c.handlers = [])
      (safe : Safe Pics.Reads Pics.write EnabledQuiet post c.program c.pics c.cursor
        c.interruptFlag)
  | handling {p : PortProgram Unit} {d : Pics} {assigned : Bool} (one : c.handlers = [(p, true)])
      (off : c.interruptFlag = false)
      (handler : Safe Pics.Reads Pics.write HandlerRuns (HandlerEnds d assigned) p c.pics
        c.cursor false)
      (safe : Safe Pics.Reads Pics.write EnabledQuiet post c.program d assigned true)
      (goes : ¬c.Stuck)
  | faulting {p : PortProgram Unit} (one : c.handlers = [(p, true)]) (off : c.interruptFlag = false)
      (ready : c.pics.Ready) (faults : Faults p) (stuck : c.Stuck)

theorem Cpu.Stuck.of_eq (stuck : c.Stuck) (cursor : c'.cursor = c.cursor)
    (handlers : c.handlers ≠ [] → c'.handlers ≠ []) (served : c'.served = c.served) : c'.Stuck where
  null := cursor.trans stuck.null
  under := handlers stuck.under
  mouse := by
    rw [served]
    exact stuck.mouse

theorem Performed.goes (performed : Performed c c') (goes : ¬c.Stuck) (under : c.handlers ≠ [])
    (handlers : List (PortProgram Unit × Bool)) : ¬{ c' with handlers }.Stuck := by
  intro stuck
  have null : c.cursor = false := by
    by_contra assigned
    have kept := performed.cursor (Bool.eq_true_of_not_eq_false assigned)
    cases kept.symm.trans stuck.null
  have mouse := stuck.mouse
  rw [performed.served] at mouse
  exact goes ⟨null, under, mouse⟩

theorem faults_perform (faults : Faults p) (null : c.cursor = false)
    (made : c.perform p answer = some (p', c')) : Faults p' ∧ c' = c := by
  rcases faults with rfl | ⟨next, rfl⟩
  · cases made
    exact ⟨Or.inr ⟨_, rfl⟩, rfl⟩
  · rw [Cpu.perform, null] at made
    cases made

def Cpu.Enabled (c : Cpu) : Prop := c.interruptFlag = true ∨ c.handlers ≠ []

/-- How often the line was served or is about to be, beyond how often its request was latched. -/
def Cpu.balance (c : Cpu) (line : Fin 16) : Int :=
  (c.served.map Prod.fst).count line + (if line ∈ c.requests then 1 else 0) - c.taken.count line

structure Reckoned (c c' : Cpu) : Prop where
  vectors : ∀ e ∈ c'.served, e ∈ c.served ∨ Vectored e.1 e.2
  enabled : c.Enabled → c'.Enabled
  balanced : c.Enabled → ∀ line, c'.balance line = c.balance line

theorem request_steady (steady : Steady post c) (line : Fin 16) :
    let c' := { c with
      requests := insert line c.requests, taken := if line ∈ c.requests then c.taken
        else line :: c.taken }
    Steady post c' ∧ Reckoned c c' := by
  constructor
  · cases steady with
    | idle alone safe => exact .idle alone safe
    | handling one off handler safe goes =>
        exact .handling one off handler safe fun stuck => goes (stuck.of_eq rfl id rfl)
    | faulting one off ready faults stuck =>
        exact .faulting one off ready faults (stuck.of_eq rfl id rfl)
  · refine ⟨fun e member => Or.inl member, id, ?_⟩
    intro _ other
    by_cases again : line ∈ c.requests
    · simp [Cpu.balance, again]
    · by_cases same : other = line
      · subst same
        simp only [Cpu.balance, Finset.mem_insert_self, if_true, again, if_false,
          List.count_cons_self]
        omega
      · simp [Cpu.balance, again, same, Ne.symm same]

theorem Performed.reckoned (performed : Performed c c') (kept : c.Enabled → c'.pics.Ready)
    (handlers : c.handlers ≠ [] → c'.handlers ≠ []) : Reckoned c c' where
  vectors := fun e member => Or.inl (performed.served ▸ member)
  enabled := fun enabled => enabled.imp performed.enabled handlers
  balanced := by
    intro enabled line
    rw [Cpu.balance, Cpu.balance, performed.served, performed.taken,
      performed.requests (kept enabled)]

theorem access_steady {idt : Mem} (steady : Steady post c)
    (made : c.step idt code (.access answer) = some c') : Steady post c' ∧ Reckoned c c' := by
  cases steady with
  | idle alone safe =>
      rw [Cpu.step, alone, Option.map_eq_some_iff] at made
      obtain ⟨⟨p', c1⟩, made, rfl⟩ := made
      have safe' := perform_safe safe made
      have performed := perform_performed made
      have kept : c.Enabled → c1.pics.Ready := by
        intro enabled
        have on := enabled.resolve_right (not_not.mpr alone)
        exact (safe'.invariant (performed.enabled on)).configured.ready
      have reckoned := performed.reckoned kept fun some => absurd alone some
      constructor
      · exact .idle (performed.handlers.trans alone) safe'
      · exact ⟨reckoned.vectors, reckoned.enabled, reckoned.balanced⟩
  | @handling p d assigned one off handler safe goes =>
      rw [Cpu.step, one, Option.map_eq_some_iff] at made
      obtain ⟨⟨p', c1⟩, made, rfl⟩ := made
      rw [← off] at handler
      have handler' := perform_safe handler made
      have performed := perform_performed made
      have runs := handler'.invariant
      have under : c.handlers ≠ [] := by
        rw [one]
        exact List.cons_ne_nil _ _
      have reckoned := performed.reckoned (fun _ => runs.1) fun some => performed.handlers ▸ some
      constructor
      · apply Steady.handling (c := { c1 with handlers := [(p', true)] }) (p := p') (d := d) rfl
          runs.2
        · rw [runs.2] at handler'
          exact handler'
        · rw [← performed.program] at safe
          exact safe
        · exact performed.goes goes under _
      · exact ⟨reckoned.vectors, fun _ => Or.inr (List.cons_ne_nil _ _), reckoned.balanced⟩
  | @faulting p one off ready faults stuck =>
      rw [Cpu.step, one, Option.map_eq_some_iff] at made
      obtain ⟨⟨p', c1⟩, made, rfl⟩ := made
      obtain ⟨faults', rfl⟩ := faults_perform faults stuck.null made
      have stuck' : { c1 with handlers := [(p', true)] }.Stuck :=
        stuck.of_eq rfl (fun _ => List.cons_ne_nil _ _) rfl
      constructor
      · exact .faulting (p := p') rfl off ready faults' stuck'
      · exact ⟨fun e member => Or.inl member, fun _ => Or.inr (List.cons_ne_nil _ _),
          fun _ _ => rfl⟩

theorem entered_reckoned {line : Fin 16} {vector : UInt8} (vectored : Vectored line vector)
    (requested : line ∈ c.requests) (pics : Pics) (p : PortProgram Unit) (flag : Bool) :
    Reckoned c { c with
      pics, requests := c.requests.erase line, interruptFlag := false
      handlers := (p, flag) :: c.handlers, served := (line, vector) :: c.served } where
  vectors := by
    intro e member
    rcases List.mem_cons.mp member with rfl | earlier
    · exact Or.inr vectored
    · exact Or.inl earlier
  enabled := fun _ => Or.inr (List.cons_ne_nil _ _)
  balanced := by
    intro _ other
    by_cases same : other = line
    · subst same
      simp only [Cpu.balance, List.map_cons, List.count_cons_self, Finset.notMem_erase,
        if_false, requested, if_true]
      omega
    · simp [Cpu.balance, same, Ne.symm same]

theorem interrupt_steady (linked : Linked address code) {idt : Mem} (steady : Steady post c)
    (made : c.step (idtSetup address idt) code .interrupt = some c') :
    Steady post c' ∧ Reckoned c c' := by
  by_cases on : c.interruptFlag = true
  · rw [Cpu.step, if_pos on] at made
    cases steady with
    | idle alone safe =>
        have quiet := safe.invariant on
        cases found : c.pics.acknowledge c.requests with
        | none =>
            rw [found] at made
            cases made
        | some acknowledged =>
            obtain ⟨line, vector, pics⟩ := acknowledged
            obtain ⟨vectored, requested, rfl⟩ := acknowledge_quiet quiet found
            obtain ⟨handler, handles, entered⟩ :=
              enter_vectored linked idt c vectored (c.pics.serving line)
            rw [found] at made
            obtain rfl := Option.some.inj (entered.symm.trans made)
            refine ⟨?_, entered_reckoned vectored requested _ handler _⟩
            rw [alone, on]
            rw [on] at safe
            by_cases null : line = 12 ∧ c.cursor = false
            · obtain ⟨rfl, null⟩ := null
              have mouse : handler = irq12InterruptHandler :=
                handles.elim (fun keyboard => absurd keyboard.1 (by decide)) And.right
              exact .faulting rfl rfl (quiet.serving_ready 12) (Or.inl mouse)
                ⟨null, List.cons_ne_nil _ _, rfl⟩
            · have pointers : line = 12 → c.cursor = true := by
                intro mouse
                by_contra unset
                exact null ⟨mouse, Bool.eq_false_of_not_eq_true unset⟩
              refine .handling rfl rfl (handler_safe quiet handles pointers) safe ?_
              intro stuck
              have mouse : line = 12 := Option.some.inj stuck.mouse
              exact null ⟨mouse, stuck.null⟩
    | handling one off handler safe goes =>
        rw [off] at on
        cases on
    | faulting one off ready faults stuck =>
        rw [off] at on
        cases on
  · rw [Cpu.step, if_neg on] at made
    cases made

theorem iret_steady {idt : Mem} (steady : Steady post c) (made : c.step idt code .iret = some c') :
    Steady post c' ∧ Reckoned c c' := by
  cases steady with
  | idle alone safe =>
      rw [Cpu.step, alone] at made
      cases made
  | @handling p d assigned one off handler safe goes =>
      rw [Cpu.step, one] at made
      cases p with
      | done u =>
          cases made
          obtain ⟨_, same, kept, _⟩ := handler
          constructor
          · apply Steady.idle rfl
            rw [same, kept]
            exact safe
          · exact ⟨fun e member => Or.inl member, fun _ => Or.inl rfl, fun _ _ => rfl⟩
      | inb port next => cases made
      | outb port val next => cases made
      | sti next => cases made
      | assign next => cases made
      | deref next => cases made
  | @faulting p one off ready faults stuck =>
      rw [Cpu.step, one] at made
      rcases faults with rfl | ⟨next, rfl⟩
      · cases made
      · cases made

theorem step_steady (linked : Linked address code) {idt : Mem} (steady : Steady post c)
    {e : InterruptEvent} (made : c.step (idtSetup address idt) code e = some c') :
    Steady post c' ∧ Reckoned c c' := by
  cases e with
  | request line =>
      rw [Cpu.step] at made
      by_cases wired : line = 2
      · rw [if_pos wired] at made
        cases made
      · rw [if_neg wired] at made
        cases made
        exact request_steady steady line
  | access answer => exact access_steady steady made
  | interrupt => exact interrupt_steady linked steady made
  | iret => exact iret_steady steady made

end Steps

section Runs

variable {address : InterruptHandler → UInt64} {code : Nat → PortProgram Unit} {idt : Mem}
  {rest : PortProgram Unit} {post : Unit → Pics → Bool → Bool → Prop} {start c c' : Cpu}
  {events : List InterruptEvent}

def Cpu.Step (address : InterruptHandler → UInt64) (idt : Mem) (code : Nat → PortProgram Unit)
    (c : Cpu) (e : InterruptEvent) (c' : Cpu) : Prop :=
  c.step (idtSetup address idt) code e = some c'

structure Cpu.Starts (rest : PortProgram Unit) (c : Cpu) : Prop where
  disabled : c.interruptFlag = false
  null : c.cursor = false
  alone : c.handlers = []
  unserved : c.served = []
  program : c.program = bootPorts rest

theorem Cpu.Starts.steady (starts : c.Starts rest) (leaves : Leaves Pics.write rest) :
    Steady Booted c := by
  apply Steady.idle starts.alone
  rw [starts.program, starts.disabled]
  exact bootPorts_safe leaves c.pics c.cursor

theorem steady_run (linked : Linked address code) (steady : Steady Booted c)
    (run : Run (Cpu.Step address idt code) c events c') : Steady Booted c' ∧ Reckoned c c' := by
  induction run with
  | nil c => exact ⟨steady, fun e member => Or.inl member, id, fun _ _ => rfl⟩
  | cons first _ ih =>
      obtain ⟨next, here⟩ := step_steady linked steady first
      obtain ⟨last, there⟩ := ih next
      refine ⟨last, ?_, fun enabled => there.enabled (here.enabled enabled), ?_⟩
      · intro e member
        rcases there.vectors e member with earlier | vectored
        · exact here.vectors e earlier
        · exact Or.inr vectored
      · intro enabled line
        exact (there.balanced (here.enabled enabled) line).trans (here.balanced enabled line)

def Cpu.current (c : Cpu) : PortProgram Unit :=
  match c.handlers with
  | [] => c.program
  | (p, _) :: _ => p

structure Cpu.Sound (idt : Mem) (code : Nat → PortProgram Unit) (c : Cpu) : Prop where
  /-- Only the two lines with handlers were ever acknowledged, each with its vector. -/
  vectors : ∀ e ∈ c.served, Vectored e.1 e.2
  /-- Handlers do not interrupt each other. -/
  nesting : c.handlers.length ≤ 1
  /-- Whenever interrupts are enabled, nothing is in service and no other line is open. -/
  quiet : c.interruptFlag = true → c.pics.Quiet
  /-- Every interrupt enters a handler. -/
  enters : c.interruptFlag = true → (c.pics.acknowledge c.requests).isSome = true →
    (c.step idt code .interrupt).isSome = true
  /-- A mouse interrupt before `initialize_cursor` is the end of all handlers and of the boot. -/
  stays : c.Stuck → ∀ e c', c.step idt code e = some c' → c'.Stuck
  /-- Otherwise the code that runs can make every access. -/
  goesOn : ¬c.Stuck → ∀ answer, (∀ u, c.current ≠ .done u) →
    (c.step idt code (.access answer)).isSome = true
  /-- After the boot exactly the lines of the keyboard, of the slave and of the mouse are open. -/
  booted : c.program = .done () → c.handlers = [] →
    c.interruptFlag = true ∧ ∀ l, c.pics.Unmasked l ↔ l = 1 ∨ l = 2 ∨ l = 12

theorem Steady.stays {idt : Mem} (steady : Steady post c) (stuck : c.Stuck) {e : InterruptEvent}
    (made : c.step idt code e = some c') : c'.Stuck := by
  cases steady with
  | idle alone _ => exact absurd alone stuck.under
  | handling _ _ _ _ goes => exact absurd stuck goes
  | @faulting p one off _ faults _ =>
      cases e with
      | request line =>
          rw [Cpu.step] at made
          by_cases wired : line = 2
          · rw [if_pos wired] at made
            cases made
          · rw [if_neg wired] at made
            cases made
            exact stuck.of_eq rfl id rfl
      | access answer =>
          rw [Cpu.step, one, Option.map_eq_some_iff] at made
          obtain ⟨⟨p', c1⟩, made, rfl⟩ := made
          obtain ⟨_, rfl⟩ := faults_perform faults stuck.null made
          exact stuck.of_eq rfl (fun _ => List.cons_ne_nil _ _) rfl
      | interrupt =>
          rw [Cpu.step, if_neg (by simp [off])] at made
          cases made
      | iret =>
          rw [Cpu.step, one] at made
          rcases faults with rfl | ⟨next, rfl⟩
          · cases made
          · cases made

theorem Steady.quiet (steady : Steady post c) (on : c.interruptFlag = true) : c.pics.Quiet := by
  cases steady with
  | idle _ safe => exact safe.invariant on
  | handling _ off _ _ _ => cases off.symm.trans on
  | faulting _ off _ _ _ => cases off.symm.trans on

theorem Steady.sound (steady : Steady Booted c) (linked : Linked address code) (idt : Mem)
    (vectors : ∀ e ∈ c.served, Vectored e.1 e.2) : c.Sound (idtSetup address idt) code where
  vectors := vectors
  nesting := by
    cases steady with
    | idle alone _ => rw [alone]; exact Nat.zero_le 1
    | handling one _ _ _ _ => rw [one]; exact Nat.le_refl 1
    | faulting one _ _ _ _ => rw [one]; exact Nat.le_refl 1
  quiet := steady.quiet
  enters := by
    intro on acknowledged
    cases steady with
    | idle _ safe =>
        obtain ⟨⟨line, vector, pics⟩, found⟩ := Option.isSome_iff_exists.mp acknowledged
        obtain ⟨vectored, _, _⟩ := acknowledge_quiet (safe.invariant on) found
        obtain ⟨handler, _, entered⟩ := enter_vectored linked idt c vectored pics
        rw [Cpu.step, if_pos on, found]
        exact Option.isSome_iff_exists.mpr ⟨_, entered⟩
    | handling _ off _ _ _ => cases off.symm.trans on
    | faulting _ off _ _ _ => cases off.symm.trans on
  stays := fun stuck _ _ made => steady.stays stuck made
  goesOn := by
    intro goes answer more
    cases steady with
    | idle alone safe =>
        rw [Cpu.current, alone] at more
        rw [Cpu.step, alone, Option.isSome_map]
        exact perform_isSome safe more answer
    | handling one off handler _ _ =>
        rw [Cpu.current, one] at more
        rw [← off] at handler
        rw [Cpu.step, one, Option.isSome_map]
        exact perform_isSome handler more answer
    | faulting _ _ _ _ stuck => exact absurd stuck goes
  booted := by
    intro done alone
    cases steady with
    | idle _ safe =>
        rw [done] at safe
        obtain ⟨_, on, _, opened⟩ := safe
        refine ⟨on, fun l => ?_⟩
        rw [opened.2]
        simp only [List.mem_cons, List.not_mem_nil, or_false]
        tauto
    | handling one _ _ _ _ =>
        rw [alone] at one
        cases one
    | faulting one _ _ _ _ =>
        rw [alone] at one
        cases one

/-- Interrupts are delivered in every state of every run, whenever the devices ask for them and
whatever they answer during the boot, in the handlers and later. -/
theorem interrupts_delivered (linked : Linked address code) (leaves : Leaves Pics.write rest)
    (starts : start.Starts rest) (run : Run (Cpu.Step address idt code) start events c) :
    c.Sound (idtSetup address idt) code := by
  obtain ⟨steady, reckoned⟩ := steady_run linked (starts.steady leaves) run
  apply steady.sound linked idt
  intro e member
  have new := reckoned.vectors e member
  rw [starts.unserved] at new
  exact new.resolve_left (List.not_mem_nil)

def Cpu.pending (c : Cpu) (line : Fin 16) : Nat := if line ∈ c.requests then 1 else 0

def Cpu.entries (c : Cpu) (line : Fin 16) : Nat := (c.served.map Prod.fst).count line

/-- Once interrupts were enabled no request is lost and none is served twice: the handler is entered
for what was pending and for every request latched since, except for one that is pending now. -/
theorem requests_conserved (linked : Linked address code) (leaves : Leaves Pics.write rest)
    (starts : start.Starts rest) {before after : List InterruptEvent}
    (boot : Run (Cpu.Step address idt code) start before c) (enabled : c.Enabled)
    (run : Run (Cpu.Step address idt code) c after c') (line : Fin 16) :
    c'.entries line + c'.pending line + c.taken.count line = c.entries line + c.pending line +
      c'.taken.count line := by
  have steady := (steady_run linked (starts.steady leaves) boot).1
  have balanced := (steady_run linked steady run).2.balanced enabled line
  unfold Cpu.balance at balanced
  unfold Cpu.entries Cpu.pending
  split_ifs at balanced ⊢ <;> omega

def InterruptEvent.Internal : InterruptEvent → Prop
  | .request _ => False
  | _ => True

theorem InterruptEvent.internal_interrupt : InterruptEvent.interrupt.Internal := trivial

theorem InterruptEvent.internal_access (answer : UInt8) :
    (InterruptEvent.access answer).Internal := trivial

/-- No mouse interrupt was taken before `initialize_cursor`, and none is waiting there. -/
structure Cpu.Clear (c : Cpu) : Prop where
  goes : ¬c.Stuck
  waits : c.cursor = false → 12 ∉ c.requests

theorem Performed.clear (performed : Performed c c') (clear : c.Clear)
    {handlers : List (PortProgram Unit × Bool)} {program : PortProgram Unit}
    (under : handlers ≠ [] → c.handlers ≠ []) : { c' with handlers, program }.Clear where
  goes := fun stuck =>
    performed.goes clear.goes (under stuck.under) handlers (stuck.of_eq rfl id rfl)
  waits := by
    intro null
    have before : c.cursor = false := by
      by_contra assigned
      have kept := performed.cursor (Bool.eq_true_of_not_eq_false assigned)
      cases kept.symm.trans null
    exact fun member => clear.waits before (performed.fewer member)

theorem step_clear (linked : Linked address code) (steady : Steady Booted c) (clear : c.Clear)
    {e : InterruptEvent} (internal : e.Internal) (made : Cpu.Step address idt code c e c') :
    c'.Clear := by
  cases e with
  | request line => exact internal.elim
  | access answer =>
      rw [Cpu.Step, Cpu.step] at made
      split at made
      · rename_i alone
        rw [Option.map_eq_some_iff] at made
        obtain ⟨⟨p', c1⟩, made, rfl⟩ := made
        have performed := perform_performed made
        exact performed.clear clear fun under => performed.handlers ▸ under
      · rename_i p flag rest one
        rw [Option.map_eq_some_iff] at made
        obtain ⟨⟨p', c1⟩, made, rfl⟩ := made
        have under : c.handlers ≠ [] := by
          rw [one]
          exact List.cons_ne_nil _ _
        exact (perform_performed made).clear clear fun _ => under
  | interrupt =>
      rw [Cpu.Step, Cpu.step] at made
      split_ifs at made with on
      split at made
      · cases made
      · rename_i line vector pics found
        obtain ⟨vectored, requested, rfl⟩ := acknowledge_quiet (steady.quiet on) found
        obtain ⟨handler, handles, entered⟩ :=
          enter_vectored linked idt c vectored (c.pics.serving line)
        obtain rfl := Option.some.inj (entered.symm.trans made)
        constructor
        · intro stuck
          have mouse : line = 12 := Option.some.inj stuck.mouse
          exact clear.waits stuck.null (mouse ▸ requested)
        · exact fun null member => clear.waits null (Finset.mem_of_mem_erase member)
  | iret =>
      rw [Cpu.Step, Cpu.step] at made
      split at made
      · rename_i flag rest one
        cases made
        constructor
        · intro stuck
          have under : c.handlers ≠ [] := by
            rw [one]
            exact List.cons_ne_nil _ _
          exact clear.goes (stuck.of_eq rfl (fun _ => under) rfl)
        · exact clear.waits
      · cases made

theorem clear_run (linked : Linked address code) (steady : Steady Booted c) (clear : c.Clear)
    (internal : ∀ e ∈ events, e.Internal) (run : Run (Cpu.Step address idt code) c events c') :
    c'.Clear := by
  have preserved : ∀ c e next, e.Internal → Steady Booted c ∧ c.Clear →
      Cpu.Step address idt code c e next → Steady Booted next ∧ next.Clear := by
    intro c e next internal here made
    exact ⟨(step_steady linked here.1 made).1, step_clear linked here.1 here.2 internal made⟩
  exact (invariant_on preserved run internal ⟨steady, clear⟩).2

/-- A handler under way comes to its end and returns. -/
theorem handler_returns (address : InterruptHandler → UInt64) (idt : Mem)
    (code : Nat → PortProgram Unit) {p : PortProgram Unit} {d : Pics} {assigned : Bool}
    (one : c.handlers = [(p, true)]) (off : c.interruptFlag = false)
    (handler : Safe Pics.Reads Pics.write HandlerRuns (HandlerEnds d assigned) p c.pics
      c.cursor false) :
    ∃ events, (∀ e ∈ events, e.Internal) ∧ Run (Cpu.Step address idt code) c events
      { c with pics := d, cursor := assigned, interruptFlag := true, handlers := [] } := by
  induction p generalizing c with
  | done u =>
      obtain ⟨_, same, kept, _⟩ := handler
      refine ⟨[.iret], by simp [InterruptEvent.Internal], .cons ?_ (.nil _)⟩
      rw [Cpu.Step, Cpu.step, one, ← same, ← kept]
  | inb port next ih =>
      have later := ih (c.pics.read port 0)
        (c := { c with handlers := [(next (c.pics.read port 0), true)] }) rfl off
        (handler.2 _ ⟨0, rfl⟩)
      obtain ⟨events, internal, run⟩ := later
      refine ⟨.access 0 :: events, List.forall_mem_cons.mpr ⟨trivial, internal⟩, .cons ?_ run⟩
      rw [Cpu.Step, Cpu.step, one]
      rfl
  | outb port val next ih =>
      obtain ⟨_, d1, written, rest⟩ := handler
      have later := ih (c := { c with pics := d1, handlers := [(next, true)] }) rfl off rest
      obtain ⟨events, internal, run⟩ := later
      refine ⟨.access 0 :: events, List.forall_mem_cons.mpr ⟨trivial, internal⟩, .cons ?_ run⟩
      simp only [Cpu.Step, Cpu.step, one, Cpu.perform, written, Option.map_some,
        latched_eq written rest.invariant.1]
  | sti next ih => exact absurd handler.2.invariant.2 (by decide)
  | assign next ih =>
      have later := ih (c := { c with cursor := true, handlers := [(next, true)] })
        rfl off handler.2
      obtain ⟨events, internal, run⟩ := later
      refine ⟨.access 0 :: events, List.forall_mem_cons.mpr ⟨trivial, internal⟩, .cons ?_ run⟩
      rw [Cpu.Step, Cpu.step, one]
      rfl
  | deref next ih =>
      obtain ⟨_, pointers, rest⟩ := handler
      have later := ih (c := { c with handlers := [(next, true)] }) rfl off rest
      obtain ⟨events, internal, run⟩ := later
      refine ⟨.access 0 :: events, List.forall_mem_cons.mpr ⟨trivial, internal⟩, .cons ?_ run⟩
      simp only [Cpu.Step, Cpu.step, one, Cpu.perform, if_pos pointers, Option.map_some]

def Cpu.serving (c : Cpu) (line : Fin 16) (vector : UInt8) (handler : PortProgram Unit) : Cpu :=
  { c with
    pics := c.pics.serving line, requests := c.requests.erase line, interruptFlag := false
    handlers := (handler, c.interruptFlag) :: c.handlers, served := (line, vector) :: c.served }

/-- Between handlers, the boot over, a request of the keyboard or of the mouse is served. -/
theorem request_served (idt : Mem) (linked : Linked address code) (alone : c.handlers = [])
    (booted : Booted () c.pics c.cursor c.interruptFlag)
    (requested : 1 ∈ c.requests ∨ 12 ∈ c.requests) :
    ∃ line ∈ c.requests, ∃ served events, (∀ e ∈ events, e.Internal) ∧
      Run (Cpu.Step address idt code) c events
        { c with requests := c.requests.erase line, served } := by
  obtain ⟨on, assigned, opened⟩ := booted
  have quiet := opened.quiet (by decide)
  have isOpen : ∀ l ∈ [12, 2, 1], c.pics.Unmasked l := fun l member => (opened.2 l).mpr member
  have found := acknowledge_isSome quiet (isOpen 1 (by decide)) (isOpen 2 (by decide))
    (isOpen 12 (by decide)) requested
  obtain ⟨⟨line, vector, pics⟩, found⟩ := Option.isSome_iff_exists.mp found
  obtain ⟨vectored, member, rfl⟩ := acknowledge_quiet quiet found
  obtain ⟨handler, handles, entered⟩ := enter_vectored linked idt c vectored (c.pics.serving line)
  have first : Cpu.Step address idt code c .interrupt (c.serving line vector handler) := by
    rw [Cpu.Step, Cpu.step, if_pos on, found]
    exact entered
  have one : (c.serving line vector handler).handlers = [(handler, true)] := by
    rw [Cpu.serving, alone, on]
  have safe := handler_safe quiet handles fun _ => assigned
  have returned : ∃ events, (∀ e ∈ events, e.Internal) ∧
      Run (Cpu.Step address idt code) (c.serving line vector handler) events { c with
        requests := c.requests.erase line, interruptFlag := true, handlers := []
        served := (line, vector) :: c.served } := handler_returns address idt code one rfl safe
  obtain ⟨events, internal, run⟩ := returned
  rw [← on, ← alone] at run
  exact ⟨line, member, _, _, List.forall_mem_cons.mpr ⟨InterruptEvent.internal_interrupt, internal⟩,
    .cons first run⟩

structure Cpu.Finished (c : Cpu) : Prop where
  program : c.program = .done ()
  alone : c.handlers = []
  booted : Booted () c.pics c.cursor c.interruptFlag

theorem program_finishes (address : InterruptHandler → UInt64) (idt : Mem)
    (code : Nat → PortProgram Unit) {p : PortProgram Unit} (program : c.program = p)
    (alone : c.handlers = [])
    (safe : Safe Pics.Reads Pics.write EnabledQuiet Booted p c.pics c.cursor c.interruptFlag) :
    ∃ events c', (∀ e ∈ events, e.Internal) ∧ Run (Cpu.Step address idt code) c events c' ∧
      c'.Finished := by
  induction p generalizing c with
  | done u => exact ⟨[], c, by simp, .nil c, program, alone, safe.2⟩
  | inb port next ih =>
      obtain ⟨events, c', internal, run, finished⟩ := ih (c.pics.read port 0)
        (c := { c with program := next (c.pics.read port 0) }) rfl alone (safe.2 _ ⟨0, rfl⟩)
      refine ⟨.access 0 :: events, c',
        List.forall_mem_cons.mpr ⟨InterruptEvent.internal_access 0, internal⟩,
        .cons ?_ run, finished⟩
      simp only [Cpu.Step, Cpu.step, alone, program, Cpu.perform, Option.map_some]
  | outb port val next ih =>
      obtain ⟨_, d, written, later⟩ := safe
      obtain ⟨events, c', internal, run, finished⟩ := ih
        (c := { c with pics := d, requests := Pics.latched port val c.requests, program := next })
          rfl alone later
      refine ⟨.access 0 :: events, c',
        List.forall_mem_cons.mpr ⟨InterruptEvent.internal_access 0, internal⟩,
        .cons ?_ run, finished⟩
      simp only [Cpu.Step, Cpu.step, alone, program, Cpu.perform, written, Option.map_some]
  | sti next ih =>
      obtain ⟨events, c', internal, run, finished⟩ :=
        ih (c := { c with interruptFlag := true, program := next }) rfl
        alone safe.2
      refine ⟨.access 0 :: events, c',
        List.forall_mem_cons.mpr ⟨InterruptEvent.internal_access 0, internal⟩,
        .cons ?_ run, finished⟩
      simp only [Cpu.Step, Cpu.step, alone, program, Cpu.perform, Option.map_some]
  | assign next ih =>
      obtain ⟨events, c', internal, run, finished⟩ :=
        ih (c := { c with cursor := true, program := next }) rfl
        alone safe.2
      refine ⟨.access 0 :: events, c',
        List.forall_mem_cons.mpr ⟨InterruptEvent.internal_access 0, internal⟩,
        .cons ?_ run, finished⟩
      simp only [Cpu.Step, Cpu.step, alone, program, Cpu.perform, Option.map_some]
  | deref next ih =>
      obtain ⟨_, pointers, later⟩ := safe
      obtain ⟨events, c', internal, run, finished⟩ :=
        ih (c := { c with program := next }) rfl alone later
      refine ⟨.access 0 :: events, c',
        List.forall_mem_cons.mpr ⟨InterruptEvent.internal_access 0, internal⟩,
        .cons ?_ run, finished⟩
      simp only [Cpu.Step, Cpu.step, alone, program, Cpu.perform, if_pos pointers, Option.map_some]

/-- In every state but those of the fault the devices can wait for the handlers and for the end of
the boot. -/
theorem steady_finishes (address : InterruptHandler → UInt64) (idt : Mem)
    (code : Nat → PortProgram Unit) (steady : Steady Booted c) (goes : ¬c.Stuck) :
    ∃ events c', (∀ e ∈ events, e.Internal) ∧ Run (Cpu.Step address idt code) c events c' ∧
      c'.Finished := by
  cases steady with
  | idle alone safe => exact program_finishes address idt code rfl alone safe
  | @handling p d assigned one off handler safe _ =>
      obtain ⟨events, internal, run⟩ := handler_returns address idt code one off handler
      obtain ⟨later, c', internal', run', finished⟩ := program_finishes address idt code
        (c := { c with pics := d, cursor := assigned, interruptFlag := true, handlers := [] })
          rfl rfl safe
      refine ⟨events ++ later, c', ?_, run.append run', finished⟩
      intro e member
      exact (List.mem_append.mp member).elim (internal e) (internal' e)
  | faulting _ _ _ _ stuck => exact absurd stuck goes

theorem requests_emptied (linked : Linked address code) (idt : Mem) {n : Nat}
    (size : c.requests.card = n)
    (finished : c.Finished) :
    ∃ later c', (∀ e ∈ later, e.Internal) ∧ Run (Cpu.Step address idt code) c later c' ∧
      c'.Finished ∧
      1 ∉ c'.requests ∧ 12 ∉ c'.requests := by
  induction n generalizing c with
  | zero =>
      have none := Finset.card_eq_zero.mp size
      exact ⟨[], c, by simp, .nil c, finished, by simp [none], by simp [none]⟩
  | succ n ih =>
      by_cases requested : 1 ∈ c.requests ∨ 12 ∈ c.requests
      · obtain ⟨line, member, served, events, internal, run⟩ :=
          request_served idt linked finished.alone finished.booted requested
        have fewer : (c.requests.erase line).card = n := by
          rw [Finset.card_erase_of_mem member, size, Nat.add_sub_cancel]
        obtain ⟨later, c', internal', run', drained⟩ :=
          ih (c := { c with requests := c.requests.erase line, served }) fewer
            ⟨finished.program, finished.alone, finished.booted⟩
        refine ⟨events ++ later, c', ?_, run.append run', drained⟩
        intro e member
        exact (List.mem_append.mp member).elim (internal e) (internal' e)
      · rw [not_or] at requested
        exact ⟨[], c, by simp, .nil c, finished, requested.1, requested.2⟩

/-- Whatever the processor does without new requests, if the handler of the mouse was not entered
before `initialize_cursor` and is not about to be, the boot can finish with no request of the
keyboard or of the mouse left. -/
theorem requests_drain (linked : Linked address code) (leaves : Leaves Pics.write rest)
    (starts : start.Starts rest) {before during : List InterruptEvent}
    (run : Run (Cpu.Step address idt code) start before c) (clear : c.Clear)
    (internal : ∀ e ∈ during, e.Internal) (goes : Run (Cpu.Step address idt code) c during c') :
    ∃ later last, (∀ e ∈ later, e.Internal) ∧ Run (Cpu.Step address idt code) c' later last ∧
      last.program = .done () ∧ last.handlers = [] ∧ last.interruptFlag = true ∧ 1 ∉ last.requests ∧
      12 ∉ last.requests := by
  have steady := (steady_run linked (starts.steady leaves) run).1
  have steady' := (steady_run linked steady goes).1
  have clear' := clear_run linked steady clear internal goes
  obtain ⟨finish, c1, internal1, run1, finished⟩ :=
    steady_finishes address idt code steady' clear'.goes
  obtain ⟨later, c2, internal2, run2, ended, drained⟩ := requests_emptied linked idt rfl finished
  refine ⟨finish ++ later, c2, ?_, run1.append run2, ended.program, ended.alone,
    ended.booted.1, drained⟩
  intro e member
  exact (List.mem_append.mp member).elim (internal1 e) (internal2 e)

/-! A machine on which the handler of the mouse is at address 12. -/

def handlerAddress : InterruptHandler → UInt64
  | .irq12InterruptHandler => 12
  | _ => 0

def handlerCode (place : Nat) : PortProgram Unit :=
  if place = 12 then irq12InterruptHandler else irq1InterruptHandler

theorem handlerCode_linked : Linked handlerAddress handlerCode := ⟨rfl, rfl⟩

def cursorPorts : PortProgram Unit := do
  termEnableCursor
  termUpdateCursor ⟨fun _ => 0, 0, 0⟩

theorem leaves_cursorPorts : Leaves Pics.write cursorPorts :=
  leaves_termEnableCursor.bind fun _ => leaves_termUpdateCursor _

def pressedCpu : Cpu where
  pics := initialised
  requests := {1}
  interruptFlag := false
  cursor := false
  program := bootPorts cursorPorts
  handlers := []
  taken := [1]
  served := []

theorem pressedCpu_starts : pressedCpu.Starts cursorPorts := ⟨rfl, rfl, rfl, rfl, rfl⟩

theorem pressedCpu_clear : pressedCpu.Clear where
  goes := fun stuck => stuck.under rfl
  waits := fun _ => (by decide : (12 : Fin 16) ∉ ({1} : Finset (Fin 16)))

theorem pressed_boots :
    ∃ boot c, Run (Cpu.Step handlerAddress (fun _ => 0) handlerCode) pressedCpu boot c ∧
      c.Finished := by
  obtain ⟨boot, c, _, run, finished⟩ := steady_finishes handlerAddress (fun _ => 0) handlerCode
    (pressedCpu_starts.steady leaves_cursorPorts) pressedCpu_clear.goes
  exact ⟨boot, c, run, finished⟩

theorem pressed_delivered :
    ∃ boot c, Run (Cpu.Step handlerAddress (fun _ => 0) handlerCode) pressedCpu boot c ∧
      c.program = .done () ∧
      c.Sound (idtSetup handlerAddress fun _ => 0) handlerCode := by
  obtain ⟨boot, c, run, finished⟩ := pressed_boots
  exact ⟨boot, c, run, finished.program,
    interrupts_delivered handlerCode_linked leaves_cursorPorts pressedCpu_starts run⟩

theorem pressed_drained :
    ∃ later c, (∀ e ∈ later, e.Internal) ∧
      Run (Cpu.Step handlerAddress (fun _ => 0) handlerCode) pressedCpu later c ∧
      c.program = .done () ∧ c.handlers = [] ∧ c.interruptFlag = true ∧ 1 ∉ c.requests ∧
        12 ∉ c.requests :=
  requests_drain handlerCode_linked leaves_cursorPorts pressedCpu_starts
    (.nil pressedCpu) pressedCpu_clear (by simp)
    (.nil pressedCpu)

theorem pressed_conserved :
    ∃ c c' : Cpu, c.Step handlerAddress (fun _ => 0) handlerCode (.request 12) c' ∧
      c'.entries 12 + c'.pending 12 + c.taken.count 12 =
        c.entries 12 + c.pending 12 + c'.taken.count 12 := by
  obtain ⟨boot, c, run, finished⟩ := pressed_boots
  have moved : c.Step handlerAddress (fun _ => 0) handlerCode (.request 12) _ := rfl
  exact ⟨c, _, moved, requests_conserved handlerCode_linked leaves_cursorPorts pressedCpu_starts run
    (Or.inl finished.booted.1) (.cons moved (.nil _)) 12⟩

end Runs

end PaintKernel
