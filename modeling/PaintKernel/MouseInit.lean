import Mathlib
import PaintKernel.Library.Ports

set_option autoImplicit false

/-! The functions of `mouse.c` that set up the mouse over the ports of its controller. Every `inb`
is an access of its own, as if the assembly of `port.h` were volatile. -/

namespace PaintKernel

open Ports

def readyToRead : UInt8 := 0
def readyToSend : UInt8 := 1

/-- `while (time_out--)` around one poll of the status. -/
def mouseWaitLoop (ready : UInt8 → Bool) : Nat → PortProgram Unit
  | 0 => return ()
  | timeOut + 1 => do
      if ready (← inb 0x64) then return ()
      else mouseWaitLoop ready timeOut

def mouseWait (type : UInt8) : PortProgram Unit :=
  let timeOut := 100000
  if type = readyToRead then mouseWaitLoop (fun status => status &&& 1 == 1) timeOut
  else mouseWaitLoop (fun status => status &&& 2 == 0) timeOut

def mouseWrite (data : UInt8) : PortProgram Unit := do
  mouseWait readyToSend
  outb 0x64 0xd4
  mouseWait readyToSend
  outb 0x60 data

def mouseRead : PortProgram UInt8 := do
  mouseWait readyToRead
  inb 0x60

def initializeMouse : PortProgram Unit := do
  mouseWait readyToSend
  outb 0x64 0xA8
  mouseWait readyToSend
  outb 0x64 0x20
  mouseWait readyToRead
  let status := (← inb 0x60) ||| 2
  mouseWait readyToSend
  outb 0x64 0x60
  mouseWait readyToSend
  outb 0x60 status
  mouseWrite 0xFF
  let _ ← mouseRead
  mouseWrite 0xF6
  let _ ← mouseRead
  mouseWrite 0xF4
  let _ ← mouseRead

inductive Message where
  | command (val : UInt8)
  | data (val : UInt8)
  | answer (val : UInt8)

def Message.access : Message → PortAccess
  | .command val => .write 0x64 val
  | .data val => .write 0x60 val
  | .answer val => .read 0x60 val

def Message.Ready : Message → UInt8 → Bool
  | .answer _, status => status &&& 1 == 1
  | _, status => status &&& 2 == 0

/-- The status is read until it is as wanted, or `limit` times if it never is. -/
inductive Polls (ready : UInt8 → Bool) : Nat → List PortAccess → Prop
  | timeOut : Polls ready 0 []
  | ready {limit : Nat} {status : UInt8} (now : ready status = true) :
      Polls ready (limit + 1) [.read 0x64 status]
  | busy {limit : Nat} {status : UInt8} {log : List PortAccess} (not : ready status = false)
      (later : Polls ready limit log) : Polls ready (limit + 1) (.read 0x64 status :: log)

/-- Every message goes after polls for it. -/
inductive Conversation : List Message → List PortAccess → Prop
  | ended : Conversation [] []
  | message {m : Message} {later : List Message} {polls log : List PortAccess}
      (polite : Polls m.Ready 100000 polls) (rest : Conversation later log) :
      Conversation (m :: later) (polls ++ m.access :: log)

theorem mouseWaitLoop_succ (ready : UInt8 → Bool) (timeOut : Nat) :
    mouseWaitLoop ready (timeOut + 1) =
      .inb 0x64 fun status =>
        if ready status = true then .done () else mouseWaitLoop ready timeOut := by
  rw [mouseWaitLoop, inb_bind]
  rfl

theorem trace_mouseWaitLoop (ready : UInt8 → Bool) (timeOut : Nat) (log : List PortAccess)
    (u : Unit) :
    Trace (mouseWaitLoop ready timeOut) log u ↔ Polls ready timeOut log := by
  induction timeOut generalizing log with
  | zero =>
      constructor
      · intro run
        cases run
        exact .timeOut
      · intro polls
        cases polls
        exact .done u
  | succ timeOut ih =>
      rw [mouseWaitLoop_succ]
      constructor
      · intro run
        cases run with
        | @inb _ _ status log _ rest =>
            beta_reduce at rest
            by_cases now : ready status = true
            · rw [if_pos now] at rest
              cases rest
              exact .ready now
            · rw [if_neg now] at rest
              exact .busy (Bool.eq_false_of_not_eq_true now) ((ih log).mp rest)
      · intro polls
        cases polls with
        | @ready _ status now =>
            apply Trace.inb
            rw [if_pos now]
            exact .done u
        | @busy _ status log not later =>
            apply Trace.inb
            rw [if_neg (by simp [not])]
            exact (ih log).mpr later

theorem polls_length {ready : UInt8 → Bool} {limit : Nat} {log : List PortAccess}
    (polls : Polls ready limit log) :
    log.length ≤ limit := by
  induction polls with
  | timeOut => exact Nat.le_refl 0
  | ready now => exact Nat.succ_le_succ (Nat.zero_le _)
  | busy not later ih => exact Nat.succ_le_succ ih

section Messages

variable {α : Type} {log : List PortAccess} {a : α}

def Begins (m : Message) (follows : List PortAccess → Prop) (log : List PortAccess) : Prop :=
  ∃ polls rest, Polls m.Ready 100000 polls ∧ follows rest ∧ log = polls ++ m.access :: rest

theorem conversation_nil : Conversation [] = fun log => log = [] := by
  funext log
  apply propext
  constructor
  · intro talk
    cases talk
    rfl
  · intro empty
    rw [empty]
    exact .ended

theorem conversation_cons (m : Message) (later : List Message) :
    Conversation (m :: later) = Begins m (Conversation later) := by
  funext log
  apply propext
  constructor
  · intro talk
    cases talk with
    | message polite rest => exact ⟨_, _, polite, rest, rfl⟩
  · intro begins
    obtain ⟨polls, rest, polite, talk, rfl⟩ := begins
    exact .message polite talk

theorem conversation_length {messages : List Message} (talk : Conversation messages log) :
    log.length ≤ 100001 * messages.length := by
  induction talk with
  | ended => exact Nat.le_refl 0
  | message polite rest ih =>
      have polls := polls_length polite
      rw [List.length_append, List.length_cons, List.length_cons]
      omega

theorem begins_exists {β : Type} {m : Message} {follows : β → List PortAccess → Prop} :
    Begins m (fun rest => ∃ b, follows b rest) log ↔ ∃ b, Begins m (follows b) log := by
  constructor
  · intro begins
    obtain ⟨polls, rest, polite, ⟨b, there⟩, place⟩ := begins
    exact ⟨b, polls, rest, polite, there, place⟩
  · intro begins
    obtain ⟨b, polls, rest, polite, there, place⟩ := begins
    exact ⟨polls, rest, polite, ⟨b, there⟩, place⟩

theorem trace_mouseWait_send (u : Unit) :
    Trace (mouseWait readyToSend) log u ↔ Polls (fun status => status &&& 2 == 0) 100000 log :=
  trace_mouseWaitLoop _ 100000 log u

theorem trace_mouseWait_read (u : Unit) :
    Trace (mouseWait readyToRead) log u ↔ Polls (fun status => status &&& 1 == 1) 100000 log :=
  trace_mouseWaitLoop _ 100000 log u

/-- A write after polls for it. -/
theorem trace_send {m : Message} {port : UInt16} {val : UInt8} {next : PortProgram α}
    (writes : m.access = .write port val) (ready : m.Ready = fun status => status &&& 2 == 0) :
    Trace (mouseWait readyToSend >>= fun _ => .outb port val next) log a ↔
      Begins m (fun rest => Trace next rest a) log := by
  rw [trace_bind]
  constructor
  · intro run
    obtain ⟨polls, u, later, wait, there, rfl⟩ := run
    rw [trace_mouseWait_send, ← ready] at wait
    cases there with
    | outb rest => exact ⟨polls, _, wait, rest, by rw [writes]⟩
  · intro begins
    obtain ⟨polls, rest, polite, there, rfl⟩ := begins
    rw [ready] at polite
    exact ⟨polls, (), _, (trace_mouseWait_send ()).mpr polite, by rw [writes]; exact .outb there,
      rfl⟩

theorem trace_command {val : UInt8} {next : PortProgram α} :
    Trace (mouseWait readyToSend >>= fun _ => .outb 0x64 val next) log a ↔
      Begins (.command val) (fun rest => Trace next rest a) log := trace_send rfl rfl

theorem trace_data {val : UInt8} {next : PortProgram α} :
    Trace (mouseWait readyToSend >>= fun _ => .outb 0x60 val next) log a ↔
      Begins (.data val) (fun rest => Trace next rest a) log := trace_send rfl rfl

theorem trace_answer {next : UInt8 → PortProgram α} :
    Trace (mouseWait readyToRead >>= fun _ => .inb 0x60 next) log a ↔
      ∃ byte, Begins (.answer byte) (fun rest => Trace (next byte) rest a) log := by
  rw [trace_bind]
  constructor
  · intro run
    obtain ⟨polls, u, later, wait, there, rfl⟩ := run
    cases there with
    | @inb _ _ byte _ _ rest => exact ⟨byte, polls, _, (trace_mouseWait_read u).mp wait, rest, rfl⟩
  · intro begins
    obtain ⟨byte, polls, rest, polite, there, rfl⟩ := begins
    exact ⟨polls, (), _, (trace_mouseWait_read ()).mpr polite, .inb there, rfl⟩

end Messages

def initialMessages (status reset defaults streaming : UInt8) : List Message :=
  [.command 0xA8, .command 0x20, .answer status, .command 0x60, .data (status ||| 2),
    .command 0xd4, .data 0xFF, .answer reset, .command 0xd4, .data 0xF6, .answer defaults,
    .command 0xd4, .data 0xF4, .answer streaming]

/-- Whatever the controller answers, the set up is one conversation up to the answers, and it ends:
nothing is written before the controller takes it or the time is out. -/
theorem initializeMouse_trace (log : List PortAccess) (u : Unit) :
    (Trace initializeMouse log u ↔
      ∃ status reset defaults streaming,
        Conversation (initialMessages status reset defaults streaming) log) ∧
    (Trace initializeMouse log u → log.length ≤ 14 * 100001) := by
  have finished : ∀ rest, Trace (.done ()) rest u ↔ rest = [] := by
    intro rest
    constructor
    · intro run
      cases run
      rfl
    · intro empty
      rw [empty]
      exact .done u
  have talk : Trace initializeMouse log u ↔
      ∃ status reset defaults streaming, Conversation
        (initialMessages status reset defaults streaming) log := by
    simp only [initializeMouse, mouseWrite, mouseRead, bind_assoc, inb_bind, PortProgram.outb_bind,
      done_bind, outb_eq, trace_command, trace_data, trace_answer, begins_exists, initialMessages,
        conversation_cons, conversation_nil,
      pure_eq, finished]
  constructor
  · exact talk
  · intro run
    obtain ⟨status, reset, defaults, streaming, said⟩ := talk.mp run
    exact conversation_length said

end PaintKernel
