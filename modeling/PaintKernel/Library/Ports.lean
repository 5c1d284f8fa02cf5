import Mathlib

set_option autoImplicit false

/-! Programs that access input and output ports, one access at a time, and a pointer that is null
until it is assigned. -/

namespace Ports

/-- What a program does next, and how it goes on. To go through the null pointer is a fault. -/
inductive PortProgram (α : Type) where
  | done (a : α)
  | inb (port : UInt16) (next : UInt8 → PortProgram α)
  | outb (port : UInt16) (val : UInt8) (next : PortProgram α)
  | sti (next : PortProgram α)
  | assign (next : PortProgram α)
  | deref (next : PortProgram α)

variable {α β : Type}

def PortProgram.bind : PortProgram α → (α → PortProgram β) → PortProgram β
  | .done a, f => f a
  | .inb port next, f => .inb port fun byte => (next byte).bind f
  | .outb port val next, f => .outb port val (next.bind f)
  | .sti next, f => .sti (next.bind f)
  | .assign next, f => .assign (next.bind f)
  | .deref next, f => .deref (next.bind f)

instance : Monad PortProgram where
  pure := .done
  bind := .bind

def inb (port : UInt16) : PortProgram UInt8 := .inb port .done
def outb (port : UInt16) (val : UInt8) : PortProgram Unit := .outb port val (.done ())
def sti : PortProgram Unit := .sti (.done ())
def assign : PortProgram Unit := .assign (.done ())
def deref : PortProgram Unit := .deref (.done ())

@[simp] theorem pure_eq (a : α) : (pure a : PortProgram α) = .done a := rfl

@[simp] theorem done_bind (a : α) (f : α → PortProgram β) : .done a >>= f = f a := rfl

@[simp] theorem PortProgram.inb_bind (port : UInt16) (next : UInt8 → PortProgram α)
    (f : α → PortProgram β) :
    PortProgram.inb port next >>= f = .inb port fun byte => next byte >>= f := rfl

@[simp] theorem PortProgram.outb_bind (port : UInt16) (val : UInt8) (next : PortProgram α)
    (f : α → PortProgram β) :
    PortProgram.outb port val next >>= f = .outb port val (next >>= f) := rfl

@[simp] theorem inb_bind (port : UInt16) (f : UInt8 → PortProgram β) :
    inb port >>= f = .inb port f := rfl

@[simp] theorem outb_bind (port : UInt16) (val : UInt8) (f : Unit → PortProgram β) :
    outb port val >>= f = .outb port val (f ()) := rfl

theorem outb_eq (port : UInt16) (val : UInt8) : outb port val = .outb port val (.done ()) := rfl

theorem bind_assoc {γ : Type} (p : PortProgram α) (f : α → PortProgram β) (g : β → PortProgram γ) :
    p >>= f >>= g = p >>= fun a => f a >>= g := by
  induction p with
  | done a => rfl
  | inb port next ih => exact congrArg (PortProgram.inb port) (funext ih)
  | outb port val next ih => exact congrArg (PortProgram.outb port val) ih
  | sti next ih => exact congrArg PortProgram.sti ih
  | assign next ih => exact congrArg PortProgram.assign ih
  | deref next ih => exact congrArg PortProgram.deref ih

section Traces

inductive PortAccess where
  | read (port : UInt16) (byte : UInt8)
  | write (port : UInt16) (byte : UInt8)
  deriving DecidableEq

/-- The accesses of a whole run, whatever the devices answer, and its result. -/
inductive Trace : PortProgram α → List PortAccess → α → Prop
  | done (a : α) : Trace (.done a) [] a
  | inb {port : UInt16} {next : UInt8 →
      PortProgram α} {byte : UInt8} {log : List PortAccess} {a : α}
      (rest : Trace (next byte) log a) : Trace (.inb port next) (.read port byte :: log) a
  | outb {port : UInt16} {val : UInt8} {next : PortProgram α} {log : List PortAccess} {a : α}
      (rest : Trace next log a) : Trace (.outb port val next) (.write port val :: log) a
  | sti {next : PortProgram α} {log : List PortAccess} {a : α} (rest : Trace next log a) :
      Trace (.sti next) log a
  | assign {next : PortProgram α} {log : List PortAccess} {a : α} (rest : Trace next log a) :
      Trace (.assign next) log a
  | deref {next : PortProgram α} {log : List PortAccess} {a : α} (rest : Trace next log a) :
      Trace (.deref next) log a

theorem trace_bind {p : PortProgram α} {f : α → PortProgram β} {log : List PortAccess} {b : β} :
    Trace (p >>= f) log b ↔ ∃ first a later, Trace p first a ∧ Trace (f a) later b ∧
      log = first ++ later := by
  constructor
  · intro run
    induction p generalizing log with
    | done a => exact ⟨[], a, log, .done a, run, rfl⟩
    | inb port next ih =>
        cases run with
        | inb rest =>
            obtain ⟨first, a, later, here, there, rfl⟩ := ih _ rest
            exact ⟨_, a, later, .inb here, there, rfl⟩
    | outb port val next ih =>
        cases run with
        | outb rest =>
            obtain ⟨first, a, later, here, there, rfl⟩ := ih rest
            exact ⟨_, a, later, .outb here, there, rfl⟩
    | sti next ih =>
        cases run with
        | sti rest =>
            obtain ⟨first, a, later, here, there, rfl⟩ := ih rest
            exact ⟨first, a, later, .sti here, there, rfl⟩
    | assign next ih =>
        cases run with
        | assign rest =>
            obtain ⟨first, a, later, here, there, rfl⟩ := ih rest
            exact ⟨first, a, later, .assign here, there, rfl⟩
    | deref next ih =>
        cases run with
        | deref rest =>
            obtain ⟨first, a, later, here, there, rfl⟩ := ih rest
            exact ⟨first, a, later, .deref here, there, rfl⟩
  · intro parts
    obtain ⟨first, a, later, here, there, rfl⟩ := parts
    induction here with
    | done a => exact there
    | inb rest ih => exact .inb (ih there)
    | outb rest ih => exact .outb (ih there)
    | sti rest ih => exact .sti (ih there)
    | assign rest ih => exact .assign (ih there)
    | deref rest ih => exact .deref (ih there)

end Traces

section Devices

variable {D : Type} (read : D → UInt16 → UInt8) (write : D → UInt16 → UInt8 → D)

def exec : PortProgram α → D → α × D
  | .done a, d => (a, d)
  | .inb port next, d => exec (next (read d port)) d
  | .outb port val next, d => exec next (write d port val)
  | .sti next, d => exec next d
  | .assign next, d => exec next d
  | .deref next, d => exec next d

end Devices

section Safety

variable {D : Type} (inb : D → UInt16 → UInt8 → Prop) (outb : D → UInt16 → UInt8 → Option D)
  (inv : D → Bool → Prop)

/-- The program runs to its end on the device without a fault, whatever can be read from the device;
the invariant of the device and of the interrupt flag holds at every point. -/
def Safe (post : α → D → Bool → Bool → Prop) : PortProgram α → D → Bool → Bool → Prop
  | .done a, d, assigned, flag => inv d flag ∧ post a d assigned flag
  | .inb port next, d, assigned, flag =>
      inv d flag ∧ ∀ byte, inb d port byte → Safe post (next byte) d assigned flag
  | .outb port val next, d, assigned, flag =>
      inv d flag ∧ ∃ d', outb d port val = some d' ∧ Safe post next d' assigned flag
  | .sti next, d, assigned, flag => inv d flag ∧ Safe post next d assigned true
  | .assign next, d, _, flag => inv d flag ∧ Safe post next d true flag
  | .deref next, d, assigned, flag =>
      inv d flag ∧ assigned = true ∧ Safe post next d assigned flag

variable {inb outb inv} {d : D} {assigned flag : Bool}

theorem Safe.invariant {post : α → D → Bool → Bool → Prop} {p : PortProgram α}
    (safe : Safe inb outb inv post p d assigned flag) : inv d flag := by
  cases p with
  | done a => exact safe.1
  | inb port next => exact safe.1
  | outb port val next => exact safe.1
  | sti next => exact safe.1
  | assign next => exact safe.1
  | deref next => exact safe.1

theorem Safe.bind {mid : α → D → Bool → Bool → Prop} {post : β → D → Bool → Bool → Prop}
    {p : PortProgram α} {f : α → PortProgram β} (first : Safe inb outb inv mid p d assigned flag)
    (later : ∀ a d assigned flag, mid a d assigned flag →
      Safe inb outb inv post (f a) d assigned flag) :
    Safe inb outb inv post (p >>= f) d assigned flag := by
  induction p generalizing d assigned flag with
  | done a => exact later a d assigned flag first.2
  | inb port next ih => exact ⟨first.1, fun byte read => ih byte (first.2 byte read)⟩
  | outb port val next ih =>
      obtain ⟨kept, d', written, safe⟩ := first
      exact ⟨kept, d', written, ih safe⟩
  | sti next ih => exact ⟨first.1, ih first.2⟩
  | assign next ih => exact ⟨first.1, ih first.2⟩
  | deref next ih => exact ⟨first.1, first.2.1, ih first.2.2⟩

theorem Safe.imp {post post' : α → D → Bool → Bool → Prop} {p : PortProgram α}
    (safe : Safe inb outb inv post p d assigned flag)
    (weaker : ∀ a d assigned flag, post a d assigned flag → post' a d assigned flag) :
    Safe inb outb inv post' p d assigned flag := by
  induction p generalizing d assigned flag with
  | done a => exact ⟨safe.1, weaker a d assigned flag safe.2⟩
  | inb port next ih => exact ⟨safe.1, fun byte read => ih byte (safe.2 byte read)⟩
  | outb port val next ih =>
      obtain ⟨kept, d', written, later⟩ := safe
      exact ⟨kept, d', written, ih later⟩
  | sti next ih => exact ⟨safe.1, ih safe.2⟩
  | assign next ih => exact ⟨safe.1, ih safe.2⟩
  | deref next ih => exact ⟨safe.1, safe.2.1, ih safe.2.2⟩

/-- A program whose accesses leave the device alone, and the pointer. -/
def Leaves (outb : D → UInt16 → UInt8 → Option D) : PortProgram α → Prop
  | .done _ => True
  | .inb _ next => ∀ byte, Leaves outb (next byte)
  | .outb port val next => (∀ d, outb d port val = some d) ∧ Leaves outb next
  | .sti _ => False
  | .assign _ => False
  | .deref _ => False

theorem Leaves.bind {p : PortProgram α} {f : α → PortProgram β} (first : Leaves outb p)
    (later : ∀ a, Leaves outb (f a)) : Leaves outb (p >>= f) := by
  induction p with
  | done a => exact later a
  | inb port next ih => exact fun byte => ih byte (first byte)
  | outb port val next ih => exact ⟨first.1, ih first.2⟩
  | sti next ih => exact first.elim
  | assign next ih => exact first.elim
  | deref next ih => exact first.elim

theorem Leaves.safe {p : PortProgram α} (leaves : Leaves outb p) (holds : inv d flag) :
    Safe inb outb inv (fun _ d' assigned' flag' => d' = d ∧ assigned' = assigned ∧ flag' = flag) p d
      assigned flag := by
  induction p with
  | done a => exact ⟨holds, rfl, rfl, rfl⟩
  | inb port next ih => exact ⟨holds, fun byte _ => ih byte (leaves byte)⟩
  | outb port val next ih => exact ⟨holds, d, leaves.1 d, ih leaves.2⟩
  | sti next ih => exact leaves.elim
  | assign next ih => exact leaves.elim
  | deref next ih => exact leaves.elim

end Safety

end Ports
