import Mathlib
import PaintKernel.Keyboard

set_option autoImplicit false

/-! The keyboard buffer as a queue: whole calls of `buffer_put`, `buffer_delete` and `kgetc`, with
every index of `char_buffer` checked. -/

namespace PaintKernel

open Transition RingBuffer

def bufferIndex (n : Nat) : Option Nat := if n < bufferSize then some n else none

namespace CharBuffer

def checkedPut (b : CharBuffer) (c : UInt8) : Option CharBuffer :=
  if b.count ≠ bufferSize then do
    let slot ← bufferIndex ((b.start + b.count) % bufferSize)
    return { b with cells := Function.update b.cells slot c, count := b.count + 1 }
  else some b

def bufferDelete (b : CharBuffer) : CharBuffer :=
  if b.count > 0 then { b with count := b.count - 1 } else b

/-- The character and the buffer after the call. With no interrupt, `while(count == 0)` ends at
once or never: the call on an empty buffer that blocks is undefined. -/
def kgetc (b : CharBuffer) (blocking : Bool) : Option (UInt8 × CharBuffer) :=
  if b.count = 0 ∧ !blocking then some (0, b)
  else if b.count = 0 then none
  else do
    let slot ← bufferIndex b.start
    return (b.cells slot, { b with start := (b.start + 1) % bufferSize, count := b.count - 1 })

end CharBuffer

inductive BufferCall where
  | bufferPut (c : UInt8)
  | bufferDelete
  | kgetc (blocking : Bool)
  deriving DecidableEq, Repr

def CharBuffer.perform (b : CharBuffer) : BufferCall → Option (Option UInt8 × CharBuffer)
  | .bufferPut c => (b.checkedPut c).map fun b => (none, b)
  | .bufferDelete => some (none, b.bufferDelete)
  | .kgetc blocking => (b.kgetc blocking).map fun (c, b) => (some c, b)

/-- The calls on a queue of at most `BUFFER_SIZE` characters, the next to be read first. -/
def queuePerform (queue : List UInt8) : BufferCall → Option (Option UInt8 × List UInt8)
  | .bufferPut c => some (none, if queue.length = bufferSize then queue else queue ++ [c])
  | .bufferDelete => some (none, queue.dropLast)
  | .kgetc blocking =>
      match queue, blocking with
      | c :: rest, _ => some (some c, rest)
      | [], false => some (some 0, [])
      | [], true => none

structure Queued (b : CharBuffer) (queue : List UInt8) : Prop where
  start_lt : b.start < bufferSize
  count_eq : b.count = queue.length
  length_le : queue.length ≤ bufferSize
  holds : Holds bufferSize b.cells b.start queue

variable {b : CharBuffer} {queue : List UInt8}

theorem bufferIndex_some {n : Nat} (inside : n < bufferSize) : bufferIndex n = some n :=
  if_pos inside

theorem checkedPut_some (b : CharBuffer) (c : UInt8) : b.checkedPut c = some (b.bufferPut c) := by
  unfold CharBuffer.checkedPut CharBuffer.bufferPut
  rw [bufferIndex_some (Nat.mod_lt _ (by decide))]
  exact (apply_ite some _ _ _).symm

theorem put_represents (represents : Queued b queue) (c : UInt8) :
    Queued (b.bufferPut c) (if queue.length = bufferSize then queue else queue ++ [c]) := by
  rcases represents with ⟨start_lt, count_eq, length_le, holds⟩
  unfold CharBuffer.bufferPut
  rw [count_eq]
  by_cases full : queue.length = bufferSize
  · rw [if_neg (not_not.mpr full), if_pos full]
    exact ⟨start_lt, count_eq, length_le, holds⟩
  · rw [if_pos full, if_neg full]
    exact ⟨start_lt, by simp, by simp; omega, holds_push holds (by omega)⟩

theorem delete_represents (represents : Queued b queue) : Queued b.bufferDelete queue.dropLast := by
  rcases represents with ⟨start_lt, count_eq, length_le, holds⟩
  have length : queue.dropLast.length = queue.length - 1 := List.length_dropLast
  unfold CharBuffer.bufferDelete
  split_ifs with filled
  · exact ⟨start_lt, by simp only; omega, by omega, holds_dropLast holds⟩
  · exact ⟨start_lt, by omega, by omega, holds_dropLast holds⟩

theorem kgetc_represents {c : UInt8} {rest : List UInt8} (represents : Queued b (c :: rest))
    (blocking : Bool) : ∃ b', b.kgetc blocking = some (c, b') ∧ Queued b' rest := by
  rcases represents with ⟨start_lt, count_eq, length_le, holds⟩
  rw [List.length_cons] at count_eq length_le
  have filled : ¬ b.count = 0 := by omega
  refine ⟨{ b with start := (b.start + 1) % bufferSize, count := b.count - 1 }, ?_, ?_⟩
  · simp [CharBuffer.kgetc, filled, bufferIndex_some start_lt, holds_first holds start_lt]
  · exact ⟨Nat.mod_lt _ (by decide), by simp only; omega, by omega, holds_pop holds⟩

theorem kgetc_accesses {b' : CharBuffer} {c : UInt8} {blocking : Bool} (filled : b.count ≠ 0)
    (read : b.kgetc blocking = some (c, b')) (typed returned : List UInt8) :
    (List.replicate 8 ConsoleEvent.access).foldlM Console.next ⟨b, .testEmpty blocking,
      typed, returned⟩ =
      some ⟨b', .idle, typed, returned ++ [c]⟩ := by
  have whole : b.start < bufferSize ∧ b.cells b.start = c ∧
      ({ b with start := (b.start + 1) % bufferSize, count := b.count - 1 } : CharBuffer) = b' := by
    simpa [CharBuffer.kgetc, filled, bufferIndex, Option.bind_eq_some_iff] using read
  rcases whole with ⟨-, rfl, rfl⟩
  simp [List.replicate_succ, Console.next, Console.access, filled]

/-- One call: the buffer answers as the queue does and goes on holding it. -/
theorem perform_represents (call : BufferCall) (answer : Option UInt8) (queue' : List UInt8)
    (represents : Queued b queue) (specified : queuePerform queue call = some (answer, queue')) :
    ∃ b', b.perform call = some (answer, b') ∧ Queued b' queue' := by
  cases call with
  | bufferPut c =>
      cases specified
      exact ⟨b.bufferPut c, by simp [CharBuffer.perform, checkedPut_some],
        put_represents represents c⟩
  | bufferDelete =>
      cases specified
      exact ⟨b.bufferDelete, rfl, delete_represents represents⟩
  | kgetc blocking =>
      cases queue with
      | cons c rest =>
          cases specified
          rcases kgetc_represents represents blocking with ⟨b', read, kept⟩
          exact ⟨b', by simp [CharBuffer.perform, read], kept⟩
      | nil =>
          have empty : b.count = 0 := represents.count_eq
          cases blocking with
          | true => cases specified
          | false =>
              cases specified
              exact ⟨b, by simp [CharBuffer.perform, CharBuffer.kgetc, empty], represents⟩

theorem empty_queued (cells : Nat → UInt8) : Queued ⟨cells, 0, 0⟩ [] :=
  ⟨Nat.zero_lt_succ _, rfl, Nat.zero_le _, holds_nil⟩

/-- The buffer refines the bounded queue over every sequence of calls that the queue can perform:
all but a read that waits for a character while there is none. -/
theorem buffer_refines_queue (cells : Nat → UInt8) {calls : List BufferCall}
    {returned : List (Option UInt8)} {queue : List UInt8}
    (specified : answers queuePerform calls [] = some (returned, queue)) :
    ∃ b, answers CharBuffer.perform calls ⟨cells, 0, 0⟩ = some (returned, b) ∧ Queued b queue := by
  exact answers_refine (fun b queue call answer queue' => perform_represents call answer queue')
    (empty_queued cells) specified

theorem typed_and_deleted :
    ∃ b, answers CharBuffer.perform [.bufferPut 97, .bufferPut 98, .bufferDelete, .kgetc true,
      .kgetc false]
      ⟨fun _ => 0, 0, 0⟩ = some ([none, none, none, some 97, some 0], b) ∧ Queued b [] :=
  buffer_refines_queue _ (by decide)

end PaintKernel
