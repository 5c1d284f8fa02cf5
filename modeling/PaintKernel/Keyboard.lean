import Mathlib
import PaintKernel.Library.RingBuffer
import PaintKernel.Library.Run

set_option autoImplicit false

/-! The keyboard buffer: `kgetc` one memory access at a time, and `buffer_put` from the
interrupt handler between any two of them. -/

namespace PaintKernel

open Transition RingBuffer

def bufferSize : Nat := 10000

structure CharBuffer where
  cells : Nat → UInt8
  start : Nat
  count : Nat

def CharBuffer.bufferPut (b : CharBuffer) (c : UInt8) : CharBuffer :=
  if b.count ≠ bufferSize then
    { b with
      cells := Function.update b.cells ((b.start + b.count) % bufferSize) c
      count := b.count + 1 }
  else b

/-- Where `kgetc` stands: each point but `idle` is before one access, with the values the
call has read so far. -/
inductive KgetcPoint where
  | idle
  /-- the read of `count` in `count == 0 && !blocking` -/
  | testEmpty (blocking : Bool)
  /-- the read of `count` in `while(count == 0)` -/
  | waiting
  | readIndex
  | readChar (index : Nat)
  | readStart (c : UInt8)
  | writeStart (c : UInt8) (value : Nat)
  | readCount (c : UInt8)
  | writeCount (c : UInt8) (value : Nat)
  deriving DecidableEq, Repr

structure Console where
  buffer : CharBuffer
  point : KgetcPoint
  typed : List UInt8
  returned : List UInt8

inductive ConsoleEvent where
  | call (blocking : Bool)
  | access
  | bufferPut (c : UInt8)
  deriving DecidableEq, Repr

namespace Console

/-- The next access of `kgetc`. A non-blocking call that finds nothing returns no character. -/
def access (s : Console) : Option Console :=
  match s.point with
  | .idle => none
  | .testEmpty blocking =>
      if s.buffer.count = 0 ∧ !blocking then some { s with point := .idle }
      else some { s with point := .waiting }
  | .waiting =>
      if s.buffer.count = 0 then some s else some { s with point := .readIndex }
  | .readIndex => some { s with point := .readChar s.buffer.start }
  | .readChar index => some { s with point := .readStart (s.buffer.cells index) }
  | .readStart c => some { s with point := .writeStart c ((s.buffer.start + 1) % bufferSize) }
  | .writeStart c value =>
      some { s with buffer := { s.buffer with start := value }, point := .readCount c }
  | .readCount c => some { s with point := .writeCount c (s.buffer.count - 1) }
  | .writeCount c value =>
      some { s with
        buffer := { s.buffer with count := value }
        point := .idle
        returned := s.returned ++ [c] }

def next (s : Console) : ConsoleEvent → Option Console
  | .call blocking => if s.point = .idle then some { s with point := .testEmpty blocking } else none
  | .access => s.access
  | .bufferPut c => some { s with buffer := s.buffer.bufferPut c, typed := s.typed ++ [c] }

def Spare (s : Console) : Prop := s.typed.length < s.returned.length + bufferSize

instance (s : Console) : Decidable s.Spare := inferInstanceAs (Decidable (_ < _))

def scheduled (s : Console) (e : ConsoleEvent) : Option Console :=
  (s.next e).filter (fun s => s.Spare)

def Step (s : Console) (e : ConsoleEvent) (s' : Console) : Prop := s.scheduled e = some s'

def torn (s : Console) : Bool :=
  match s.point with
  | .readCount _ => true
  | .writeCount _ _ => true
  | _ => false

def intrudes (s : Console) : ConsoleEvent → Bool
  | .bufferPut _ => s.torn
  | _ => false

def WholeStep (s : Console) (e : ConsoleEvent) (s' : Console) : Prop :=
  s.Step e s' ∧ s.intrudes e = false

/-- Characters come back in the order they were put, and between calls `count` says how many
are still to come. -/
structure InputKept (s : Console) : Prop where
  order : s.returned <+: s.typed
  counted : s.point = .idle → s.typed.length = s.returned.length + s.buffer.count

/-- What `kgetc` knows at each point, for the characters still to be returned. -/
def AtPoint (b : CharBuffer) (pending : List UInt8) : KgetcPoint → Prop
  | .idle => Holds bufferSize b.cells b.start pending
  | .testEmpty _ => Holds bufferSize b.cells b.start pending
  | .waiting => Holds bufferSize b.cells b.start pending
  | .readIndex => Holds bufferSize b.cells b.start pending ∧ pending ≠ []
  | .readChar index => Holds bufferSize b.cells b.start pending ∧ pending ≠ [] ∧ index = b.start
  | .readStart c => Holds bufferSize b.cells b.start pending ∧ pending.head? = some c
  | .writeStart c value => Holds bufferSize b.cells b.start pending ∧ pending.head? = some c ∧
      value = (b.start + 1) % bufferSize
  | .readCount c => Holds bufferSize b.cells b.start pending.tail ∧ pending.head? = some c
  | .writeCount c value => Holds bufferSize b.cells b.start pending.tail ∧ pending.head? = some c ∧
      value + 1 = b.count

structure Tracks (s : Console) (pending : List UInt8) : Prop where
  typed : s.typed = s.returned ++ pending
  counted : s.buffer.count = pending.length
  start_lt : s.buffer.start < bufferSize
  here : AtPoint s.buffer pending s.point

variable {s s' : Console} {pending : List UInt8}

theorem Tracks.kept (tracks : Tracks s pending) : InputKept s where
  order := ⟨pending, tracks.typed.symm⟩
  counted := by
    intro _
    rw [tracks.typed, List.length_append, tracks.counted]

theorem bufferPut_tracks {c : UInt8} (tracks : Tracks s pending) (whole : s.torn = false)
    (room : pending.length < bufferSize) :
    Tracks { s with buffer := s.buffer.bufferPut c, typed := s.typed ++ [c] } (pending ++ [c]) := by
  have put : s.buffer.bufferPut c =
      { s.buffer with
        cells := Function.update s.buffer.cells ((s.buffer.start + pending.length) % bufferSize) c
        count := pending.length + 1 } := by
    rw [CharBuffer.bufferPut, tracks.counted, if_pos (by omega)]
  have pushed : Holds bufferSize s.buffer.cells s.buffer.start pending →
      Holds bufferSize (Function.update s.buffer.cells
        ((s.buffer.start + pending.length) % bufferSize) c) s.buffer.start (pending ++ [c]) :=
    fun holds => holds_push holds room
  rw [put]
  refine ⟨by simp [tracks.typed], by simp, tracks.start_lt, ?_⟩
  have here := tracks.here
  rcases s with ⟨b, point, typed, returned⟩
  cases point with
  | idle => exact pushed here
  | testEmpty _ => exact pushed here
  | waiting => exact pushed here
  | readIndex => exact ⟨pushed here.1, by simp⟩
  | readChar index => exact ⟨pushed here.1, by simp, here.2.2⟩
  | readStart c' => exact ⟨pushed here.1, by simp [here.2]⟩
  | writeStart c' value => exact ⟨pushed here.1, by simp [here.2.1], here.2.2⟩
  | readCount c' => cases whole
  | writeCount c' value => cases whole

theorem access_tracks (tracks : Tracks s pending) (step : s.access = some s') :
    ∃ pending', Tracks s' pending' := by
  rcases s with ⟨b, point, typed, returned⟩
  rcases tracks with ⟨ledger, counted, start_lt, here⟩
  simp only at ledger counted start_lt here
  cases point with
  | idle => cases step
  | testEmpty blocking =>
      simp only [access] at step
      split at step
      · cases step
        exact ⟨pending, ledger, counted, start_lt, here⟩
      · cases step
        exact ⟨pending, ledger, counted, start_lt, here⟩
  | waiting =>
      simp only [access] at step
      split at step
      · cases step
        exact ⟨pending, ledger, counted, start_lt, here⟩
      · rename_i filled
        cases step
        refine ⟨pending, ledger, counted, start_lt, here, ?_⟩
        rintro rfl
        exact filled counted
  | readIndex =>
      cases step
      exact ⟨pending, ledger, counted, start_lt, here.1, here.2, rfl⟩
  | readChar index =>
      cases step
      rcases here with ⟨holds, filled, rfl⟩
      cases pending with
      | nil => exact absurd rfl filled
      | cons first rest =>
          refine ⟨first :: rest, ledger, counted, start_lt, holds, ?_⟩
          rw [holds_first holds start_lt, List.head?_cons]
  | readStart c =>
      cases step
      exact ⟨pending, ledger, counted, start_lt, here.1, here.2, rfl⟩
  | writeStart c value =>
      cases step
      rcases here with ⟨holds, first, rfl⟩
      rcases List.head?_eq_some_iff.mp first with ⟨rest, rfl⟩
      exact ⟨c :: rest, ledger, counted, Nat.mod_lt _ (by decide), holds_pop holds, rfl⟩
  | readCount c =>
      cases step
      rcases List.head?_eq_some_iff.mp here.2 with ⟨rest, rfl⟩
      refine ⟨c :: rest, ledger, counted, start_lt, here.1, rfl, ?_⟩
      rw [counted, List.length_cons, Nat.add_sub_cancel]
  | writeCount c value =>
      cases step
      rcases here with ⟨holds, first, decremented⟩
      rcases List.head?_eq_some_iff.mp first with ⟨rest, rfl⟩
      refine ⟨rest, by simp [ledger], ?_, start_lt, holds⟩
      rw [List.length_cons] at counted
      simp only
      omega

theorem step_tracks {e : ConsoleEvent} (tracks : Tracks s pending) (step : s.WholeStep e s') :
    ∃ pending', Tracks s' pending' := by
  rcases step with ⟨step, whole⟩
  rw [Step, scheduled, Option.filter_eq_some_iff] at step
  rcases step with ⟨step, spare⟩
  cases e with
  | call blocking =>
      simp only [next] at step
      split at step
      · rename_i idle
        cases step
        have here := tracks.here
        rw [idle] at here
        exact ⟨pending, tracks.typed, tracks.counted, tracks.start_lt, here⟩
      · cases step
  | access => exact access_tracks tracks step
  | bufferPut c =>
      cases step
      simp only [decide_eq_true_eq, Spare, tracks.typed, List.length_append,
        List.length_singleton] at spare
      exact ⟨pending ++ [c], bufferPut_tracks tracks whole (by omega)⟩

end Console

def bootConsole (cells : Nat → UInt8) : Console := ⟨⟨cells, 0, 0⟩, .idle, [], []⟩

theorem boot_tracks (cells : Nat → UInt8) : (bootConsole cells).Tracks [] :=
  ⟨rfl, rfl, Nat.zero_lt_succ _, holds_nil⟩

/-- Input survives every interleaving in which no character arrives between the write of
`start` and the write of `count`. -/
theorem input_kept (cells : Nat → UInt8) {events : List ConsoleEvent} {s : Console}
    (run : Run Console.WholeStep (bootConsole cells) events s) : s.InputKept := by
  have preserved : ∀ (s : Console) e s', (∃ pending, s.Tracks pending) → s.WholeStep e s' →
      ∃ pending, s'.Tracks pending := by
    rintro s e s' ⟨_, tracks⟩ step
    exact Console.step_tracks tracks step
  rcases invariant preserved run ⟨[], boot_tracks cells⟩ with ⟨_, tracks⟩
  exact tracks.kept

def typeBefore : List ConsoleEvent :=
  [.bufferPut 97, .call true, .access, .access, .access, .bufferPut 98, .access, .access, .access,
    .access, .access]

theorem before_kept : ∃ s, Run Console.WholeStep (bootConsole fun _ => 0) typeBefore s ∧
    s.InputKept := by
  have folded : (typeBefore.foldlM (fun (s : Console) e => if s.intrudes e then none
      else s.scheduled e)
      (bootConsole fun _ => 0)).isSome := by decide +kernel
  rcases Option.isSome_iff_exists.mp folded with ⟨s, ran⟩
  have run : Run Console.WholeStep (bootConsole fun _ => 0) typeBefore s := by
    refine mono ?_ (run_of_foldlM ran)
    intro s e next step
    split at step
    · cases step
    · rename_i outside
      exact ⟨step, by simpa using outside⟩
  exact ⟨s, run, input_kept _ run⟩

/-- The second character arrives after `kgetc` has moved `start`: it lands one slot too far and
the next call returns the stale byte before it. -/
def typeInside : List ConsoleEvent :=
  [.bufferPut 97, .call true, .access, .access, .access, .access, .access, .access,
    .bufferPut 98, .access, .access, .call true, .access, .access, .access, .access,
      .access, .access,
    .access, .access]

theorem inside_stale : ∃ s, Run Console.Step (bootConsole fun _ => 0) typeInside s ∧
    s.typed = [97, 98] ∧ s.returned = [97, 0] ∧ ¬ s.InputKept := by
  have folded : (typeInside.foldlM Console.scheduled (bootConsole fun _ => 0)).map
      (fun s => (s.typed, s.returned)) = some ([97, 98], [97, 0]) := by decide +kernel
  rcases Option.map_eq_some_iff.mp folded with ⟨s, ran, lists⟩
  rw [Prod.mk.injEq] at lists
  refine ⟨s, run_of_foldlM ran, lists.1, lists.2, ?_⟩
  intro kept
  have order := kept.order
  rw [lists.1, lists.2] at order
  exact absurd order (by decide)

end PaintKernel
