import Mathlib
import PaintKernel.Printf
import PaintKernel.Library.ForwardCopy

set_option autoImplicit false

/-! `memset`, `memcpy`, `strcpy` and `strncpy` in one memory, where the two ranges of a copy may
overlap. -/

namespace PaintKernel

open ByteMemory ForwardCopy MachineInt

def memsetLoop (arr : Nat) (c : UInt8) : Nat → Nat → Mem → Option Mem
  | 0, _, m => some m
  | left + 1, i, m => do
      let _ ← int32 (i + 1)
      memsetLoop arr c left (i + 1) (store m (arr + i) c)

def memset (arr : Nat) (c : Int32) (size : UInt32) (m : Mem) : Option (Nat × Mem) := do
  return (arr, ← memsetLoop arr c.toUInt32.toUInt8 size.toNat 0 m)

def memcpy (des src size : Nat) (m : Mem) : Nat × Mem :=
  (des, (List.range size).foldl (fun m i => store m (des + i) (m (src + i))) m)

def strncpyRound (dst src : Nat) (s : Mem × Bool) (i : Nat) : Mem × Bool :=
  if s.2 = false then
    let m := store s.1 (dst + i) (s.1 (src + i))
    -- `src[i]` is read again, after the store.
    (m, if m (src + i) = 0 then true else s.2)
  else (store s.1 (dst + i) 0, s.2)

def strncpy (dst src len : Nat) (m : Mem) : Nat × Mem :=
  (dst, ((List.range len).foldl (strncpyRound dst src) (m, false)).1)

def CString.At (s : CString) (m : Mem) (p : Nat) : Prop :=
  ∀ i byte, s.buffer[i]? = some byte → m (p + i) = byte

section Fill

variable {m : Mem} {arr : Nat} {c : UInt8}

theorem memsetLoop_eq (m : Mem) (arr : Nat) (c : UInt8) (left i : Nat) :
    memsetLoop arr c left i (fill m arr i c) =
      if left = 0 ∨ i + left < 2 ^ 31 then some (fill m arr (i + left) c) else none := by
  induction left generalizing i with
  | zero => simp [memsetLoop]
  | succ left ih =>
      rw [memsetLoop, int32_succ, ← fill_succ, ih]
      by_cases more : i + 1 < 2 ^ 31
      · rw [if_pos more]
        have sums : i + 1 + left = i + (left + 1) := by omega
        simp only [Option.bind_eq_bind, Option.bind_some, sums]
        by_cases last : left = 0
        · rw [if_pos (Or.inl last), if_pos (by omega)]
        · simp [last]
      · have overflow : ¬(left + 1 = 0 ∨ i + (left + 1) < 2 ^ 31) := by omega
        rw [if_neg more, if_neg overflow]
        rfl

theorem memset_eq (arr : Nat) (c : Int32) (size : UInt32) (m : Mem) :
    memset arr c size m =
      if size.toNat < 2 ^ 31 then some (arr, fill m arr size.toNat c.toUInt32.toUInt8)
        else none := by
  have loop := memsetLoop_eq m arr c.toUInt32.toUInt8 size.toNat 0
  rw [fill_zero, Nat.zero_add] at loop
  rw [memset, loop]
  split_ifs with empty small
  · rfl
  · omega
  · omega
  · rfl

end Fill

/-- Every byte of a copy is the byte of the memory before at one known address, and the copy keeps
all sources exactly if the destination does not start inside the source. -/
theorem memcpy_overlap (des src size : Nat) :
    (∀ m, memcpy des src size m = (des, copied m des src size)) ∧
      ((∀ m i, i < size → (memcpy des src size m).2 (des + i) = m (src + i)) ↔
        ¬(src < des ∧ des < src + size)) := by
  have result : ∀ m, memcpy des src size m = (des, copied m des src size) := fun m => by
    rw [memcpy, foldl_copied]
  constructor
  · exact result
  · rw [← copied_faithful_iff]
    simp only [result]

section Text

variable {m : Mem} {dst src : Nat}

structure EndsAt (m : Mem) (dst src n : Nat) : Prop where
  ends : m (source dst src n) = 0
  before : ∀ i < n, m (source dst src i) ≠ 0

theorem EndsAt.unique {n k : Nat} (first : EndsAt m dst src n)
    (second : EndsAt m dst src k) : n = k := by
  apply Nat.le_antisymm
  · exact Nat.le_of_not_lt fun less => first.before k less second.ends
  · exact Nat.le_of_not_lt fun less => second.before n less first.ends

theorem CString.buffer_getElem? (s : CString) {i : Nat} (inside : i < s.bytes.length) :
    s.buffer[i]? = some s.bytes[i] := by
  rw [CString.buffer, List.getElem?_append_left inside, List.getElem?_eq_getElem inside]

/-- A destination inside the string leaves no terminator to be met. -/
theorem CString.At.never {s : CString} (held : s.At m src)
    (inside : src < dst ∧ dst ≤ src + s.bytes.length) (n : Nat) :
    ¬EndsAt m dst src n := by
  intro found
  have period := Nat.mod_lt n (by omega : 0 < dst - src)
  have index : n % (dst - src) < s.bytes.length := by omega
  have ends := found.ends
  rw [source_of_lt inside.1, held _ s.bytes[n % (dst - src)] (s.buffer_getElem? index)] at ends
  exact s.terminated (ends ▸ List.getElem_mem index)

def padded (m : Mem) (dst src n : Nat) : Mem :=
  fun a => if dst ≤ a ∧ a < dst + n then
    if ∃ j < a - dst, m (source dst src j) = 0 then 0 else m (source dst src (a - dst))
  else m a

theorem padded_succ (n : Nat) :
    padded m dst src (n + 1) =
      store (padded m dst src n) (dst + n) (if ∃ j < n, m (source dst src j) =
        0 then 0 else m (source dst src n)) := by
  funext a
  by_cases last : a = dst + n
  · rw [last, store_here, padded, if_pos (by omega), Nat.add_sub_cancel_left]
  · have range : (dst ≤ a ∧ a < dst + (n + 1)) ↔ (dst ≤ a ∧ a < dst + n) := by omega
    rw [store_elsewhere _ _ _ _ last]
    simp only [padded, range]

theorem padded_eq_copied (n : Nat) (before : ¬∃ j < n, m (source dst src j) = 0) :
    padded m dst src n = copied m dst src n := by
  funext a
  by_cases inside : dst ≤ a ∧ a < dst + n
  · have earlier : ¬∃ j < a - dst, m (source dst src j) = 0 := by
      intro zero
      obtain ⟨j, less, zero⟩ := zero
      exact before ⟨j, by omega, zero⟩
    rw [padded, copied, if_pos inside, if_pos inside, if_neg earlier]
  · rw [padded, copied, if_neg inside, if_neg inside]

theorem strncpyRound_padded (n : Nat) :
    strncpyRound dst src (padded m dst src n, decide (∃ j < n, m (source dst src j) = 0)) n =
      (padded m dst src (n + 1), decide (∃ j < n + 1, m (source dst src j) = 0)) := by
  have later : (∃ j < n + 1, m (source dst src j) = 0) ↔
      (∃ j < n, m (source dst src j) = 0) ∨ m (source dst src n) = 0 := Nat.exists_lt_succ_right
  by_cases ended : ∃ j < n, m (source dst src j) = 0
  · rw [padded_succ, if_pos ended, strncpyRound, if_neg (by simpa using ended)]
    simp only [ended, later, true_or]
  · have read : padded m dst src n (src + n) = m (source dst src n) := by
      rw [padded_eq_copied n ended, copied_next]
    -- The store is to another address, or it stores what was read.
    have again : store (padded m dst src n) (dst + n) (m (source dst src n)) (src + n) =
        m (source dst src n) := by
      by_cases here : src + n = dst + n
      · rw [here, store_here]
      · rw [store_elsewhere _ _ _ _ here, read]
    rw [padded_succ, if_neg ended, strncpyRound, if_pos (by simpa using ended)]
    simp only [read, again, later, ended, false_or]
    by_cases last : m (source dst src n) = 0
    · simp [last]
    · simp [last]

/-- `strncpy`, for all ranges: the text up to its terminator and zeroes to the end. -/
theorem strncpy_eq (dst src len : Nat) (m : Mem) :
    strncpy dst src len m = (dst, padded m dst src len) := by
  have rounds : ∀ n, (List.range n).foldl (strncpyRound dst src) (m, false) =
      (padded m dst src n, decide (∃ j < n, m (source dst src j) = 0)) := by
    intro n
    induction n with
    | zero =>
        have nothing : padded m dst src 0 = m := by
          funext a
          exact if_neg (by omega)
        simp [nothing]
    | succ n ih =>
        rw [List.range_succ, List.foldl_append, ih]
        exact strncpyRound_padded n
  rw [strncpy, rounds]

end Text

end PaintKernel
