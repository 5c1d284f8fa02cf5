import Mathlib
import PaintKernel.ElfProgram
import PaintKernel.KeyboardQueue
import PaintKernel.MmapPointer
import PaintKernel.UserMemory
import PaintKernel.Library.LineEditing

set_option autoImplicit false

/-! `sys_read` as a line editor, and as a read that does not wait. -/

namespace PaintKernel

open LineEditing Transition

namespace UserSpace

def byteAt (user : UserSpace) (v : Nat) : Option UInt8 :=
  (user (v / 4096)).map fun page => page.byte (v % 4096)

def WritableAt (user : UserSpace) (v : Nat) : Prop :=
  ∃ page, user (v / 4096) = some page ∧ page.writable = true

def Buffer (user : UserSpace) (buffer size : Nat) : Prop :=
  ∀ i < size, buffer + i < 2 ^ 47 ∧ user.WritableAt (buffer + i)

structure Put (user : UserSpace) (v : Nat) (value : UInt8) (next : UserSpace) : Prop where
  here : next.byteAt v = some value
  others : ∀ w, w ≠ v → next.byteAt w = user.byteAt w
  writable : ∀ w, user.WritableAt w → next.WritableAt w

end UserSpace

/-- A line at the start of a buffer, whose rest may hold what was erased; the memory outside is that
of `user`. -/
structure LineAt (user : UserSpace) (buffer size : Nat) (text : List UInt8)
    (now : UserSpace) : Prop where
  here : ∀ i, i < text.length → now.byteAt (buffer + i) = text[i]?
  outside : ∀ v, v < buffer ∨ buffer + size ≤ v → now.byteAt v = user.byteAt v
  writable : ∀ v, user.WritableAt v → now.WritableAt v

section Memory

variable {root v buffer size : Nat} {k : Kernel} {free : List Nat} {user now next : UserSpace}
  {text : List UInt8} {c : UInt8}

theorem HoldsUser.loadVirt_byteAt (holds : HoldsUser root k free user) (low : v < 2 ^ 47) :
    k.loadVirt v = user.byteAt v := holds.loadVirt low

theorem HoldsUser.put (holds : HoldsUser root k free user) (low : v < 2 ^ 47)
    (writable : user.WritableAt v) (value : UInt8) :
    ∃ k' next, k.storeVirt v value = some k' ∧ HoldsUser root k' free next ∧
      user.Put v value next := by
  rcases writable with ⟨page, present, rights⟩
  rcases holds.storeVirt_writable low present rights value with ⟨k', stored, after⟩
  refine ⟨k', _, stored, after, ?_, ?_, ?_⟩
  · simp [UserSpace.byteAt, UserPage.store]
  · intro w different
    by_cases same : w / 4096 = v / 4096
    · have offset : w % 4096 ≠ v % 4096 := by omega
      simp [UserSpace.byteAt, UserPage.store, same, present, offset]
    · simp [UserSpace.byteAt, Function.update_of_ne same]
  · rintro w ⟨other, presentW, rightsW⟩
    by_cases same : w / 4096 = v / 4096
    · exact ⟨page.store (v % 4096) value, by rw [same, Function.update_self], rights⟩
    · exact ⟨other, by rw [Function.update_of_ne same, presentW], rightsW⟩

theorem UserSpace.Buffer.shrink {less : Nat} (space : user.Buffer buffer size)
    (smaller : less ≤ size) :
    user.Buffer buffer less :=
  fun i bound => space i (by omega)

theorem LineAt.start (user : UserSpace) (buffer size : Nat) : LineAt user buffer size [] user where
  here := fun i bound => absurd bound (Nat.not_lt_zero i)
  outside := fun _ _ => rfl
  writable := fun _ writable => writable

theorem LineAt.dropLast (stored : LineAt user buffer size text now) :
    LineAt user buffer size text.dropLast now where
  here := by
    intro i bound
    rw [List.length_dropLast] at bound
    rw [stored.here i (by omega), List.getElem?_dropLast, if_pos bound]
  outside := stored.outside
  writable := stored.writable

theorem LineAt.snoc (stored : LineAt user buffer size text now) (room : text.length < size)
    (put : now.Put (buffer + text.length) c next) : LineAt user buffer size (text ++ [c]) next where
  here := by
    intro i bound
    rw [List.length_append, List.length_singleton] at bound
    by_cases last : i = text.length
    · rw [last, put.here, List.getElem?_concat_length]
    · rw [put.others _ (by omega), stored.here i (by omega), List.getElem?_append_left (by omega)]
  outside := by
    intro v apart
    rw [put.others v (by omega)]
    exact stored.outside v apart
  writable := fun v writable => put.writable v (stored.writable v writable)

end Memory

section ReadLoop

variable {root buffer size length n : Nat} {k k' : Kernel} {free : List Nat} {user now : UserSpace}
  {text out rest keys more : List UInt8}

theorem readLoop_done (long : size ≤ length) :
    System.readLoop buffer size keys length k = some (k, length) := by
  cases keys <;> exact if_neg (Nat.not_lt.mpr long)

theorem readLoop_waits (buffer : Nat) (k : Kernel) (short : typeUntil 8 size text keys = none) :
    System.readLoop buffer size keys text.length k = none := by
  induction keys generalizing text k with
  | nil =>
      have below := typeUntil_none_short short
      rw [System.readLoop, if_pos below]
  | cons c keys ih =>
      have below := typeUntil_none_short short
      rw [typeUntil_next below] at short
      rw [System.readLoop, if_pos below]
      by_cases erasing : c = 8
      · rw [if_pos erasing, ← List.length_dropLast]
        rw [erasing, typed_erase] at short
        exact ih _ short
      · rw [if_neg erasing]
        rw [typed_char erasing] at short
        cases k.storeVirt ((buffer + text.length) % 2 ^ 64) c with
        | none => rfl
        | some k' =>
            have length : text.length + 1 = (text ++ [c]).length := by simp
            rw [length]
            exact ih _ short

/-- When the line is long enough the loop returns it. -/
theorem readLoop_returns (space : user.Buffer buffer size) (holds : HoldsUser root k free now)
    (stored : LineAt user buffer size text now)
    (typed : typeUntil 8 size text keys = some (out, rest)) :
    ∃ k' next, System.readLoop buffer size keys text.length k = some (k', out.length) ∧
      HoldsUser root k' free next ∧ LineAt user buffer size out next := by
  induction keys generalizing text k now with
  | nil =>
      by_cases long : size ≤ text.length
      · rw [typeUntil_done long] at typed
        cases typed
        exact ⟨k, now, readLoop_done long, holds, stored⟩
      · rw [typeUntil_nil (by omega)] at typed
        cases typed
  | cons c keys ih =>
      by_cases long : size ≤ text.length
      · rw [typeUntil_done long] at typed
        cases typed
        exact ⟨k, now, readLoop_done long, holds, stored⟩
      · have below : text.length < size := by omega
        rw [typeUntil_next below] at typed
        rw [System.readLoop, if_pos below]
        by_cases erasing : c = 8
        · rw [if_pos erasing, ← List.length_dropLast]
          rw [erasing, typed_erase] at typed
          exact ih holds stored.dropLast typed
        · rcases space text.length below with ⟨low, writable⟩
          rcases holds.put low (stored.writable _ writable) c with ⟨k', next, put, after, changed⟩
          rw [typed_char erasing] at typed
          rw [if_neg erasing, Nat.mod_eq_of_lt (by omega), put]
          have length : text.length + 1 = (text ++ [c]).length := by simp
          simp only [length]
          exact ih after (stored.snoc below changed) typed

theorem readLoop_append (read : System.readLoop buffer size keys length k = some (k', n)) :
    System.readLoop buffer size (keys ++ more) length k = some (k', n) := by
  induction keys generalizing length k with
  | nil =>
      by_cases below : length < size
      · rw [System.readLoop, if_pos below] at read
        cases read
      · rw [readLoop_done (by omega)] at read ⊢
        exact read
  | cons c keys ih =>
      rw [List.cons_append, System.readLoop]
      rw [System.readLoop] at read
      by_cases below : length < size
      · rw [if_pos below] at read ⊢
        by_cases erasing : c = 8
        · rw [if_pos erasing] at read ⊢
          exact ih read
        · rw [if_neg erasing] at read ⊢
          cases stored : k.storeVirt ((buffer + length) % 2 ^ 64) c with
          | none =>
              rw [stored] at read
              cases read
          | some next =>
              rw [stored] at read
              exact ih read
      · rw [if_neg below] at read ⊢
        exact read

theorem readLoop_length (room : length ≤ size)
    (read : System.readLoop buffer size keys length k = some (k', n)) : n = size := by
  induction keys generalizing length k with
  | nil =>
      rw [System.readLoop] at read
      split at read
      · cases read
      · cases read
        omega
  | cons c keys ih =>
      rw [System.readLoop] at read
      split at read
      · split at read
        · exact ih (by omega) read
        · split at read
          · cases read
          · exact ih (by omega) read
      · cases read
        omega

end ReadLoop

section SysRead

variable {root : Nat} {s s' : System} {data : MouseData} {buffer size fd : UInt64} {free : List Nat}
  {user : UserSpace} {c : UInt8} {keys more out rest : List UInt8} {value : UInt64}

theorem sysRead_empty (stdin : fd = 0 ∨ fd = 3) : s.sysRead ⟨[], data⟩ fd buffer size = none := by
  rw [System.sysRead, if_neg (by tauto)]
  rfl

theorem sysRead_waits (stdin : fd = 0 ∨ fd = 3) (short : typeUntil 8 size.toNat [c] keys = none) :
    s.sysRead ⟨c :: keys, data⟩ fd buffer size = none := by
  rw [System.sysRead, if_neg (by tauto)]
  simp only [List.head?_cons, List.tail_cons, Option.bind_eq_bind, Option.bind_some]
  cases s.kernel.storeVirt buffer.toNat c with
  | none => rfl
  | some k =>
      have waits := readLoop_waits buffer.toNat k short
      rw [List.length_singleton] at waits
      simp only [Option.bind_some, waits, Option.bind_none]

theorem sysRead_returns (data : MouseData) (stdin : fd = 0 ∨ fd = 3) (positive : 0 < size.toNat)
    (holds : HoldsUser root s.kernel free user) (space : user.Buffer buffer.toNat size.toNat)
    (typed : typeUntil 8 size.toNat [c] keys = some (out, rest)) :
    ∃ k next, s.sysRead ⟨c :: keys, data⟩ fd buffer size =
        some ({ s with kernel := k }, .returns (UInt64.ofNat out.length)) ∧
      HoldsUser root k free next ∧ LineAt user buffer.toNat size.toNat out next := by
  rcases space 0 positive with ⟨low, writable⟩
  rcases holds.put low writable c with ⟨k1, first, stored, after, changed⟩
  have begun := LineAt.snoc (.start user buffer.toNat size.toNat) positive changed
  rcases readLoop_returns space after begun typed with ⟨k2, next, read, ended, line⟩
  rw [List.nil_append, List.length_singleton] at read
  refine ⟨k2, next, ?_, ended, line⟩
  rw [System.sysRead, if_neg (by tauto)]
  simp only [List.head?_cons, List.tail_cons, Option.bind_eq_bind, Option.bind_some]
  rw [Nat.add_zero] at stored
  simp only [stored, Option.bind_some, read]
  rfl

theorem sysRead_append (more : List UInt8)
    (call : s.sysRead ⟨keys, data⟩ fd buffer size = some (s', .returns value)) :
    s.sysRead ⟨keys ++ more, data⟩ fd buffer size = some (s', .returns value) := by
  rw [System.sysRead] at call ⊢
  split at call
  · rename_i invalid
    rw [if_pos invalid]
    exact call
  · rename_i valid
    rw [if_neg valid]
    simp only [Option.bind_eq_bind, Option.bind_eq_some_iff] at call
    rcases call with ⟨c, head, k1, stored, ⟨k2, n⟩, read, result⟩
    rcases List.head?_eq_some_iff.mp head with ⟨tail, rfl⟩
    rw [List.tail_cons] at read
    simp only [List.cons_append, List.head?_cons, List.tail_cons, Option.bind_eq_bind,
      Option.bind_some, stored, readLoop_append read]
    exact result

/-- What a call with characters left returns. -/
theorem sysRead_value (stdin : fd = 0 ∨ fd = 3)
    (call : s.sysRead ⟨keys, data⟩ fd buffer size = some (s', .returns value)) :
    value = if size = 0 then 1 else size := by
  rw [System.sysRead, if_neg (by tauto)] at call
  simp only [Option.bind_eq_bind, Option.bind_eq_some_iff] at call
  rcases call with ⟨c, head, k1, stored, ⟨k2, n⟩, read, result⟩
  cases result
  by_cases zero : size = 0
  · rw [if_pos zero]
    rw [zero] at read
    rw [readLoop_done (by decide)] at read
    cases read
    rfl
  · have positive : size.toNat ≠ 0 := fun same => zero (UInt64.toNat_inj.mp same)
    rw [if_neg zero, readLoop_length (by omega) read, UInt64.ofNat_toNat]

end SysRead

/-- A read takes the shortest part of the stream that makes a line of `size` characters, and stores
the line and nothing else. Without such a part it waits. -/
structure System.EditsLine (s : System) (data : MouseData) (stream : Nat → UInt8)
    (buffer size : UInt64) :
    Prop where
  complete : ∀ m, Shortest 8 size.toNat stream m → ∃ s',
    (∀ j, s.sysRead ⟨front stream j, data⟩ 0 buffer size = if j < m then none
      else some (s', .returns size)) ∧
    ∀ v < 2 ^ 47, s'.kernel.loadVirt v =
      if buffer.toNat ≤ v ∧
        v < buffer.toNat + size.toNat then (typedAll 8 [] (front stream m))[v - buffer.toNat]?
      else s.kernel.loadVirt v
  endless : (∀ m, ¬ Shortest 8 size.toNat stream m) →
    ∀ j, s.sysRead ⟨front stream j, data⟩ 0 buffer size = none

/-- A leading BACKSPACE is itself erased, by one that meets an empty line, before `n - 1` characters
stand after it. -/
def LeadingErased (stream : Nat → UInt8) (n : Nat) : Prop :=
  stream 0 = 8 → ∀ k, Effective 8 [] (front (fun i => stream (i + 1)) k) →
    (typedAll 8 [] (front (fun i => stream (i + 1)) k)).length + 1 ≠ n

section Editor

variable {root : Nat} {s s' : System} {data : MouseData} {buffer size fd : UInt64} {free : List Nat}
  {user : UserSpace} {stream : Nat → UInt8} {n : Nat}

theorem leading_typed (positive : n ≠ 0) (erased : LeadingErased stream n) (j : Nat) :
    typeUntil 8 n [stream 0] (front (fun i => stream (i + 1)) j) =
      typeUntil 8 n [] (front stream (j + 1)) := by
  have short : ([] : List UInt8).length < n := Nat.pos_of_ne_zero positive
  rw [front_succ, typeUntil_next short]
  by_cases leading : stream 0 = 8
  · rw [leading, typed_erase, List.dropLast_nil]
    rcases typeUntil_leading 8 short (front (fun i => stream (i + 1)) j) with
      same | ⟨k, bound, effective, length⟩
    · exact same
    · rw [front_length] at bound
      rw [front_take bound] at effective length
      exact absurd length (erased leading k effective)
  · rw [typed_char leading, List.nil_append]

theorem leading_stored (leading : stream 0 = 8) {k : Nat}
    (effective : Effective 8 [] (front (fun i => stream (i + 1)) k))
    (length : (typedAll 8 [] (front (fun i => stream (i + 1)) k)).length + 1 = n) :
    ∃ j, typeUntil 8 n [stream 0] (front (fun i => stream (i + 1)) j) ≠ none ∧
      typeUntil 8 n [] (front stream (j + 1)) = none := by
  have whole : (front (fun i => stream (i + 1)) k).take k = front (fun i => stream (i + 1)) k :=
    front_take (le_refl k)
  rcases typeUntil_premature (n := n) (8 : UInt8) (whole.symm ▸ effective) (whole.symm ▸ length)
    (by simp) with
    ⟨m, bound, early, late⟩
  rw [front_length] at bound
  rw [front_take bound] at early late
  refine ⟨m, leading.symm ▸ early, ?_⟩
  have positive : ([] : List UInt8).length < n := by
    rw [List.length_nil]
    omega
  rw [front_succ, typeUntil_next positive, leading, typed_erase]
  exact late

theorem LineAt.loadVirt {k k' : Kernel} {now : UserSpace} {text : List UInt8} {start length v : Nat}
    (before : HoldsUser root k free user) (after : HoldsUser root k' free now)
    (stored : LineAt user start length text now) (full : text.length = length) (low : v < 2 ^ 47) :
    k'.loadVirt v = if start ≤ v ∧ v < start + length then text[v - start]? else k.loadVirt v := by
  rw [after.loadVirt_byteAt low, before.loadVirt_byteAt low]
  split_ifs with inside
  · have here := stored.here (v - start) (by omega)
    rwa [Nat.add_sub_cancel' inside.1] at here
  · exact stored.outside v (by omega)

theorem System.EditsLine.leading (edits : s.EditsLine data stream buffer size)
    (holds : HoldsUser root s.kernel free user) (space : user.Buffer buffer.toNat size.toNat) :
    size.toNat ≠ 0 ∧ LeadingErased stream size.toNat := by
  have stdin : (0 : UInt64) = 0 ∨ (0 : UInt64) = 3 := .inl rfl
  have positive : size.toNat ≠ 0 := by
    intro zero
    have nothing : Shortest 8 size.toNat stream 0 :=
      ⟨zero.symm, fun j below => absurd below (Nat.not_lt_zero j)⟩
    rcases edits.complete 0 nothing with ⟨s', reads, _⟩
    have call := reads 0
    rw [front, List.range_zero, List.map_nil, sysRead_empty stdin] at call
    cases call
  refine ⟨positive, fun leading k effective length => ?_⟩
  -- the call returns while the line is still too short
  rcases leading_stored leading effective length with ⟨j, early, late⟩
  cases typed : typeUntil 8 size.toNat [stream 0] (front (fun i => stream (i + 1)) j) with
  | none => exact early typed
  | some result =>
      rcases sysRead_returns data stdin (by omega) holds space typed with ⟨k', _, call, _⟩
      rw [← front_succ] at call
      by_cases completes : ∃ m, Shortest 8 size.toNat stream m
      · rcases completes with ⟨m, shortest⟩
        rcases edits.complete m shortest with ⟨s', reads, _⟩
        rw [shortest.typeUntil] at late
        split_ifs at late with below
        rw [reads, if_pos below] at call
        cases call
      · rw [edits.endless (not_exists.mp completes)] at call
        cases call

theorem edits_of_leading (holds : HoldsUser root s.kernel free user)
    (space : user.Buffer buffer.toNat size.toNat) (positive : size.toNat ≠ 0)
    (erased : LeadingErased stream size.toNat) : s.EditsLine data stream buffer size := by
  have stdin : (0 : UInt64) = 0 ∨ (0 : UInt64) = 3 := .inl rfl
  have waits : ∀ j, typeUntil 8 size.toNat [] (front stream j) = none →
      s.sysRead ⟨front stream j, data⟩ 0 buffer size = none := by
    intro j short
    cases j with
    | zero => exact sysRead_empty stdin
    | succ j =>
        rw [← leading_typed positive erased] at short
        rw [front_succ]
        exact sysRead_waits stdin short
  constructor
  · intro m shortest
    have started : m ≠ 0 := by
      rintro rfl
      exact positive shortest.length_eq.symm
    rcases Nat.exists_eq_succ_of_ne_zero started with ⟨i, rfl⟩
    have typed := shortest.typeUntil (i + 1)
    rw [if_neg (Nat.lt_irrefl _), ← leading_typed positive erased] at typed
    rcases sysRead_returns data stdin (by omega) holds space typed with
      ⟨k', next, call, after, stored⟩
    rw [shortest.length_eq, UInt64.ofNat_toNat, ← front_succ] at call
    refine ⟨{ s with kernel := k' }, fun j => ?_, fun v low =>
      stored.loadVirt holds after shortest.length_eq low⟩
    by_cases below : j < i + 1
    · rw [if_pos below]
      apply waits
      rw [shortest.typeUntil, if_pos below]
    · have split : front stream j = front stream (i + 1) ++ (front stream j).drop (i + 1) := by
        rw [← front_take (show i + 1 ≤ j by omega), List.take_append_drop]
      rw [if_neg below, split]
      exact sysRead_append _ call
  · exact fun endless j => waits j (typeUntil_endless endless j)

/-- Blocking `sys_read` is the line editor unless it is asked for nothing or the first character is
a BACKSPACE that stays. -/
theorem sysRead_edits_iff (holds : HoldsUser root s.kernel free user)
    (space : user.Buffer buffer.toNat size.toNat) :
    s.EditsLine data stream buffer size ↔ size ≠ 0 ∧ LeadingErased stream size.toNat := by
  have nonzero : size ≠ 0 ↔ size.toNat ≠ 0 := UInt64.toNat_inj.symm.not
  constructor
  · intro edits
    rcases edits.leading holds space with ⟨positive, erased⟩
    exact ⟨nonzero.mpr positive, erased⟩
  · rintro ⟨positive, erased⟩
    exact edits_of_leading holds space (nonzero.mp positive) erased

end Editor

def CharBuffer.kgetcs (blocking : Bool) : Nat → CharBuffer → Option (List UInt8 × CharBuffer)
  | 0, b => some ([], b)
  | m + 1, b => do
      let (c, b) ← b.kgetc blocking
      let (cs, b) ← kgetcs blocking m b
      return (c :: cs, b)

/-- A read that does not wait takes the characters that are there, as many as asked for, stores them
and nothing else, and returns their number. -/
def System.ReadsAvailable (s : System) (data : MouseData) (b : CharBuffer) (queue : List UInt8)
    (buffer size : UInt64) : Prop :=
  ∃ keys b' s', b.kgetcs false keys.length = some (keys, b') ∧
    (∀ j, s.sysRead ⟨keys.take j, data⟩ 3 buffer size =
      if j < keys.length then none
        else some (s', .returns (UInt64.ofNat (min size.toNat queue.length)))) ∧
    Queued b' (queue.drop (min size.toNat queue.length)) ∧
    ∀ v < 2 ^ 47, s'.kernel.loadVirt v =
      if buffer.toNat ≤ v ∧
        v < buffer.toNat + min size.toNat queue.length then queue[v - buffer.toNat]?
      else s.kernel.loadVirt v

section Available

variable {root m : Nat} {s s' : System} {data : MouseData} {buffer size : UInt64} {free : List Nat}
  {user : UserSpace} {b b' : CharBuffer} {queue : List UInt8}

theorem kgetcs_queued (queued : Queued b queue) (blocking : Bool) (enough : m ≤ queue.length) :
    ∃ b', b.kgetcs blocking m = some (queue.take m, b') ∧ Queued b' (queue.drop m) := by
  induction m generalizing b queue with
  | zero => exact ⟨b, by rw [CharBuffer.kgetcs, List.take_zero], queued⟩
  | succ m ih =>
      cases queue with
      | nil => cases enough
      | cons c rest =>
          rcases kgetc_represents queued blocking with ⟨b1, read, kept⟩
          rcases ih kept (Nat.le_of_succ_le_succ enough) with ⟨b2, reads, left⟩
          exact ⟨b2, by simp [CharBuffer.kgetcs, read, reads], left⟩

theorem available_of_enough (queued : Queued b queue) (plain : 8 ∉ queue)
    (holds : HoldsUser root s.kernel free user) (space : user.Buffer buffer.toNat size.toNat)
    (positive : 1 ≤ size.toNat) (enough : size.toNat ≤ queue.length) :
    s.ReadsAvailable data b queue buffer size := by
  have nonblocking : (3 : UInt64) = 0 ∨ (3 : UInt64) = 3 := .inr rfl
  have least : min size.toNat queue.length = size.toNat := Nat.min_eq_left enough
  rcases kgetcs_queued queued false enough with ⟨b', reads, left⟩
  have length : (queue.take size.toNat).length = size.toNat := by rw [List.length_take, least]
  cases taken : queue.take size.toNat with
  | nil =>
      rw [taken] at length
      exact absurd length.symm (by simp only [List.length_nil]; omega)
  | cons c keys =>
      rw [taken, List.length_cons] at length
      have clean : 8 ∉ keys := by
        intro member
        apply plain
        apply List.mem_of_mem_take
        rw [taken]
        exact List.mem_cons_of_mem c member
      have fills : [c].length + keys.length = size.toNat := by
        rw [List.length_singleton, Nat.add_comm, length]
      have typed := typeUntil_plain clean fills
      rw [List.singleton_append, ← taken] at typed
      rcases sysRead_returns data nonblocking positive holds space typed with
        ⟨k, next, call, after, stored⟩
      rw [taken, List.length_cons, length] at call
      refine ⟨c :: keys, b', { s with kernel := k }, ?_, fun j => ?_, ?_, fun v low => ?_⟩
      · rw [List.length_cons, length, reads, taken]
      · rw [least, List.length_cons]
        by_cases below : j < keys.length + 1
        · rw [if_pos below]
          cases j with
          | zero => exact sysRead_empty nonblocking
          | succ j =>
              rw [List.take_succ_cons]
              apply sysRead_waits nonblocking
              apply typeUntil_plain_short fun member => clean (List.mem_of_mem_take member)
              rw [List.length_take, List.length_singleton]
              omega
        · rw [if_neg below, List.take_of_length_le (by rw [List.length_cons]; omega)]
          exact call
      · rw [least]
        exact left
      · rw [least, stored.loadVirt holds after (by rw [taken, List.length_cons, length]) low]
        split_ifs with inside
        · exact List.getElem?_take_of_lt (by omega)
        · rfl

theorem System.ReadsAvailable.enough (reads : s.ReadsAvailable data b queue buffer size) :
    1 ≤ size.toNat ∧ size.toNat ≤ queue.length := by
  rcases reads with ⟨keys, b', s', _, calls, _⟩
  have call := calls keys.length
  rw [if_neg (Nat.lt_irrefl _)] at call
  have value := sysRead_value (.inr rfl) call
  have least : min size.toNat queue.length < 2 ^ 64 :=
    Nat.lt_of_le_of_lt (Nat.min_le_left ..) size.toNat_lt
  have number : min size.toNat queue.length = if size = 0 then 1 else size.toNat := by
    have same := congrArg UInt64.toNat value
    rw [UInt64.toNat_ofNat_of_lt' least] at same
    rw [same]
    split_ifs <;> rfl
  by_cases zero : size = 0
  · rw [if_pos zero, zero] at number
    have none : min (0 : UInt64).toNat queue.length = 0 := Nat.zero_min _
    omega
  · rw [if_neg zero] at number
    have positive : size.toNat ≠ 0 := fun none => zero (UInt64.toNat_inj.mp none)
    exact ⟨Nat.pos_of_ne_zero positive, min_eq_left_iff.mp number⟩

/-- A read that does not wait reports real input exactly when there is as much as it is asked for.
-/
theorem sysRead_available_iff (queued : Queued b queue) (plain : 8 ∉ queue)
    (holds : HoldsUser root s.kernel free user) (space : user.Buffer buffer.toNat size.toNat) :
    s.ReadsAvailable data b queue buffer size ↔ 1 ≤ size.toNat ∧ size.toNat ≤ queue.length :=
  ⟨fun reads => reads.enough, fun enough =>
    available_of_enough queued plain holds space enough.1 enough.2⟩

end Available

theorem bare_buffer : ∃ (s : System) (free : List Nat) (user : UserSpace),
    HoldsUser 0x1000 s.kernel free user ∧ user.Buffer (0x400000 : UInt64).toNat 4096 := by
  rcases bare_emptyLower.holds.vmMap_new (show 0x400000 < 2 ^ 47 by decide) rfl (by decide) with
    ⟨k, free, call, holds, _⟩
  have start : (0x400000 : UInt64).toNat = 0x400000 := rfl
  refine ⟨{ bareSystem with kernel := k }, free, _, holds, fun i bound =>
    ⟨by omega, zeroPage, ?_, rfl⟩⟩
  have page : ((0x400000 : UInt64).toNat + i) / 4096 = 0x400000 / 4096 := by omega
  rw [page, Function.update_self]

theorem plain_line_edited : ∃ s : System, s.EditsLine idleInput.data (fun _ => 97) 0x400000 3 := by
  rcases bare_buffer with ⟨s, free, user, holds, space⟩
  refine ⟨s, (sysRead_edits_iff holds (space.shrink (by decide))).mpr ⟨by decide, ?_⟩⟩
  intro leading
  cases leading

theorem leading_backspace_delivered : ∃ s s' : System,
    s.sysRead ⟨[8], idleInput.data⟩ 0 0x400000 1 = some (s', .returns 1) ∧
      s'.kernel.loadVirt 0x400000 = some 8 ∧
      ¬ s.EditsLine idleInput.data (fun i => if i = 0 then 8 else 97) 0x400000 1 ∧
      ∀ stream, ¬ s.EditsLine idleInput.data stream 0x400000 0 := by
  rcases bare_buffer with ⟨s, free, user, holds, space⟩
  have one := space.shrink (show (1 : UInt64).toNat ≤ 4096 by decide)
  have typed : typeUntil (8 : UInt8) (1 : UInt64).toNat [8] [] = some ([8], []) := by decide
  rcases sysRead_returns idleInput.data (.inl rfl) (by decide) holds one typed with
    ⟨k, next, call, after, stored⟩
  refine ⟨s, _, call, ?_, ?_, ?_⟩
  · rw [after.loadVirt_byteAt (by decide)]
    exact stored.here 0 (by decide)
  · intro edits
    exact (edits.leading holds one).2 rfl 0 trivial rfl
  · intro stream edits
    exact (edits.leading holds (space.shrink (by decide))).1 rfl

theorem typed_character_available : ∃ (s : System) (b : CharBuffer),
    s.ReadsAvailable idleInput.data b [97] 0x400000 1 := by
  rcases bare_buffer with ⟨s, free, user, holds, space⟩
  have queued := put_represents (empty_queued fun _ => 0) 97
  rw [if_neg (by decide), List.nil_append] at queued
  exact ⟨s, _, (sysRead_available_iff queued (by decide) holds (space.shrink (by decide))).mpr
    (by decide)⟩

theorem empty_buffer_reported : ∃ (s s' : System) (b : CharBuffer), Queued b [] ∧
    b.kgetcs false 1 = some ([0], b) ∧ s.sysRead ⟨[0], idleInput.data⟩ 3 0x400000 1 =
      some (s', .returns 1) ∧
      s'.kernel.loadVirt 0x400000 = some 0 ∧ ¬ s.ReadsAvailable idleInput.data b [] 0x400000 1 ∧
      ∀ b' queue, ¬ s.ReadsAvailable idleInput.data b' queue 0x400000 0 := by
  rcases bare_buffer with ⟨s, free, user, holds, space⟩
  have queued := empty_queued fun _ => 0
  have one := space.shrink (show (1 : UInt64).toNat ≤ 4096 by decide)
  have typed : typeUntil (8 : UInt8) (1 : UInt64).toNat [0] [] = some ([0], []) := by decide
  rcases sysRead_returns idleInput.data (.inr rfl) (by decide) holds one typed with
    ⟨k, next, call, after, stored⟩
  refine ⟨s, _, _, queued, rfl, call, ?_, ?_, ?_⟩
  · rw [after.loadVirt_byteAt (by decide)]
    exact stored.here 0 (by decide)
  · intro reads
    cases reads.enough.2
  · intro b' queue reads
    cases reads.enough.1

end PaintKernel
