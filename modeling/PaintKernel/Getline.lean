import Mathlib
import PaintKernel.ReadLine

set_option autoImplicit false

/-! `getline` of the standard library, which reads one character at a time. -/

namespace PaintKernel

open LineEditing

def unread (size : Nat) : List UInt8 → Nat → List UInt8
  | [], _ => []
  | c :: keys, length =>
      if length < size then unread size keys (if c = 8 then length - 1 else length + 1)
        else c :: keys

def System.read (input : Input) (s : System) (fildes buf nbyte : UInt64) :
    Option (System × UInt64) :=
  match s.syscallHandler input 0 fildes buf nbyte 0 0 0 with
  | some (s, .returns rax) => some (s, intReturn rax)
  | _ => none

/-- The loop with `left` rounds to go, the value returned and `*linecapp` after it. -/
def System.getlineLoop (data : MouseData) (linep linecapp : UInt64) :
    Nat → UInt64 → List UInt8 → System → Option (System × UInt64 × UInt64)
  | 0, i, _, s => some (s, i, i)
  | left + 1, i, keys, s => do
      let (s, count) ← s.read ⟨keys, data⟩ 0 (linep + i) 1
      if count = -1 then return (s, -1, linecapp)
      let c ← s.kernel.loadVirt (linep + i).toNat
      if c = 10 then return (s, i + 1, linecapp)
      getlineLoop data linep linecapp left (i + 1) (unread 1 keys.tail 1) s

/-- The descriptor is not looked at. -/
def System.getline (s : System) (input : Input) (linep linecapp _filedes : UInt64) :
    Option (System × UInt64 × UInt64) :=
  s.getlineLoop input.data linep linecapp linecapp.toNat 0 input.keys

/-- `getline` takes the shortest part of the stream that makes a line with a newline or of full
length, and stores and returns that line. Without such a part it waits. -/
structure System.GetsLine (s : System) (data : MouseData) (stream : Nat → UInt8)
    (linep linecapp : UInt64) :
    Prop where
  complete : ∀ m, ShortestEnded 10 8 linecapp.toNat stream m → ∃ s' capacity,
    (∀ j, s.getline ⟨front stream j, data⟩ linep linecapp 0 = if j < m then none
      else some (s', UInt64.ofNat (typedAll 8 [] (front stream m)).length, capacity)) ∧
    (∀ i < (typedAll 8 [] (front stream m)).length,
      s'.kernel.loadVirt (linep.toNat + i) = (typedAll 8 [] (front stream m))[i]?) ∧
    8 ∉ typedAll 8 [] (front stream m)
  endless : (∀ m, ¬ ShortestEnded 10 8 linecapp.toNat stream m) →
    ∀ j, s.getline ⟨front stream j, data⟩ linep linecapp 0 = none

section Read

variable {root length n : Nat} {s : System} {data : MouseData} {v : UInt64} {free : List Nat}
  {user next : UserSpace} {c : UInt8} {keys text out rest : List UInt8}

theorem LineAt.put (stored : LineAt user n 1 [c] next) : user.Put n c next where
  here := stored.here 0 (by simp)
  others := fun w different => stored.outside w (by omega)
  writable := stored.writable

theorem read_waits : s.read ⟨[], data⟩ 0 v 1 = none := by
  rw [System.read, System.syscallHandler, if_neg (by decide), if_pos rfl, sysRead_empty (.inl rfl)]

theorem read_one (data : MouseData) (c : UInt8) (holds : HoldsUser root s.kernel free user)
    (space : user.Buffer v.toNat 1) :
    ∃ k next, (∀ keys, s.read ⟨c :: keys, data⟩ 0 v 1 = some ({ s with kernel := k }, 1)) ∧
      HoldsUser root k free next ∧ user.Put v.toNat c next := by
  have long : (1 : UInt64).toNat ≤ [c].length := le_refl 1
  rcases sysRead_returns data (.inl rfl) (by decide) holds space (typeUntil_done long []) with
    ⟨k, next, call, after, stored⟩
  refine ⟨k, next, fun keys => ?_, after, stored.put⟩
  have more := sysRead_append keys call
  rw [List.singleton_append] at more
  rw [System.read, System.syscallHandler, if_neg (by decide), if_pos rfl, more]
  rfl

end Read

section Loop

variable {root left : Nat} {s : System} {data : MouseData} {linep linecapp : UInt64}
  {free : List Nat}
  {user now : UserSpace} {keys text out : List UInt8}

theorem round_address (space : user.Buffer linep.toNat linecapp.toNat)
    (position : text.length + (left + 1) = linecapp.toNat) :
    (linep + UInt64.ofNat text.length).toNat = linep.toNat + text.length := by
  have low := (space text.length (by omega)).1
  have bound : text.length < UInt64.size := Nat.lt_of_le_of_lt (by omega) linecapp.toNat_lt
  rw [UInt64.toNat_add, UInt64.toNat_ofNat_of_lt' bound, Nat.mod_eq_of_lt (by omega)]

theorem LineAt.room (stored : LineAt user linep.toNat linecapp.toNat text now)
    (space : user.Buffer linep.toNat linecapp.toNat)
    (position : text.length + (left + 1) = linecapp.toNat) :
    now.Buffer (linep + UInt64.ofNat text.length).toNat 1 := by
  rw [round_address space position]
  intro i bound
  rcases space (text.length + i) (by omega) with ⟨low, writable⟩
  rw [← Nat.add_assoc] at low writable
  exact ⟨low, stored.writable _ writable⟩

theorem getlineLoop_round (data : MouseData) (c : UInt8) (holds : HoldsUser root s.kernel free now)
    (space : user.Buffer linep.toNat linecapp.toNat)
    (stored : LineAt user linep.toNat linecapp.toNat text now)
    (position : text.length + (left + 1) = linecapp.toNat) :
    ∃ k next, HoldsUser root k free next ∧
      LineAt user linep.toNat linecapp.toNat (text ++ [c]) next ∧
      ∀ keys, s.getlineLoop data linep linecapp (left + 1) (UInt64.ofNat text.length) (c :: keys) =
        if c = 10 then some ({ s with kernel := k }, UInt64.ofNat (text ++ [c]).length, linecapp)
        else { s with kernel := k : System }.getlineLoop data linep linecapp left
          (UInt64.ofNat (text ++ [c]).length) keys := by
  rcases read_one data c holds (stored.room space position) with ⟨k, next, reads, after, put⟩
  rw [round_address space position] at put
  refine ⟨k, next, after, stored.snoc (by omega) put, fun keys => ?_⟩
  have low := (space text.length (by omega)).1
  have loaded : k.loadVirt (linep + UInt64.ofNat text.length).toNat = some c := by
    rw [round_address space position, after.loadVirt_byteAt low, put.here]
  have length : UInt64.ofNat text.length + 1 = UInt64.ofNat (text ++ [c]).length := by
    rw [List.length_append, List.length_singleton, UInt64.ofNat_add]
    rfl
  have left_keys : unread 1 keys 1 = keys := by
    cases keys <;> rfl
  rw [System.getlineLoop, reads]
  simp only [Option.bind_eq_bind, Option.bind_some, loaded, length, List.tail_cons, left_keys]
  rw [if_neg (by decide)]
  rfl

theorem getlineLoop_waits (holds : HoldsUser root s.kernel free now)
    (space : user.Buffer linep.toNat linecapp.toNat)
    (stored : LineAt user linep.toNat linecapp.toNat text now)
    (position : text.length + left = linecapp.toNat) (short : takeLine 10 left keys = none) :
    s.getlineLoop data linep linecapp left (UInt64.ofNat text.length) keys = none := by
  induction left generalizing s keys text now with
  | zero => cases short
  | succ left ih =>
      cases keys with
      | nil =>
          rw [System.getlineLoop, read_waits]
          rfl
      | cons c keys =>
          rcases getlineLoop_round data c holds space stored position with
            ⟨k, next, after, longer, round⟩
          rw [takeLine] at short
          split_ifs at short with stops
          rw [Option.map_eq_none_iff] at short
          have position' : (text ++ [c]).length + left = linecapp.toNat := by
            rw [List.length_append, List.length_singleton]
            omega
          rw [round, if_neg stops]
          exact ih after longer position' short

theorem getlineLoop_returns (data : MouseData) (holds : HoldsUser root s.kernel free now)
    (space : user.Buffer linep.toNat linecapp.toNat)
    (stored : LineAt user linep.toNat linecapp.toNat text now)
    (position : text.length + left = linecapp.toNat) (taken : takeLine 10 left keys = some out) :
    ∃ k next, HoldsUser root k free next ∧
      LineAt user linep.toNat linecapp.toNat (text ++ out) next ∧
      ∀ more, s.getlineLoop data linep linecapp left (UInt64.ofNat text.length) (keys ++ more) =
        some ({ s with kernel := k }, UInt64.ofNat (text ++ out).length, linecapp) := by
  induction left generalizing s keys text now out with
  | zero =>
      cases taken
      rw [Nat.add_zero] at position
      refine ⟨s.kernel, now, holds, (List.append_nil text).symm ▸ stored, fun more => ?_⟩
      rw [System.getlineLoop, List.append_nil, position, UInt64.ofNat_toNat]
  | succ left ih =>
      cases keys with
      | nil => cases taken
      | cons c keys =>
          rcases getlineLoop_round data c holds space stored position with
            ⟨k, next, after, longer, round⟩
          rw [takeLine] at taken
          by_cases stops : c = 10
          · rw [if_pos stops] at taken
            cases taken
            exact ⟨k, next, after, longer,
              fun more => by rw [List.cons_append, round, if_pos stops]⟩
          · rw [if_neg stops] at taken
            rcases Option.map_eq_some_iff.mp taken with ⟨tail, behind, rfl⟩
            have position' : (text ++ [c]).length + left = linecapp.toNat := by
              rw [List.length_append, List.length_singleton]
              omega
            rcases ih (s := { s with kernel := k }) after longer position' behind with
              ⟨k', last, ended, full, rest⟩
            rw [List.append_assoc, List.singleton_append] at full
            simp only [List.append_assoc, List.singleton_append] at rest
            refine ⟨k', last, ended, full, fun more => ?_⟩
            rw [List.cons_append, round, if_neg stops]
            exact rest more

end Loop

/-- Every BACKSPACE among the first `n` characters comes after a newline. -/
def NewlineFirst (stream : Nat → UInt8) (n : Nat) : Prop :=
  ∀ j < n, stream j = 8 → ∃ i < j, stream i = 10

section Getline

variable {root m : Nat} {s : System} {data : MouseData} {stream : Nat → UInt8}
  {linep linecapp : UInt64}
  {free : List Nat} {user : UserSpace}

theorem getline_front (data : MouseData) (stream : Nat → UInt8)
    (holds : HoldsUser root s.kernel free user) (space : user.Buffer linep.toNat linecapp.toNat) :
    ∃ m ≤ linecapp.toNat, (∀ i, i + 1 < m → stream i ≠ 10) ∧
      (m = linecapp.toNat ∨ ∃ i, m = i + 1 ∧ stream i = 10) ∧
      ∃ k, (∀ j, s.getline ⟨front stream j, data⟩ linep linecapp 0 =
          if j < m then none else some ({ s with kernel := k }, UInt64.ofNat m, linecapp)) ∧
        ∀ i < m, k.loadVirt (linep.toNat + i) = some (stream i) := by
  rcases takeLine_front 10 linecapp.toNat stream with ⟨m, bound, apart, ends, takes⟩
  have start := LineAt.start user linep.toNat linecapp.toNat
  have position : ([] : List UInt8).length + linecapp.toNat = linecapp.toNat := Nat.zero_add _
  have taken := takes m
  rw [if_neg (Nat.lt_irrefl m)] at taken
  rcases getlineLoop_returns data holds space start position taken with
    ⟨k, next, after, stored, returns⟩
  rw [List.nil_append] at stored
  simp only [List.nil_append, front_length] at returns
  refine ⟨m, bound, apart, ends, k, fun j => ?_, fun i inside => ?_⟩
  · rw [System.getline]
    by_cases below : j < m
    · rw [if_pos below]
      exact getlineLoop_waits holds space start position ((takes j).trans (if_pos below))
    · have split : front stream j = front stream m ++ (front stream j).drop m := by
        rw [← front_take (show m ≤ j by omega), List.take_append_drop]
      rw [if_neg below, split]
      exact returns _
  · have low := (space i (by omega)).1
    rw [after.loadVirt_byteAt low, stored.here i (by rw [front_length]; exact inside)]
    simp [front, inside]

theorem newlineFirst_iff (apart : ∀ i, i + 1 < m → stream i ≠ 10)
    (ends : m = linecapp.toNat ∨ ∃ i, m = i + 1 ∧ stream i = 10) (bound : m ≤ linecapp.toNat) :
    NewlineFirst stream linecapp.toNat ↔ 8 ∉ front stream m := by
  rw [mem_front]
  constructor
  · rintro first ⟨j, inside, erases⟩
    rcases first j (by omega) erases with ⟨i, before, newline⟩
    exact apart i (by omega) newline
  · intro plain j below erases
    rcases ends with rfl | ⟨i, rfl, newline⟩
    · exact absurd ⟨j, below, erases⟩ plain
    · by_contra none
      have different : j ≠ i := by
        rintro rfl
        rw [erases] at newline
        cases newline
      have behind : ¬ i < j := fun before => none ⟨i, before, newline⟩
      exact plain ⟨j, by omega, erases⟩

/-- A BACKSPACE among what it takes is delivered with the rest. -/
theorem System.GetsLine.newlineFirst (gets : s.GetsLine data stream linep linecapp)
    (holds : HoldsUser root s.kernel free user) (space : user.Buffer linep.toNat linecapp.toNat) :
    NewlineFirst stream linecapp.toNat := by
  rcases getline_front data stream holds space with ⟨m, bound, apart, ends, k, returns, stored⟩
  rw [newlineFirst_iff apart ends bound]
  intro erases
  rcases mem_front.mp erases with ⟨i, inside, same⟩
  by_cases completes : ∃ m', ShortestEnded 10 8 linecapp.toNat stream m'
  · rcases completes with ⟨m', shortest⟩
    rcases gets.complete m' shortest with ⟨s', capacity, calls, bytes, clean⟩
    have call := calls (max m m')
    rw [returns, if_neg (by omega), if_neg (by omega)] at call
    simp only [Option.some.injEq, Prod.mk.injEq] at call
    rcases call with ⟨rfl, number, _⟩
    have long : m ≤ (typedAll 8 [] (front stream m')).length := by
      have number := congrArg UInt64.toNat number
      have small : m < UInt64.size := Nat.lt_of_le_of_lt bound linecapp.toNat_lt
      rw [UInt64.toNat_ofNat_of_lt' small, UInt64.toNat_ofNat'] at number
      rw [number]
      exact Nat.mod_le ..
    have byte := bytes i (by omega)
    rw [stored i inside, same] at byte
    exact clean (List.mem_of_getElem? byte.symm)
  · have call := returns m
    rw [gets.endless (not_exists.mp completes), if_neg (Nat.lt_irrefl m)] at call
    cases call

theorem gets_of_newlineFirst (first : NewlineFirst stream linecapp.toNat)
    (holds : HoldsUser root s.kernel free user) (space : user.Buffer linep.toNat linecapp.toNat) :
    s.GetsLine data stream linep linecapp := by
  rcases getline_front data stream holds space with ⟨m, bound, apart, ends, k, returns, stored⟩
  rw [newlineFirst_iff apart ends bound] at first
  have shortest := shortestEnded_plain apart ends bound first
  have line : typedAll 8 [] (front stream m) = front stream m := typedAll_plain first []
  constructor
  · intro m' other
    obtain rfl := shortest.unique other
    rw [line]
    refine ⟨{ s with kernel := k }, linecapp, fun j => ?_, fun i inside => ?_, first⟩
    · rw [front_length]
      exact returns j
    · rw [front_length] at inside
      rw [stored i inside]
      simp [front, inside]
  · intro endless
    exact absurd shortest (endless m)

/-- `getline` delivers the edited line exactly when no BACKSPACE is among what it takes. -/
theorem getline_edits_iff (holds : HoldsUser root s.kernel free user)
    (space : user.Buffer linep.toNat linecapp.toNat) :
    s.GetsLine data stream linep linecapp ↔ NewlineFirst stream linecapp.toNat :=
  ⟨fun gets => gets.newlineFirst holds space, fun first => gets_of_newlineFirst first holds space⟩

end Getline

theorem plain_line_got : ∃ s : System, s.GetsLine idleInput.data (fun _ => 97) 0x400000 3 := by
  rcases bare_buffer with ⟨s, free, user, holds, space⟩
  refine ⟨s, (getline_edits_iff holds (space.shrink (by decide))).mpr fun j _ erases => ?_⟩
  cases erases

theorem erased_character_got : ∃ s s' : System,
    s.getline ⟨[97, 8, 10], idleInput.data⟩ 0x400000 3 0 = some (s', 3, 3) ∧
      s'.kernel.loadVirt 0x400001 = some 8 ∧
      ¬ s.GetsLine idleInput.data (fun i => if i = 0 then 97 else if i =
        1 then 8 else 10) 0x400000 3 := by
  rcases bare_buffer with ⟨s, free, user, holds, space⟩
  have three := space.shrink (show (3 : UInt64).toNat ≤ 4096 by decide)
  have taken : takeLine (10 : UInt8) (3 : UInt64).toNat [97, 8, 10] = some [97, 8, 10] := by decide
  rcases getlineLoop_returns idleInput.data holds three (LineAt.start ..)
    (Nat.zero_add _) taken with
    ⟨k, next, after, stored, returns⟩
  refine ⟨s, { s with kernel := k }, returns [], ?_, ?_⟩
  · rw [after.loadVirt_byteAt (by decide)]
    exact stored.here 1 (by decide)
  · intro gets
    rcases gets.newlineFirst holds three 1 (by decide) rfl with ⟨i, before, newline⟩
    obtain rfl : i = 0 := by omega
    cases newline

end PaintKernel
