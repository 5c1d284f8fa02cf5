import Mathlib
import PaintKernel.Library.Buffer
import PaintKernel.Library.LineEditing

set_option autoImplicit false

/-! `kgets`: a line from the keyboard into an array. -/

namespace PaintKernel

open Buffer LineEditing

inductive KgetsResult where
  /-- `kgetc` waits for another key. -/
  | waits
  /-- A store is outside the array. -/
  | outside
  /-- The array, the length and the characters not taken. -/
  | returns (output : List UInt8) (length : Nat) (keys : List UInt8)
deriving DecidableEq

def kgetsEnd (keys : List UInt8) (length : Nat) (output : List UInt8) : KgetsResult :=
  match store output length 0 with
  | some output => .returns output length keys
  | none => .outside

/-- The loop, with the characters that `kgetc` is going to return. `capacity - 1` is a `size_t`. -/
def kgetsLoop (capacity : UInt64) : List UInt8 → UInt8 → Nat → List UInt8 → KgetsResult
  | [], c, length, output =>
      if length < (capacity - 1).toNat ∧ c ≠ 10 then .waits else kgetsEnd [] length output
  | key :: keys, c, length, output =>
      if length < (capacity - 1).toNat ∧ c ≠ 10 then
        if key = 8 then kgetsLoop capacity keys key (if length ≠ 0 then length - 1 else 0) output
        else
          match store output length key with
          | some output => kgetsLoop capacity keys key (length + 1) output
          | none => .outside
      else kgetsEnd (key :: keys) length output

def kgets (keys output : List UInt8) (capacity : UInt64) : KgetsResult :=
  match keys with
  | [] => .waits
  | c :: keys =>
      match store output 0 c with
      | some output => kgetsLoop capacity keys c 1 output
      | none => .outside

/-- `kgets` takes the shortest part of the stream that makes a line with a newline or of `capacity -
1` characters, and leaves that line and a terminator in its array. Without such a part it waits. -/
structure KgetsLine (stream : Nat → UInt8) (capacity : UInt64) : Prop where
  waits : ∀ output : List UInt8, output.length = capacity.toNat →
    ∀ j, (∀ m ≤ j, ¬ShortestEnded 10 8 (capacity.toNat - 1) stream m) →
      kgets (front stream j) output capacity = .waits
  returns : ∀ output : List UInt8, output.length = capacity.toNat →
    ∀ m, ShortestEnded 10 8 (capacity.toNat - 1) stream m → ∀ j, m ≤ j → ∃ output',
      kgets (front stream j) output capacity =
        .returns output' (typedAll 8 [] (front stream m)).length ((front stream j).drop m) ∧
      output'.length = capacity.toNat ∧ typedAll 8 [] (front stream m) ++ [0] <+: output'

structure KgetsState (capacity : UInt64) (c : UInt8) (line output : List UInt8) : Prop where
  holds : line <+: output
  size : output.length = capacity.toNat
  fits : line.length ≤ capacity.toNat - 1
  newline : c = 10 → line.getLast? = some 10
  other : c ≠ 10 → 10 ∉ line

section Loop

variable {capacity : UInt64} {c key : UInt8} {line output keys out rest : List UInt8}

theorem bound_eq (two : 2 ≤ capacity.toNat) : (capacity - 1).toNat = capacity.toNat - 1 := by
  have one : (1 : UInt64) ≤ capacity := by
    rw [UInt64.le_iff_toNat_le]
    exact Nat.le_of_succ_le two
  rw [UInt64.toNat_sub_of_le _ _ one]
  rfl

theorem KgetsState.goes_iff (state : KgetsState capacity c line output) (two : 2 ≤ capacity.toNat) :
    (line.length < (capacity - 1).toNat ∧ c ≠ 10) ↔ ¬Ended 10 (capacity.toNat - 1) line := by
  have fits := state.fits
  rw [bound_eq two]
  constructor
  · rintro ⟨short, plain⟩ (full | stops)
    · omega
    · exact state.other plain (List.mem_of_getLast? stops)
  · intro goes
    constructor
    · have notFull : line.length ≠ capacity.toNat - 1 := fun full => goes (.inl full)
      omega
    · intro newline
      exact goes (.inr (state.newline newline))

theorem store_behind (holds : line <+: output) (inside : line.length < output.length) (a : UInt8) :
    ∃ output', store output line.length a = some output' ∧ line ++ [a] <+: output' ∧
      output'.length = output.length := by
  obtain ⟨back, rfl⟩ := holds
  cases back with
  | nil => simp at inside
  | cons old back =>
      refine ⟨line ++ a :: back, store_append line back old a, ⟨back, ?_⟩, ?_⟩
      · rw [List.append_assoc, List.singleton_append]
      · rw [List.length_append, List.length_append, List.length_cons, List.length_cons]

theorem KgetsState.end (state : KgetsState capacity c line output) (two : 2 ≤ capacity.toNat)
    (keys : List UInt8) :
    ∃ output', kgetsEnd keys line.length output = .returns output' line.length keys ∧
      output'.length = capacity.toNat ∧ line ++ [0] <+: output' := by
  have fits := state.fits
  have size := state.size
  obtain ⟨output', stored, holds, same⟩ := store_behind state.holds (by omega) 0
  refine ⟨output', ?_, same.trans size, holds⟩
  rw [kgetsEnd, stored]

/-- BACKSPACE takes the last character from the line. -/
theorem KgetsState.erase (state : KgetsState capacity c line output) (plain : c ≠ 10) :
    KgetsState capacity 8 line.dropLast output where
  holds := (List.dropLast_prefix line).trans state.holds
  size := state.size
  fits := by
    have fits := state.fits
    rw [List.length_dropLast]
    omega
  newline := by
    intro newline
    cases newline
  other := fun _ member => state.other plain (List.mem_of_mem_dropLast member)

theorem KgetsState.put (state : KgetsState capacity c line output) (plain : c ≠ 10)
    (room : line.length < capacity.toNat - 1) (key : UInt8) :
    ∃ output', store output line.length key = some output' ∧
      KgetsState capacity key (line ++ [key]) output' := by
  have size := state.size
  obtain ⟨output', stored, holds, same⟩ := store_behind state.holds (by omega) key
  refine ⟨output', stored, holds, same.trans size, ?_, ?_, ?_⟩
  · rw [List.length_append, List.length_singleton]
    omega
  · rintro rfl
    exact List.getLast?_concat
  · intro different member
    rcases List.mem_append.mp member with before | now
    · exact state.other plain before
    · exact different (List.mem_singleton.mp now).symm

theorem kgetsLoop_round (state : KgetsState capacity c line output) (two : 2 ≤ capacity.toNat)
    (goes : ¬Ended 10 (capacity.toNat - 1) line) (key : UInt8) :
    ∃ output', KgetsState capacity key (typed 8 line key) output' ∧
      ∀ keys, kgetsLoop capacity (key :: keys) c line.length output =
        kgetsLoop capacity keys key (typed 8 line key).length output' := by
  have condition := (state.goes_iff two).mpr goes
  by_cases erasing : key = 8
  · have length : (if line.length ≠ 0 then line.length - 1 else 0) = line.dropLast.length := by
      rw [List.length_dropLast]
      split_ifs <;> omega
    rw [erasing, typed_erase]
    refine ⟨output, state.erase condition.2, fun keys => ?_⟩
    rw [kgetsLoop, if_pos condition, if_pos rfl, length]
  · rw [typed_char erasing]
    have room := condition.1
    rw [bound_eq two] at room
    obtain ⟨output', stored, after⟩ := state.put condition.2 room key
    refine ⟨output', after, fun keys => ?_⟩
    rw [kgetsLoop, if_pos condition, if_neg erasing, stored, List.length_append,
      List.length_singleton]

theorem kgetsLoop_waits (state : KgetsState capacity c line output) (two : 2 ≤ capacity.toNat)
    (short : typeEnded 10 8 (capacity.toNat - 1) line keys = none) :
    kgetsLoop capacity keys c line.length output = .waits := by
  induction keys generalizing c line output with
  | nil =>
      rw [typeEnded] at short
      split at short
      · cases short
      · rename_i goes
        rw [kgetsLoop, if_pos ((state.goes_iff two).mpr goes)]
  | cons key keys ih =>
      rw [typeEnded] at short
      split at short
      · cases short
      · rename_i goes
        obtain ⟨output', after, round⟩ := kgetsLoop_round state two goes key
        rw [round]
        exact ih after short

theorem kgetsLoop_done (state : KgetsState capacity c line output) (two : 2 ≤ capacity.toNat)
    (done : Ended 10 (capacity.toNat - 1) line) (keys : List UInt8) :
    ∃ output', kgetsLoop capacity keys c line.length output = .returns output' line.length keys ∧
      output'.length = capacity.toNat ∧ line ++ [0] <+: output' := by
  have stops : ¬(line.length < (capacity - 1).toNat ∧ c ≠ 10) :=
    fun goes => (state.goes_iff two).mp goes done
  cases keys with
  | nil =>
      rw [kgetsLoop, if_neg stops]
      exact state.end two []
  | cons key keys =>
      rw [kgetsLoop, if_neg stops]
      exact state.end two (key :: keys)

theorem kgetsLoop_returns (state : KgetsState capacity c line output) (two : 2 ≤ capacity.toNat)
    (ended : typeEnded 10 8 (capacity.toNat - 1) line keys = some (out, rest)) :
    ∃ output', kgetsLoop capacity keys c line.length output = .returns output' out.length rest ∧
      output'.length = capacity.toNat ∧ out ++ [0] <+: output' := by
  induction keys generalizing c line output with
  | nil =>
      rw [typeEnded] at ended
      split at ended
      · rename_i done
        cases ended
        exact kgetsLoop_done state two done []
      · cases ended
  | cons key keys ih =>
      rw [typeEnded] at ended
      split at ended
      · rename_i done
        cases ended
        exact kgetsLoop_done state two done (key :: keys)
      · rename_i goes
        obtain ⟨output', after, round⟩ := kgetsLoop_round state two goes key
        rw [round]
        exact ih after ended

end Loop

/-- A BACKSPACE typed first is stored. Before the array is full or the line is ended it has to be
erased by another one. -/
def FirstErased (stream : Nat → UInt8) (capacity : UInt64) : Prop :=
  stream 0 = 8 → ∀ k, Effective 8 [] (front (fun i => stream (i + 1)) k) →
    ¬Ended 10 (capacity.toNat - 1) (8 :: typedAll 8 [] (front (fun i => stream (i + 1)) k))

section Streams

variable {capacity : UInt64} {c : UInt8} {stream : Nat → UInt8}
  {output keys out rest : List UInt8} {m : Nat}

theorem kgets_start (size : output.length = capacity.toNat) (two : 2 ≤ capacity.toNat) (c : UInt8) :
    ∃ output', KgetsState capacity c [c] output' ∧
      ∀ keys, kgets (c :: keys) output capacity = kgetsLoop capacity keys c [c].length output' := by
  have inside : ([] : List UInt8).length < output.length := by
    rw [List.length_nil]
    omega
  obtain ⟨output', stored, holds, same⟩ := store_behind List.nil_prefix inside c
  refine ⟨output', ⟨holds, same.trans size, ?_, ?_, ?_⟩, fun keys => ?_⟩
  · rw [List.length_singleton]
    omega
  · rintro rfl
    rfl
  · intro different member
    exact different (List.mem_singleton.mp member).symm
  · rw [List.length_nil] at stored
    rw [kgets, stored, List.length_singleton]

theorem kgets_waits (size : output.length = capacity.toNat) (two : 2 ≤ capacity.toNat)
    (short : typeEnded 10 8 (capacity.toNat - 1) [c] keys = none) :
    kgets (c :: keys) output capacity = .waits := by
  obtain ⟨output', state, call⟩ := kgets_start size two c
  rw [call]
  exact kgetsLoop_waits state two short

theorem kgets_returns (size : output.length = capacity.toNat) (two : 2 ≤ capacity.toNat)
    (ended : typeEnded 10 8 (capacity.toNat - 1) [c] keys = some (out, rest)) :
    ∃ output', kgets (c :: keys) output capacity = .returns output' out.length rest ∧
      output'.length = capacity.toNat ∧ out ++ [0] <+: output' := by
  obtain ⟨output', state, call⟩ := kgets_start size two c
  rw [call]
  exact kgetsLoop_returns state two ended

/-- With room for a character and the terminator no store is outside the array, whatever is typed.
-/
theorem kgets_inside (size : output.length = capacity.toNat) (two : 2 ≤ capacity.toNat)
    (keys : List UInt8) :
    kgets keys output capacity ≠ .outside := by
  cases keys with
  | nil =>
      intro outside
      cases outside
  | cons c keys =>
      cases ended : typeEnded 10 8 (capacity.toNat - 1) [c] keys with
      | none =>
          rw [kgets_waits size two ended]
          intro outside
          cases outside
      | some result =>
          obtain ⟨output', call, _⟩ := kgets_returns size two ended
          rw [call]
          intro outside
          cases outside

theorem not_ended_nil (two : 2 ≤ capacity.toNat) :
    ¬Ended 10 (capacity.toNat - 1) ([] : List UInt8) := by
  rintro (full | stops)
  · rw [List.length_nil] at full
    omega
  · cases stops

theorem shortestEnded_succ_iff (two : 2 ≤ capacity.toNat) :
    ShortestEnded 10 8 (capacity.toNat - 1) stream (m + 1) ↔
    FirstEnded 10 8 (capacity.toNat - 1) (typed 8 [] (stream 0)) (fun i => stream (i + 1)) m := by
  rw [shortestEnded_iff, firstEnded_succ_iff (not_ended_nil two)]

theorem FirstErased.same_line (erased : FirstErased stream capacity)
    (two : 2 ≤ capacity.toNat) (j : Nat) :
    typeEnded 10 8 (capacity.toNat - 1) [stream 0] (front (fun i => stream (i + 1)) j) =
      typeEnded 10 8 (capacity.toNat - 1) (typed 8 [] (stream 0))
        (front (fun i => stream (i + 1)) j) := by
  by_cases leading : stream 0 = 8
  · have short : ([] : List UInt8).length < capacity.toNat - 1 := by
      rw [List.length_nil]
      omega
    rw [leading, typed_erase]
    rcases typeEnded_leading 8 short (front (fun i => stream (i + 1)) j) with
      same | ⟨k, bound, effective, ended⟩
    · exact same
    · rw [front_length] at bound
      rw [front_take bound] at effective ended
      exact absurd ended (erased leading k effective)
  · rw [typed_char leading]
    rfl

theorem kgetsLine_of_erased (erased : FirstErased stream capacity) (two : 2 ≤ capacity.toNat) :
    KgetsLine stream capacity := by
  constructor
  · intro output size j never
    cases j with
    | zero => rfl
    | succ j =>
        rw [front_succ]
        apply kgets_waits size two
        rw [erased.same_line two]
        apply typeEnded_waits
        intro m bound
        rw [← shortestEnded_succ_iff two]
        exact never (m + 1) (Nat.succ_le_succ bound)
  · intro output size m shortest j bound
    cases m with
    | zero => exact absurd shortest.ended (not_ended_nil two)
    | succ m =>
        obtain ⟨j, rfl⟩ := Nat.exists_eq_succ_of_ne_zero (show j ≠ 0 by omega)
        have first := (shortestEnded_succ_iff two).mp shortest
        have ended := first.typeEnded (Nat.le_of_succ_le_succ bound)
        rw [← erased.same_line two] at ended
        rw [front_succ, typedAll_front_succ]
        exact kgets_returns size two ended

theorem KgetsLine.two (gets : KgetsLine stream capacity) : 2 ≤ capacity.toNat := by
  by_contra small
  have shortest : ShortestEnded 10 8 (capacity.toNat - 1) stream 0 :=
    ⟨.inl (by rw [show capacity.toNat - 1 = 0 by omega]; rfl), fun j below =>
      absurd below (Nat.not_lt_zero j)⟩
  obtain ⟨output, call, _⟩ :=
    gets.returns (List.replicate capacity.toNat 0) List.length_replicate 0 shortest 0
    (Nat.le_refl 0)
  cases call

theorem KgetsLine.erased (gets : KgetsLine stream capacity) : FirstErased stream capacity := by
  intro leading k effective ended
  have two := gets.two
  have size : (List.replicate capacity.toNat (0 : UInt8)).length = capacity.toNat :=
    List.length_replicate
  obtain ⟨m, first, kept⟩ := firstEnded_leading 8 effective ended
  obtain ⟨output, call⟩ : ∃ output, kgets (front stream (m + 1))
    (List.replicate capacity.toNat 0) capacity =
      .returns output (typedAll 8 [8] (front (fun i => stream (i + 1)) m)).length
        ((front (fun i => stream (i + 1)) m).drop m) := by
    obtain ⟨output, call, _⟩ := kgets_returns size two (first.typeEnded (Nat.le_refl m))
    rw [front_succ, leading]
    exact ⟨output, call⟩
  by_cases completes : ∃ m' ≤ m + 1, ShortestEnded 10 8 (capacity.toNat - 1) stream m'
  · obtain ⟨m', bound, shortest⟩ := completes
    obtain ⟨output', call', _⟩ := gets.returns _ size m' shortest m' (Nat.le_refl m')
    cases m' with
    | zero => cases call'
    | succ i =>
        by_cases same : i = m
        · rw [same, call] at call'
          have lengths : (typedAll 8 [8] (front (fun i => stream (i + 1)) m)).length =
              (typedAll 8 [] (front stream (m + 1))).length := (KgetsResult.returns.inj call').2.1
          rw [typedAll_front_succ, leading, typed_erase, List.dropLast_nil, typedAll_leading 8 kept,
            List.length_cons] at lengths
          omega
        · have short : typeEnded 10 8 (capacity.toNat - 1) [8]
              (front (fun i => stream (i + 1)) i) = none := by
            apply typeEnded_waits
            intro j below early
            have here := first.unique early
            omega
          rw [front_succ, leading, kgets_waits size two short] at call'
          cases call'
  · have waits := gets.waits _ size (m + 1) fun m' bound shortest => completes ⟨m', bound, shortest⟩
    rw [call] at waits
    cases waits

/-- `kgets` leaves the edited line in its array exactly when that has room for a character and a
BACKSPACE typed first is erased again. -/
theorem kgets_line_iff (stream : Nat → UInt8) (capacity : UInt64) :
    KgetsLine stream capacity ↔ 2 ≤ capacity.toNat ∧ FirstErased stream capacity :=
  ⟨fun gets => ⟨gets.two, gets.erased⟩, fun condition =>
    kgetsLine_of_erased condition.2 condition.1⟩

theorem kgets_leaves_array : kgets [97] [0] 1 = .outside ∧ ¬KgetsLine (fun _ => 97) 1 ∧
    kgets [8, 97, 10] [1, 1, 1, 1, 1] 5 = .returns [8, 97, 10, 0, 1] 3 [] := by
  refine ⟨by decide, fun gets => absurd gets.two (by decide), by decide⟩

end Streams

end PaintKernel
