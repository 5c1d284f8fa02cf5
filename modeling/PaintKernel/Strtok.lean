import Mathlib
import PaintKernel.Printf
import PaintKernel.Library.MaximalRuns
import PaintKernel.Library.Run

set_option autoImplicit false

/-! `strtok`, which keeps its place in a string in a global pointer. -/

namespace PaintKernel

open MaximalRuns Transition

def contain (c : UInt8) : List UInt8 → Option Bool
  | [] => none
  | a :: l => if a = 0 then some false else if c = a then some true else contain c l

structure Strings where
  memory : List UInt8
  strtokS : Option Nat

inductive StrtokEnd where
  | returns (res : Option Nat) (s : Strings)
  | faults

/-- `while (*temp != '\\0' && contain(*temp, sep));` gives the character where it ends, or nothing
after an invalid read. It never moves `temp`; `none` is a loop that has not ended. -/
def strtokLoop (memory sep : List UInt8) (temp : Nat) : Nat → Option (Option UInt8)
  | 0 => none
  | fuel + 1 =>
      match memory[temp]? with
      | none => some none
      | some c =>
          if c = 0 then some (some c)
          else
            match contain c sep with
            | none => some none
            | some true => strtokLoop memory sep temp fuel
            | some false => some (some c)

def strtok (fuel : Nat) (str : Option Nat) (sep : List UInt8) (s : Strings) : Option StrtokEnd :=
  match str.or s.strtokS with
  | none => some .faults
  | some res => do
      match ← strtokLoop s.memory sep res fuel with
      | none => return .faults
      | some c =>
          if c = 0 then return .returns (some res) { s with strtokS := none }
          else
            return .returns (some res) { memory := s.memory.set res 0, strtokS := some (res + 1) }

def strtokValue (fuel : Nat) (sep : List UInt8) (s : Strings) (str : Option Nat) :
    Option (Option Nat × Strings) :=
  match strtok fuel str sep s with
  | some (.returns res s) => some (res, s)
  | _ => none

theorem contain_eq (c : UInt8) (l : CString) :
    contain c l.buffer = some (decide (c ∈ l.bytes)) := by
  have scan : ∀ bytes : List UInt8, 0 ∉ bytes →
      contain c (bytes ++ [0]) = some (decide (c ∈ bytes)) := by
    intro bytes
    induction bytes with
    | nil => intro _; rfl
    | cons a rest ih =>
        intro terminated
        have nonzero : a ≠ 0 := (List.ne_of_not_mem_cons terminated).symm
        rw [List.cons_append, contain, if_neg nonzero, ih (List.not_mem_of_not_mem_cons terminated)]
        by_cases same : c = a
        · simp [same]
        · simp [same]
  exact scan l.bytes l.terminated

section Call

variable {memory : List UInt8} {sep : CString} {res : Nat}

theorem strtok_end (fuel : Nat) (strtokS : Option Nat) (read : memory[res]? = some 0) :
    strtok (fuel + 1) (some res) sep.buffer ⟨memory, strtokS⟩ =
      some (.returns (some res) ⟨memory, none⟩) := by
  have ends : strtokLoop memory sep.buffer res (fuel + 1) = some (some 0) := by
    rw [strtokLoop, read]
    rfl
  rw [strtok, Option.some_or]
  simp [ends]

theorem strtok_token (fuel : Nat) (strtokS : Option Nat) {c : UInt8}
    (read : memory[res]? = some c) (inside : c ≠ 0)
    (kept : c ∉ sep.bytes) :
    strtok (fuel + 1) (some res) sep.buffer ⟨memory, strtokS⟩ =
      some (.returns (some res) ⟨memory.set res 0, some (res + 1)⟩) := by
  have ends : strtokLoop memory sep.buffer res (fuel + 1) = some (some c) := by
    simp [strtokLoop, read, inside, contain_eq, kept]
  rw [strtok, Option.some_or]
  simp [ends, inside]

theorem strtok_separator (fuel : Nat) (strtokS : Option Nat) {c : UInt8}
    (read : memory[res]? = some c) (inside : c ≠ 0) (separates : c ∈ sep.bytes) :
    strtok fuel (some res) sep.buffer ⟨memory, strtokS⟩ = none := by
  have stays : strtokLoop memory sep.buffer res fuel = none := by
    induction fuel with
    | zero => rfl
    | succ fuel ih => simp [strtokLoop, read, inside, contain_eq, separates, ih]
  rw [strtok, Option.some_or]
  simp [stays]

end Call

section Tokens

variable {front rest : List UInt8} {s sep : CString} {strtokS : Option Nat}

def tokens (s sep : CString) : List (Nat × List UInt8) :=
  runs (fun c => decide (c ∈ sep.bytes)) s.bytes

/-- The call with the string and any number of later calls return the tokens in order and then NULL,
each token with its characters and a terminator. -/
def StrtokEnumerates (front rest : List UInt8) (s sep : CString) (strtokS : Option Nat) : Prop :=
  ∀ calls, ∃ fuel last,
    answers (strtokValue fuel sep.buffer) (some front.length :: List.replicate calls none)
        ⟨front ++ (s.bytes ++ 0 :: rest), strtokS⟩ =
      some ((List.range (calls + 1)).map fun i => (tokens s sep)[i]?.map fun token =>
        front.length + token.1, last) ∧
    ∀ token ∈ (tokens s sep).take (calls + 1),
      token.2 ++ [0] <+: last.memory.drop (front.length + token.1)

theorem StrtokEnumerates.first (enumerates : StrtokEnumerates front rest s sep strtokS) :
    ∃ fuel last, strtok fuel (some front.length) sep.buffer ⟨front ++ (s.bytes ++ 0 :: rest),
      strtokS⟩ =
        some (.returns ((tokens s sep).head?.map fun token => front.length + token.1) last) ∧
      ∀ token ∈ (tokens s sep).take 1,
        token.2 ++ [0] <+: last.memory.drop (front.length + token.1) := by
  obtain ⟨fuel, last, answered, cut⟩ := enumerates 0
  refine ⟨fuel, last, ?_, cut⟩
  rw [List.replicate_zero, answers, strtokValue] at answered
  split at answered
  · next res s' returned =>
      simp only [Option.bind_eq_bind, Option.bind_some, answers, Option.pure_def, Nat.zero_add,
        List.range_one, List.map_singleton, Option.some.injEq, Prod.mk.injEq,
          List.cons.injEq] at answered
      rw [returned, answered.1.1, answered.2, List.head?_eq_getElem?]
  · cases answered

theorem first_read (front rest : List UInt8) {c : UInt8} {text : List UInt8}
    (starts : s.bytes ++ [0] = c :: text) :
    (front ++ (s.bytes ++ 0 :: rest))[front.length]? = some c := by
  have whole : s.bytes ++ 0 :: rest = c :: (text ++ rest) := by
    rw [← List.singleton_append, ← List.append_assoc, starts, List.cons_append]
  rw [whole, List.getElem?_append_right (Nat.le_refl _), Nat.sub_self, List.getElem?_cons_zero]

theorem first_character (front rest : List UInt8) {c : UInt8} {text : List UInt8}
    (starts : s.bytes = c :: text) :
    c ≠ 0 ∧ (front ++ (s.bytes ++ 0 :: rest))[front.length]? = some c := by
  have terminated := s.terminated
  have whole : s.bytes ++ [0] = c :: (text ++ [0]) := by rw [starts, List.cons_append]
  rw [starts] at terminated
  exact ⟨(List.ne_of_not_mem_cons terminated).symm, first_read front rest whole⟩

theorem not_enumerates_end (none' : s.bytes = []) : ¬StrtokEnumerates front rest s sep strtokS := by
  intro enumerates
  obtain ⟨fuel, last, returned, _⟩ := enumerates.first
  have empty : tokens s sep = [] := by
    rw [tokens, none']
    rfl
  have starts : s.bytes ++ [0] = 0 :: [] := by rw [none', List.nil_append]
  have read := first_read front rest starts
  cases fuel with
  | zero => cases returned
  | succ fuel =>
      rw [strtok_end fuel strtokS read, empty] at returned
      cases returned

theorem not_enumerates_token {c : UInt8} {text : List UInt8} (starts : s.bytes = c :: text)
    (kept : c ∉ sep.bytes) :
    ¬StrtokEnumerates front rest s sep strtokS := by
  intro enumerates
  obtain ⟨fuel, last, returned, cut⟩ := enumerates.first
  obtain ⟨inside, read⟩ := first_character front rest starts
  cases fuel with
  | zero => cases returned
  | succ fuel =>
      rw [strtok_token fuel strtokS read inside kept] at returned
      injection returned with returned
      injection returned with pointer memory
      obtain ⟨token, later, first⟩ : ∃ token later, tokens s sep = token :: later := by
        cases first : tokens s sep with
        | nil => simp [first] at pointer
        | cons token later => exact ⟨token, later, rfl⟩
      have start : token.1 = 0 := by simpa [first] using pointer
      have run : IsRun (fun c => decide (c ∈ sep.bytes)) s.bytes token.1 token.2 := by
        rw [← mem_runs, ← tokens, first]
        exact List.mem_cons_self
      -- The token starts with `c`, where the call has left a terminator.
      obtain ⟨d, others, characters⟩ := List.exists_cons_of_ne_nil run.nonempty
      have here := run.here
      rw [start, List.drop_zero, characters, starts, List.cons_prefix_cons] at here
      have there := cut token (by simp [first])
      rw [← memory, start, Nat.add_zero, List.set_append_right _ _ (Nat.le_refl _), Nat.sub_self,
        List.drop_left, starts,
        characters, List.cons_append, List.cons_append, List.set_cons_zero,
        List.cons_prefix_cons] at there
      exact inside (here.1.symm.trans there.1)

theorem not_enumerates_separator {c : UInt8} {text : List UInt8} (starts : s.bytes = c :: text)
    (separates : c ∈ sep.bytes) :
    ¬StrtokEnumerates front rest s sep strtokS := by
  intro enumerates
  obtain ⟨fuel, last, returned, _⟩ := enumerates.first
  obtain ⟨inside, read⟩ := first_character front rest starts
  rw [strtok_separator fuel strtokS read inside separates] at returned
  cases returned

/-- `strtok` enumerates the tokens of no string. -/
theorem strtok_never_enumerates (front rest : List UInt8) (s sep : CString) (strtokS : Option Nat) :
    ¬StrtokEnumerates front rest s sep strtokS := by
  cases starts : s.bytes with
  | nil => exact not_enumerates_end starts
  | cons c text =>
      by_cases kept : c ∈ sep.bytes
      · exact not_enumerates_separator starts kept
      · exact not_enumerates_token starts kept

theorem strtok_cuts_first :
    strtok 1 (some 0) [44, 0] ⟨[97, 0], none⟩ = some (.returns (some 0) ⟨[0, 0], some 1⟩) ∧
      ¬StrtokEnumerates [] [] ⟨[97], by decide⟩ ⟨[44], by decide⟩ none :=
  ⟨rfl, not_enumerates_token rfl (by decide)⟩

end Tokens

end PaintKernel
