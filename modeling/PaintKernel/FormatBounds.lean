import Mathlib
import PaintKernel.Printf
import PaintKernel.Library.Run

set_option autoImplicit false

/-! The loop of `kprintf` and of `printf` over the memory of its format: which bytes it reads and
when it ends. -/

namespace PaintKernel

open Output Transition

structure FormatState where
  index : Nat
  args : List Arg
  printed : Option (List UInt8)
  reads : List Nat

def formatStep (print : Piece → Option (List UInt8)) (format : List UInt8) (s : FormatState) :
    Option FormatState := do
  let c ← format[s.index]?
  if c = 0 then none
  else if c = byte '%' then
    let spec ← format[s.index + 1]?
    let (piece, args) ← conversion spec s.args
    return ⟨s.index + 2, args, andThen s.printed (print piece), s.reads ++ [s.index, s.index + 1]⟩
  else return ⟨s.index + 1, s.args, andThen s.printed (print (.plain c)), s.reads ++ [s.index]⟩

def formatRun (print : Piece → Option (List UInt8)) (format : List UInt8) : Nat → FormatState →
    Option FormatState
  | 0, s => some s
  | n + 1, s => do formatRun print format n (← formatStep print format s)

def formatStart (args : List Arg) : FormatState := ⟨0, args, some [], []⟩

/-- Each conversion in the format finds an argument of its type; a `%` at the end takes none. -/
def sufficient : List UInt8 → List Arg → Prop
  | [], _ => True
  | c :: rest, args =>
      if c = byte '%' then
        match rest with
        | [] => True
        | spec :: rest => ∃ piece args', conversion spec args = some (piece, args') ∧
            sufficient rest args'
      else sufficient rest args

/-- The loop ends after at most one round for each character, and no index read is behind the
terminator. -/
def StaysInside (print : Piece → Option (List UInt8)) (format : CString) (rest : List UInt8)
    (args : List Arg) : Prop :=
  ∃ n ≤ format.bytes.length, ∃ s, formatRun print (format.bytes ++ 0 :: rest) n
    (formatStart args) = some s ∧
    (format.bytes ++ 0 :: rest)[s.index]? = some 0 ∧
      ∀ i ∈ s.reads ++ [s.index], i ≤ format.bytes.length

def percentsAtEnd (text : List UInt8) : Nat := (text.reverse.takeWhile (· = byte '%')).length

def loneAtEnd : List UInt8 → Bool
  | [] => false
  | c :: rest =>
      if c = byte '%' then
        match rest with
        | [] => true
        | _ :: rest => loneAtEnd rest
      else loneAtEnd rest

theorem loneAtEnd_plain {c : UInt8} (other : c ≠ byte '%') (text : List UInt8) :
    loneAtEnd (c :: text) = loneAtEnd text := by
  rw [loneAtEnd.eq_def]
  simp [other]

theorem sufficient_plain {c : UInt8} (other : c ≠ byte '%') (text : List UInt8) (args : List Arg) :
    sufficient (c :: text) args ↔ sufficient text args := by
  rw [sufficient.eq_def]
  simp [other]

theorem sufficient_percent (spec : UInt8) (text : List UInt8) (args : List Arg) :
    sufficient (byte '%' :: spec :: text) args ↔
      ∃ piece args', conversion spec args = some (piece, args') ∧ sufficient text args' := by
  rw [sufficient, if_pos rfl]

section Rounds

variable (print : Piece → Option (List UInt8))

theorem formatStep_plain (front text : List UInt8) {c : UInt8} (inside : c ≠ 0)
    (other : c ≠ byte '%') (args : List Arg) (printed : Option (List UInt8)) (reads : List Nat) :
    formatStep print (front ++ c :: text) ⟨front.length, args, printed, reads⟩ =
      some ⟨(front ++ [c]).length, args, andThen printed (print (.plain c)),
        reads ++ [front.length]⟩ := by
  simp [formatStep, inside, other]

theorem formatStep_percent (front text : List UInt8) {spec : UInt8} {args args' : List Arg}
    {piece : Piece} (converts : conversion spec args = some (piece, args'))
    (printed : Option (List UInt8)) (reads : List Nat) :
    formatStep print (front ++ byte '%' :: spec :: text) ⟨front.length, args, printed, reads⟩ =
      some ⟨(front ++ [byte '%', spec]).length, args', andThen printed (print piece),
        reads ++ [front.length, front.length + 1]⟩ := by
  have nonzero : byte '%' ≠ 0 := by decide
  simp [formatStep, nonzero, converts]

def RunsTo (format : List UInt8) (s : FormatState) (rounds stop : Nat)
    (output : Option (List UInt8)) : Prop :=
  ∃ n ≤ rounds, ∃ s', formatRun print format n s = some s' ∧ s'.index = stop ∧ s'.printed = output ∧
    ∀ i ∈ s'.reads, i ∈ s.reads ∨ i < stop

variable {print} {format : List UInt8} {s next : FormatState}

theorem formatRun_succ (step : formatStep print format s = some next) (n : Nat) :
    formatRun print format (n + 1) s = formatRun print format n next := by
  rw [formatRun, step, Option.bind_eq_bind, Option.bind_some]

theorem RunsTo.step {rounds stop : Nat} {output : Option (List UInt8)} {here : List Nat}
    (step : formatStep print format s = some next) (new : next.reads = s.reads ++ here)
    (below : ∀ i ∈ here, i < stop) (later : RunsTo print format next rounds stop output) :
    RunsTo print format s (rounds + 1) stop output := by
  obtain ⟨n, bound, s', run, index, printed, reads⟩ := later
  refine ⟨n + 1, Nat.succ_le_succ bound, s', (formatRun_succ step n).trans run, index, printed,
    fun i read => ?_⟩
  rcases reads i read with before | inside
  · rw [new, List.mem_append] at before
    exact before.imp_right (below i)
  · exact Or.inr inside

theorem RunsTo.more {rounds more stop : Nat} {output : Option (List UInt8)} (bound : rounds ≤ more)
    (reaches : RunsTo print format s rounds stop output) :
    RunsTo print format s more stop output := by
  obtain ⟨n, within, found⟩ := reaches
  exact ⟨n, within.trans bound, found⟩

end Rounds

section Text

variable {print : Piece → Option (List UInt8)} {text : List UInt8} {args : List Arg}

/-- A format without a lone `%` is read up to its terminator, and prints what its pieces print. -/
theorem runs_to_end (rest : List UInt8) (paired : loneAtEnd text = false) (ends : 0 ∉ text)
    (front : List UInt8) (enough : sufficient text args) (printed : Option (List UInt8))
    (reads : List Nat) :
    RunsTo print (front ++ (text ++ 0 :: rest)) ⟨front.length, args, printed, reads⟩ text.length
      (front.length + text.length) (andThen printed (formatLoop print text args)) := by
  induction text using loneAtEnd.induct generalizing front args printed reads with
  | case1 => exact ⟨0, Nat.le_refl _, _, rfl, rfl, by rw [formatLoop, andThen_nil], fun i read =>
      Or.inl read⟩
  | case2 => cases paired
  | case3 spec text ih =>
      obtain ⟨piece, args', converts, enough⟩ := (sufficient_percent spec text args).mp enough
      have step := formatStep_percent print front (text ++ 0 :: rest) converts printed reads
      have later := ih paired (fun member => ends (by simp [member]))
        (front ++ [byte '%', spec]) enough
        (andThen printed (print piece)) (reads ++ [front.length, front.length + 1])
      have stop : (front ++ [byte '%', spec]).length + text.length =
          front.length + (text.length + 2) := by
        rw [List.length_append, Nat.add_assoc, Nat.add_comm text.length]
        rfl
      have output : formatLoop print (byte '%' :: spec :: text) args =
          andThen (print piece) (formatLoop print text args') := by
        rw [formatLoop, if_pos rfl, converts]
        rfl
      rw [andThen_assoc, ← output, stop, List.append_assoc] at later
      have below : ∀ i ∈ [front.length, front.length + 1],
          i < front.length + (text.length + 2) := by simp
      exact (later.step step rfl below).more (Nat.le_succ _)
  | case4 c text other ih =>
      have inside : c ≠ 0 := (List.ne_of_not_mem_cons ends).symm
      have step := formatStep_plain print front (text ++ 0 :: rest) inside other args printed reads
      have later := ih (by rwa [loneAtEnd_plain other] at paired)
        (List.not_mem_of_not_mem_cons ends) (front ++ [c])
        ((sufficient_plain other text args).mp enough) (andThen printed (print (.plain c)))
          (reads ++ [front.length])
      have stop : (front ++ [c]).length + text.length = front.length + (text.length + 1) := by
        rw [List.length_append, Nat.add_assoc, Nat.add_comm text.length]
        rfl
      have output : formatLoop print (c :: text) args =
          andThen (print (.plain c)) (formatLoop print text args) := by
        rw [formatLoop.eq_def]
        simp [other]
      rw [andThen_assoc, ← output, stop, List.append_assoc] at later
      have below : ∀ i ∈ [front.length], i < front.length + (text.length + 1) := by simp
      exact later.step step rfl below

/-- A lone `%` takes the index behind the terminator. -/
theorem passes_end (rest : List UInt8) (lone : loneAtEnd text = true) (ends : 0 ∉ text)
    (front : List UInt8) (enough : sufficient text args) (printed : Option (List UInt8))
    (reads : List Nat) :
    ∃ n s, formatRun print (front ++ (text ++ 0 :: rest)) n ⟨front.length, args, printed,
      reads⟩ = some s ∧
      s.index = front.length + text.length + 1 := by
  induction text using loneAtEnd.induct generalizing front args printed reads with
  | case1 => cases lone
  | case2 =>
      have converts : conversion 0 args = some (.unsupported, args) := by
        simp [conversion, show (0 : UInt8) ≠ byte '%' ∧ (0 : UInt8) ≠ byte 'c' ∧
          (0 : UInt8) ≠ byte 's' ∧
          (0 : UInt8) ≠ byte 'd' ∧ (0 : UInt8) ≠ byte 'x' ∧ (0 : UInt8) ≠ byte 'p' by decide]
      have step := formatStep_percent print front rest converts printed reads
      exact ⟨1, _, formatRun_succ step 0, by simp⟩
  | case3 spec text ih =>
      obtain ⟨piece, args', converts, enough⟩ := (sufficient_percent spec text args).mp enough
      have step := formatStep_percent print front (text ++ 0 :: rest) converts printed reads
      obtain ⟨n, s, run, index⟩ :=
        ih lone (fun member => ends (by simp [member])) (front ++ [byte '%', spec]) enough
        (andThen printed (print piece)) (reads ++ [front.length, front.length + 1])
      rw [List.append_assoc] at run
      refine ⟨n + 1, s, (formatRun_succ step n).trans run, index.trans ?_⟩
      simp
      omega
  | case4 c text other ih =>
      have inside : c ≠ 0 := (List.ne_of_not_mem_cons ends).symm
      have step := formatStep_plain print front (text ++ 0 :: rest) inside other args printed reads
      obtain ⟨n, s, run, index⟩ :=
        ih (by rwa [loneAtEnd_plain other] at lone) (List.not_mem_of_not_mem_cons ends)
        (front ++ [c]) ((sufficient_plain other text args).mp enough)
          (andThen printed (print (.plain c)))
        (reads ++ [front.length])
      rw [List.append_assoc] at run
      refine ⟨n + 1, s, (formatRun_succ step n).trans run, index.trans ?_⟩
      simp
      omega

end Text

section Bound

variable {print : Piece → Option (List UInt8)} {format : List UInt8} {s next : FormatState}

theorem formatStep_grows (step : formatStep print format s = some next) :
    s.index ≤ next.index ∧ format[s.index]? ≠ some 0 := by
  rw [formatStep, Option.bind_eq_bind, Option.bind_eq_some_iff] at step
  obtain ⟨c, read, step⟩ := step
  rw [read]
  split_ifs at step with zero percent
  · obtain ⟨spec, _, step⟩ := Option.bind_eq_some_iff.mp step
    obtain ⟨taken, _, step⟩ := Option.bind_eq_some_iff.mp step
    cases step
    exact ⟨Nat.le_add_right _ _, fun same => zero (Option.some.inj same)⟩
  · cases step
    exact ⟨Nat.le_add_right _ _, fun same => zero (Option.some.inj same)⟩

theorem formatRun_ends_beyond {m n : Nat} {s ahead last : FormatState}
    (first : formatRun print format m s = some ahead)
    (second : formatRun print format n s = some last) (ends : format[last.index]? = some 0) :
    ahead.index ≤ last.index := by
  have grows : ∀ (n : Nat) {s last : FormatState}, formatRun print format n s = some last →
      s.index ≤ last.index := by
    intro n
    induction n with
    | zero =>
        intro s last run
        cases run
        exact Nat.le_refl _
    | succ n ih =>
        intro s last run
        obtain ⟨next, step, later⟩ := Option.bind_eq_some_iff.mp run
        exact (formatStep_grows step).1.trans (ih later)
  induction m generalizing n s with
  | zero =>
      cases first
      exact grows n second
  | succ m ih =>
      obtain ⟨next, step, later⟩ := Option.bind_eq_some_iff.mp first
      cases n with
      | zero =>
          cases second
          exact absurd ends (formatStep_grows step).2
      | succ n =>
          rw [formatRun_succ step] at second
          exact ih later second

end Bound

/-- The loop stays inside the format exactly if its last `%` has a character to convert. -/
theorem staysInside_iff (print : Piece → Option (List UInt8)) (format : CString) (rest : List UInt8)
    (args : List Arg) (enough : sufficient format.bytes args) :
    StaysInside print format rest args ↔ loneAtEnd format.bytes = false := by
  constructor
  · rintro ⟨n, _, last, run, ends, reads⟩
    by_contra lone
    obtain ⟨m, ahead, first, index⟩ :
        ∃ n s, formatRun print ([] ++ (format.bytes ++ 0 :: rest)) n (formatStart args) = some s ∧
          s.index = ([] : List UInt8).length + format.bytes.length + 1 :=
      passes_end rest (Bool.eq_true_of_not_eq_false lone) format.terminated [] enough (some []) []
    have behind := formatRun_ends_beyond first run ends
    have inside := reads last.index (by simp)
    rw [index, List.length_nil, Nat.zero_add] at behind
    omega
  · intro paired
    obtain ⟨n, bound, last, run, index, _, reads⟩ : RunsTo print ([] ++ (format.bytes ++ 0 :: rest))
        (formatStart args)
        format.bytes.length (([] : List UInt8).length + format.bytes.length) _ :=
      runs_to_end rest paired format.terminated [] enough (some []) []
    rw [List.length_nil, Nat.zero_add] at index reads
    refine ⟨n, bound, last, run, ?_, fun i read => ?_⟩
    · rw [index, List.getElem?_append_right (Nat.le_refl _), Nat.sub_self, List.getElem?_cons_zero]
    · rcases List.mem_append.mp read with before | here
      · rcases reads i before with nothing | inside
        · cases nothing
        · exact inside.le
      · rw [List.mem_singleton.mp here, index]

theorem formatRun_prints (print : Piece → Option (List UInt8)) (format : CString)
    (rest : List UInt8) {args : List Arg} (paired : loneAtEnd format.bytes = false)
    (enough : sufficient format.bytes args) :
    ∃ n s, formatRun print (format.bytes ++ 0 :: rest) n (formatStart args) = some s ∧
      (format.bytes ++ 0 :: rest)[s.index]? = some 0 ∧
        s.printed = formatLoop print format.bytes args := by
  obtain ⟨n, _, last, run, index, printed, _⟩ : RunsTo print ([] ++ (format.bytes ++ 0 :: rest))
      (formatStart args)
      format.bytes.length (([] : List UInt8).length + format.bytes.length) _ :=
    runs_to_end rest paired format.terminated [] enough (some []) []
  refine ⟨n, last, run, ?_, printed.trans (nil_andThen _)⟩
  rw [index, List.length_nil, Nat.zero_add, List.getElem?_append_right (Nat.le_refl _),
    Nat.sub_self, List.getElem?_cons_zero]

theorem percentsAtEnd_append (text back : List UInt8) : percentsAtEnd (text ++ back) =
    if percentsAtEnd back = back.length then percentsAtEnd text + back.length
      else percentsAtEnd back := by
  rw [percentsAtEnd, percentsAtEnd, percentsAtEnd, List.reverse_append, List.takeWhile_append,
    List.length_reverse]
  split_ifs
  · rw [List.length_append, List.length_reverse, Nat.add_comm]
  · rfl

/-- The last `%` is alone exactly if the format ends with an odd number of them. -/
theorem loneAtEnd_iff (text : List UInt8) : loneAtEnd text = true ↔ percentsAtEnd text % 2 = 1 := by
  induction text using loneAtEnd.induct with
  | case1 => decide
  | case2 => decide
  | case3 spec text ih =>
      have pair : percentsAtEnd [byte '%', spec] = 2 ∨ percentsAtEnd [byte '%', spec] = 0 := by
        by_cases percent : spec = byte '%'
        · exact Or.inl (by simp [percentsAtEnd, percent])
        · exact Or.inr (by simp [percentsAtEnd, percent])
      have split := percentsAtEnd_append [byte '%', spec] text
      change loneAtEnd text = true ↔ percentsAtEnd ([byte '%', spec] ++ text) % 2 = 1
      rw [ih, split]
      split_ifs <;> omega
  | case4 c text other ih =>
      have none' : percentsAtEnd [c] = 0 := by simp [percentsAtEnd, other]
      have split := percentsAtEnd_append [c] text
      rw [loneAtEnd_plain other, ih, ← List.singleton_append, split]
      split_ifs <;> omega

theorem format_stays_inside_iff (format : CString) (rest : List UInt8) (args : List Arg)
    (enough : sufficient format.bytes args) :
    (StaysInside kprintPiece format rest args ↔ percentsAtEnd format.bytes % 2 = 0) ∧
      (StaysInside printPiece format rest args ↔ percentsAtEnd format.bytes % 2 = 0) := by
  have even : loneAtEnd format.bytes = false ↔ percentsAtEnd format.bytes % 2 = 0 := by
    rw [← Bool.not_eq_true, loneAtEnd_iff]
    omega
  rw [staysInside_iff _ format rest args enough, staysInside_iff _ format rest args enough, even]
  exact ⟨Iff.rfl, Iff.rfl⟩

theorem format_stays_inside_number : sufficient (ascii ['a', '%', 'd']) [.num 5] ∧
    (StaysInside kprintPiece ⟨ascii ['a', '%', 'd'], by decide⟩ [] [.num 5] ↔
      percentsAtEnd (ascii ['a', '%', 'd']) % 2 = 0) := by
  have enough : sufficient (ascii ['a', '%', 'd']) [.num 5] := ⟨.dec 5, [], rfl, trivial⟩
  exact ⟨enough, (format_stays_inside_iff ⟨ascii ['a', '%', 'd'], by decide⟩ [] [.num 5] enough).1⟩

theorem format_leaves_string :
    sufficient (ascii ['%']) [] ∧ ¬StaysInside kprintPiece ⟨ascii ['%'], by decide⟩ [] [] ∧
    ¬StaysInside printPiece ⟨ascii ['%'], by decide⟩ [] [] := by
  have enough : sufficient (ascii ['%']) [] := trivial
  have lone : ¬loneAtEnd (ascii ['%']) = false := by decide
  refine ⟨enough, fun stays => lone ?_, fun stays => lone ?_⟩
  · exact (staysInside_iff _ _ _ _ enough).mp stays
  · exact (staysInside_iff _ _ _ _ enough).mp stays

end PaintKernel
