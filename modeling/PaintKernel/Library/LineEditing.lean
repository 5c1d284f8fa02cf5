import Mathlib

set_option autoImplicit false

/-! Lines typed with an erase character. -/

namespace LineEditing

variable {α : Type}

def front (stream : Nat → α) (m : Nat) : List α := (List.range m).map stream

@[simp] theorem front_length (stream : Nat → α) (m : Nat) :
    (front stream m).length = m := by simp [front]

theorem front_getLast (stream : Nat → α) (m : Nat) :
    (front stream (m + 1)).getLast? = some (stream m) := by
  simp [front, List.range_succ]

theorem mem_front {stream : Nat → α} {m : Nat} {c : α} :
    c ∈ front stream m ↔ ∃ j < m, stream j = c := by
  simp [front]

theorem front_succ (stream : Nat → α) (m : Nat) :
    front stream (m + 1) = stream 0 :: front (fun i => stream (i + 1)) m := by
  rw [front, List.range_succ_eq_map, List.map_cons, List.map_map]
  rfl

theorem front_take {stream : Nat → α} {j m : Nat} (bound : j ≤ m) :
    (front stream m).take j = front stream j := by
  rw [front, ← List.map_take, List.take_range, Nat.min_eq_left bound]
  rfl

section Lines

variable [DecidableEq α] (erase : α)

def typed (line : List α) (c : α) : List α := if c = erase then line.dropLast else line ++ [c]

def typedAll (line cs : List α) : List α := cs.foldl (typed erase) line

def Effective : List α → List α → Prop
  | _, [] => True
  | line, c :: cs => (c = erase → line ≠ []) ∧ Effective (typed erase line c) cs

/-- The line once it has `n` characters, and the characters not looked at. -/
def typeUntil (n : Nat) : List α → List α → Option (List α × List α)
  | line, [] => if n ≤ line.length then some (line, []) else none
  | line, c :: cs => if n ≤ line.length then some (line, c :: cs)
      else typeUntil n (typed erase line c) cs

variable {erase} {n m : Nat} {line out rest cs : List α} {c : α}

theorem typed_erase (line : List α) : typed erase line erase = line.dropLast := if_pos rfl

theorem typed_char (different : c ≠ erase) : typed erase line c = line ++ [c] := if_neg different

theorem typedAll_cons (line : List α) (c : α) (cs : List α) :
    typedAll erase line (c :: cs) = typedAll erase (typed erase line c) cs := rfl

theorem typedAll_append (line front back : List α) :
    typedAll erase line (front ++ back) = typedAll erase (typedAll erase line front) back :=
  List.foldl_append

theorem typed_length_le (erase : α) (line : List α) (c : α) :
    (typed erase line c).length ≤ line.length + 1 := by
  by_cases erasing : c = erase
  · rw [erasing, typed_erase, List.length_dropLast]
    omega
  · rw [typed_char erasing, List.length_append, List.length_singleton]

theorem typedAll_plain (plain : erase ∉ cs) (line : List α) :
    typedAll erase line cs = line ++ cs := by
  induction cs generalizing line with
  | nil => exact (List.append_nil line).symm
  | cons c cs ih =>
      rw [List.mem_cons, not_or] at plain
      rw [typedAll_cons, typed_char (Ne.symm plain.1), ih plain.2, List.append_assoc]
      rfl

theorem typeUntil_done (long : n ≤ line.length) (cs : List α) :
    typeUntil erase n line cs = some (line, cs) := by
  cases cs <;> exact if_pos long

theorem typeUntil_next (short : line.length < n) (c : α) (cs : List α) :
    typeUntil erase n line (c :: cs) = typeUntil erase n (typed erase line c) cs :=
  if_neg (Nat.not_le.mpr short)

theorem typeUntil_nil (short : line.length < n) : typeUntil erase n line [] = none :=
  if_neg (Nat.not_le.mpr short)

theorem typeUntil_none_short (none : typeUntil erase n line cs = none) : line.length < n := by
  by_contra long
  rw [typeUntil_done (Nat.le_of_not_lt long)] at none
  cases none

/-- The first prefix after which the line has `n` characters. -/
structure Reaches (erase : α) (n : Nat) (line cs : List α) (m : Nat) : Prop where
  within : m ≤ cs.length
  long : n ≤ (typedAll erase line (cs.take m)).length
  first : ∀ j < m, (typedAll erase line (cs.take j)).length < n

theorem Reaches.zero (long : n ≤ line.length) (cs : List α) : Reaches erase n line cs 0 :=
  ⟨Nat.zero_le _, long, fun j below => absurd below (Nat.not_lt_zero j)⟩

theorem Reaches.succ (short : line.length < n)
    (reaches : Reaches erase n (typed erase line c) cs m) :
    Reaches erase n line (c :: cs) (m + 1) := by
  rcases reaches with ⟨within, long, first⟩
  refine ⟨Nat.succ_le_succ within, long, fun j below => ?_⟩
  cases j with
  | zero => exact short
  | succ j => exact first j (Nat.lt_of_succ_lt_succ below)

theorem typeUntil_reaches (found : typeUntil erase n line cs = some (out, rest)) :
    ∃ m, Reaches erase n line cs m ∧ out = typedAll erase line (cs.take m) ∧ rest = cs.drop m := by
  induction cs generalizing line with
  | nil =>
      by_cases long : n ≤ line.length
      · rw [typeUntil_done long] at found
        cases found
        exact ⟨0, .zero long _, rfl, rfl⟩
      · rw [typeUntil_nil (by omega)] at found
        cases found
  | cons c cs ih =>
      by_cases long : n ≤ line.length
      · rw [typeUntil_done long] at found
        cases found
        exact ⟨0, .zero long _, rfl, rfl⟩
      · rw [typeUntil_next (by omega)] at found
        rcases ih found with ⟨m, reaches, line', rest'⟩
        exact ⟨m + 1, reaches.succ (by omega), line', rest'⟩

theorem Reaches.typeUntil (reaches : Reaches erase n line cs m) :
    typeUntil erase n line cs = some (typedAll erase line (cs.take m), cs.drop m) := by
  induction cs generalizing line m with
  | nil =>
      obtain rfl : m = 0 := Nat.le_zero.mp reaches.within
      exact typeUntil_done reaches.long []
  | cons c cs ih =>
      cases m with
      | zero => exact typeUntil_done reaches.long (c :: cs)
      | succ m =>
          have short : line.length < n := reaches.first 0 (Nat.succ_pos m)
          have later : Reaches erase n (typed erase line c) cs m :=
            ⟨Nat.le_of_succ_le_succ reaches.within, reaches.long,
              fun j below => reaches.first (j + 1) (Nat.succ_lt_succ below)⟩
          rw [typeUntil_next short, ih later]
          rfl

theorem Reaches.length_eq (reaches : Reaches erase n line cs m) (short : line.length ≤ n) :
    (typedAll erase line (cs.take m)).length = n := by
  induction cs generalizing line m with
  | nil =>
      have long : n ≤ line.length := by simpa [typedAll] using reaches.long
      simp only [List.take_nil, typedAll, List.foldl_nil]
      omega
  | cons c cs ih =>
      cases m with
      | zero =>
          have long : n ≤ line.length := reaches.long
          exact Nat.le_antisymm short long
      | succ m =>
          have below : line.length < n := reaches.first 0 (Nat.succ_pos m)
          have step := typed_length_le erase line c
          exact ih ⟨Nat.le_of_succ_le_succ reaches.within, reaches.long,
            fun j bound => reaches.first (j + 1) (Nat.succ_lt_succ bound)⟩ (by omega)

theorem typeUntil_none_iff : typeUntil erase n line cs = none ↔
    ∀ j ≤ cs.length, (typedAll erase line (cs.take j)).length < n := by
  constructor
  · intro none j bound
    by_contra long
    -- the first such prefix would have ended the line
    have some : ∃ j, j ≤ cs.length ∧ n ≤ (typedAll erase line (cs.take j)).length :=
      ⟨j, bound, by omega⟩
    have found := Nat.find_spec some
    have reaches : Reaches erase n line cs (Nat.find some) := by
      refine ⟨found.1, found.2, fun i below => ?_⟩
      have earlier := Nat.find_min some below
      omega
    rw [reaches.typeUntil] at none
    cases none
  · intro short
    cases found : typeUntil erase n line cs with
    | none => rfl
    | some result =>
        rcases typeUntil_reaches found with ⟨m, reaches, _⟩
        have below := short m reaches.within
        have long := reaches.long
        omega

theorem typedAll_plain_length (plain : erase ∉ cs) (line : List α) :
    (typedAll erase line cs).length = line.length + cs.length := by
  rw [typedAll_plain plain, List.length_append]

theorem typeUntil_plain (plain : erase ∉ cs) (fills : line.length + cs.length = n) :
    typeUntil erase n line cs = some (line ++ cs, []) := by
  have reaches : Reaches erase n line cs cs.length := by
    refine ⟨Nat.le_refl _, ?_, fun j below => ?_⟩
    · rw [List.take_length, typedAll_plain_length plain, fills]
    · rw [typedAll_plain_length fun member => plain (List.mem_of_mem_take member), List.length_take]
      omega
  rw [reaches.typeUntil, List.take_length, typedAll_plain plain, List.drop_length]

theorem typeUntil_plain_short (plain : erase ∉ cs) (short : line.length + cs.length < n) :
    typeUntil erase n line cs = none := by
  rw [typeUntil_none_iff]
  intro j bound
  rw [typedAll_plain_length fun member => plain (List.mem_of_mem_take member), List.length_take]
  omega

/-! A character that stands in front of the line and cannot be erased before the line is empty. -/

section Leading

theorem typed_leading (e : α) (meets : c = erase → line ≠ []) :
    typed erase (e :: line) c = e :: typed erase line c := by
  by_cases erasing : c = erase
  · rw [erasing, typed_erase, typed_erase, List.dropLast_cons_of_ne_nil (meets erasing)]
  · rw [typed_char erasing, typed_char erasing, List.cons_append]

/-- An erase character that meets the empty line takes the character in front. -/
theorem typed_leading_gone (e : α) (meets : ¬(c = erase → line ≠ [])) :
    typed erase (e :: line) c = typed erase line c := by
  rw [Classical.not_imp, not_not] at meets
  rcases meets with ⟨rfl, rfl⟩
  rw [typed_erase, typed_erase]
  rfl

theorem typedAll_leading (e : α) (effective : Effective erase line cs) :
    typedAll erase (e :: line) cs = e :: typedAll erase line cs := by
  induction cs generalizing line with
  | nil => rfl
  | cons c cs ih => rw [typedAll_cons, typedAll_cons, typed_leading e effective.1, ih effective.2]

theorem Effective.take (effective : Effective erase line cs) (k : Nat) :
    Effective erase line (cs.take k) := by
  induction cs generalizing line k with
  | nil =>
      rw [List.take_nil]
      exact effective
  | cons c cs ih =>
      cases k with
      | zero => exact trivial
      | succ k => exact ⟨effective.1, ih effective.2 k⟩

/-- The character in front is erased in time, or the line gets as long as required with it. -/
theorem typeUntil_leading (e : α) (short : line.length < n) (cs : List α) :
    typeUntil erase n (e :: line) cs = typeUntil erase n line cs ∨
      ∃ k ≤ cs.length, Effective erase line (cs.take k) ∧
        (typedAll erase line (cs.take k)).length + 1 = n := by
  by_cases full : line.length + 1 = n
  · exact .inr ⟨0, Nat.zero_le _, trivial, full⟩
  · have shorter : (e :: line).length < n := by
      rw [List.length_cons]
      omega
    induction cs generalizing line with
    | nil => exact .inl (by rw [typeUntil_nil short, typeUntil_nil shorter])
    | cons c cs ih =>
        rw [typeUntil_next short, typeUntil_next shorter]
        by_cases meets : c = erase → line ≠ []
        · rw [typed_leading e meets]
          have step := typed_length_le erase line c
          rw [List.length_cons] at shorter
          by_cases done : (typed erase line c).length + 1 = n
          · exact .inr ⟨1, Nat.succ_le_succ (Nat.zero_le _), ⟨meets, trivial⟩, done⟩
          · rcases ih (by omega) done (by rw [List.length_cons]; omega) with
              same | ⟨k, bound, effective, length⟩
            · exact .inl same
            · exact .inr ⟨k + 1, Nat.succ_le_succ bound, ⟨meets, effective⟩, length⟩
        · exact .inl (by rw [typed_leading_gone e meets])

theorem typeUntil_premature (e : α) {k : Nat} (effective : Effective erase [] (cs.take k))
    (length : (typedAll erase [] (cs.take k)).length + 1 = n) (inside : k ≤ cs.length) :
    ∃ m ≤ cs.length, typeUntil erase n [e] (cs.take m) ≠ none ∧
      typeUntil erase n [] (cs.take m) = none := by
  have whole : (typedAll erase [e] (cs.take k)).length = n := by
    rw [typedAll_leading e effective, List.length_cons, length]
  have some : ∃ m, n ≤ (typedAll erase [e] (cs.take m)).length := ⟨k, by omega⟩
  have within : Nat.find some ≤ k := Nat.find_min' some (by omega)
  generalize reach : Nat.find some = m at within
  have reaches : Reaches erase n [e] cs m := by
    refine ⟨by omega, reach ▸ Nat.find_spec some, fun j below => ?_⟩
    have earlier := Nat.find_min some (reach ▸ below)
    omega
  refine ⟨m, by omega, ?_, ?_⟩
  · have again : Reaches erase n [e] (cs.take m) m := by
      refine ⟨by rw [List.length_take]; omega, ?_, fun j below => ?_⟩
      · rw [List.take_take, Nat.min_self]
        exact reaches.long
      · rw [List.take_take, Nat.min_eq_left (by omega)]
        exact reaches.first j below
    rw [again.typeUntil]
    exact Option.some_ne_none _
  · rw [typeUntil_none_iff]
    intro j bound
    rw [List.length_take] at bound
    rw [List.take_take, Nat.min_eq_left (by omega)]
    have both := congrArg List.length (typedAll_leading e (show Effective erase [] (cs.take j) by
      have part := effective.take j
      rwa [List.take_take, Nat.min_eq_left (by omega)] at part))
    rw [List.length_cons] at both
    by_cases last : j = m
    · have size := reaches.length_eq (show [e].length ≤ n by rw [List.length_singleton]; omega)
      rw [← last] at size
      omega
    · have short := reaches.first j (by omega)
      omega

end Leading

/-! Streams. -/

section Streams

variable {stream : Nat → α}

structure Shortest (erase : α) (n : Nat) (stream : Nat → α) (m : Nat) : Prop where
  length_eq : (typedAll erase [] (front stream m)).length = n
  first : ∀ j < m, (typedAll erase [] (front stream j)).length ≠ n

theorem Shortest.reaches (shortest : Shortest erase n stream m) {j : Nat} (bound : m ≤ j) :
    Reaches erase n [] (front stream j) m := by
  have below : ∀ i < m, (typedAll erase [] (front stream i)).length < n := by
    intro i inside
    induction i with
    | zero =>
        have different := shortest.first 0 inside
        exact Nat.lt_of_le_of_ne (Nat.zero_le _) different
    | succ i ih =>
        have shorter := ih (by omega)
        have different := shortest.first (i + 1) inside
        have step := typed_length_le erase (typedAll erase [] (front stream i)) (stream i)
        have next : typedAll erase [] (front stream (i + 1)) =
            typed erase (typedAll erase [] (front stream i)) (stream i) := by
          rw [front, List.range_succ, List.map_append, typedAll_append]
          rfl
        rw [next] at different ⊢
        omega
  refine ⟨by rw [front_length]; exact bound, ?_, fun i inside => ?_⟩
  · rw [front_take bound, shortest.length_eq]
  · rw [front_take (by omega)]
    exact below i inside

theorem Reaches.shortest {j : Nat} (reaches : Reaches erase n [] (front stream j) m) :
    Shortest erase n stream m := by
  have within : m ≤ j := by simpa using reaches.within
  constructor
  · have size := reaches.length_eq (Nat.zero_le n)
    rwa [front_take within] at size
  · intro i below
    have short := reaches.first i below
    rw [front_take (by omega)] at short
    omega

theorem Shortest.typeUntil (shortest : Shortest erase n stream m) (j : Nat) :
    LineEditing.typeUntil erase n [] (front stream j) =
      if j < m then none else some (typedAll erase [] (front stream m),
        (front stream j).drop m) := by
  split
  · rename_i below
    cases found : LineEditing.typeUntil erase n [] (front stream j) with
    | none => rfl
    | some result =>
        rcases typeUntil_reaches found with ⟨i, reaches, _⟩
        have within : i ≤ j := by simpa using reaches.within
        exact absurd reaches.shortest.length_eq (shortest.first i (by omega))
  · rename_i above
    rw [(shortest.reaches (by omega)).typeUntil, front_take (by omega)]

theorem typeUntil_endless (endless : ∀ m, ¬ Shortest erase n stream m) (j : Nat) :
    typeUntil erase n [] (front stream j) = none := by
  cases found : typeUntil erase n [] (front stream j) with
  | none => rfl
  | some result =>
      rcases typeUntil_reaches found with ⟨i, reaches, _⟩
      exact absurd reaches.shortest (endless i)

end Streams

/-! Lines that end with a stop character. -/

section Stops

def takeLine (stop : α) : Nat → List α → Option (List α)
  | 0, _ => some []
  | _ + 1, [] => none
  | n + 1, c :: cs => if c = stop then some [c] else (takeLine stop n cs).map (c :: ·)

def Ended (stop : α) (n : Nat) (line : List α) : Prop := line.length = n ∨ line.getLast? = some stop

/-- The shortest prefix of the stream that makes such a line. -/
structure ShortestEnded (stop erase : α) (n : Nat) (stream : Nat → α) (m : Nat) : Prop where
  ended : Ended stop n (typedAll erase [] (front stream m))
  first : ∀ j < m, ¬ Ended stop n (typedAll erase [] (front stream j))

variable {stream : Nat → α}

theorem takeLine_front (stop : α) (n : Nat) (stream : Nat → α) : ∃ m ≤ n,
    (∀ i, i + 1 < m → stream i ≠ stop) ∧ (m = n ∨ ∃ i, m = i + 1 ∧ stream i = stop) ∧
    ∀ j, takeLine stop n (front stream j) = if j < m then none else some (front stream m) := by
  induction n generalizing stream with
  | zero => exact ⟨0, le_refl 0, fun i below => by omega, .inl rfl, fun j => rfl⟩
  | succ n ih =>
      by_cases stops : stream 0 = stop
      · refine ⟨1, by omega, fun i below => by omega, .inr ⟨0, rfl, stops⟩, fun j => ?_⟩
        cases j with
        | zero => rfl
        | succ j =>
            rw [if_neg (by omega), front_succ, front_succ, takeLine, if_pos stops]
            rfl
      · rcases ih fun i => stream (i + 1) with ⟨m, bound, apart, ends, takes⟩
        refine ⟨m + 1, by omega, fun i below => ?_, ?_, fun j => ?_⟩
        · cases i with
          | zero => exact stops
          | succ i => exact apart i (by omega)
        · rcases ends with rfl | ⟨i, rfl, last⟩
          · exact .inl rfl
          · exact .inr ⟨i + 1, rfl, last⟩
        · cases j with
          | zero => rfl
          | succ j =>
              rw [front_succ, takeLine, if_neg stops, takes, front_succ]
              by_cases below : j < m
              · rw [if_pos below, if_pos (by omega)]
                rfl
              · rw [if_neg below, if_neg (by omega)]
                rfl

theorem shortestEnded_plain {stop : α} (apart : ∀ i, i + 1 < m → stream i ≠ stop)
    (ends : m = n ∨ ∃ i, m = i + 1 ∧ stream i = stop) (bound : m ≤ n)
    (plain : erase ∉ front stream m) :
    ShortestEnded stop erase n stream m := by
  have line : ∀ j ≤ m, typedAll erase [] (front stream j) = front stream j := by
    intro j below
    apply typedAll_plain
    rw [mem_front] at plain ⊢
    rintro ⟨i, inside, same⟩
    exact plain ⟨i, by omega, same⟩
  constructor
  · rw [line m (le_refl m)]
    rcases ends with rfl | ⟨i, rfl, last⟩
    · exact .inl (front_length ..)
    · exact .inr (by rw [front_getLast, last])
  · intro j below
    rw [line j (by omega)]
    rintro (full | stops)
    · rw [front_length] at full
      omega
    · cases j with
      | zero => cases stops
      | succ j =>
          rw [front_getLast] at stops
          exact apart j below (Option.some.inj stops)

/-! A line that is read until it is ended. -/

instance (stop : α) (n : Nat) (line : List α) : Decidable (Ended stop n line) :=
  inferInstanceAs (Decidable (_ ∨ _))

def typeEnded (stop erase : α) (n : Nat) : List α → List α → Option (List α × List α)
  | line, [] => if Ended stop n line then some (line, []) else none
  | line, c :: cs => if Ended stop n line then some (line, c :: cs)
      else typeEnded stop erase n (typed erase line c) cs

structure FirstEnded (stop erase : α) (n : Nat) (line : List α) (stream : Nat → α)
    (m : Nat) : Prop where
  ended : Ended stop n (typedAll erase line (front stream m))
  first : ∀ j < m, ¬ Ended stop n (typedAll erase line (front stream j))

variable {stop : α}

theorem typedAll_front_succ (erase : α) (line : List α) (stream : Nat → α) (m : Nat) :
    typedAll erase line (front stream (m + 1)) =
      typedAll erase (typed erase line (stream 0)) (front (fun i => stream (i + 1)) m) := by
  rw [front_succ, typedAll_cons]

theorem shortestEnded_iff : ShortestEnded stop erase n stream m ↔
    FirstEnded stop erase n [] stream m :=
  ⟨fun shortest => ⟨shortest.ended, shortest.first⟩, fun first => ⟨first.ended, first.first⟩⟩

theorem firstEnded_succ_iff (goes : ¬Ended stop n line) :
    FirstEnded stop erase n line stream (m + 1) ↔
    FirstEnded stop erase n (typed erase line (stream 0)) (fun i => stream (i + 1)) m := by
  constructor
  · intro later
    constructor
    · rw [← typedAll_front_succ]
      exact later.ended
    · intro j below
      rw [← typedAll_front_succ]
      exact later.first (j + 1) (Nat.succ_lt_succ below)
  · intro later
    constructor
    · rw [typedAll_front_succ]
      exact later.ended
    · intro j below
      cases j with
      | zero => exact goes
      | succ j =>
          rw [typedAll_front_succ]
          exact later.first j (Nat.lt_of_succ_lt_succ below)

theorem FirstEnded.unique {i j : Nat} (one : FirstEnded stop erase n line stream i)
    (other : FirstEnded stop erase n line stream j) : i = j := by
  rcases Nat.lt_trichotomy i j with less | same | more
  · exact absurd one.ended (other.first i less)
  · exact same
  · exact absurd other.ended (one.first j more)

theorem ShortestEnded.unique {i j : Nat} (one : ShortestEnded stop erase n stream i)
    (other : ShortestEnded stop erase n stream j) : i = j :=
  (shortestEnded_iff.mp one).unique (shortestEnded_iff.mp other)

theorem FirstEnded.typeEnded (first : FirstEnded stop erase n line stream m) {j : Nat}
    (bound : m ≤ j) :
    LineEditing.typeEnded stop erase n line (front stream j) =
      some (typedAll erase line (front stream m), (front stream j).drop m) := by
  induction m generalizing line stream j with
  | zero =>
      have ended : Ended stop n line := first.ended
      cases cs : front stream j with
      | nil => exact if_pos ended
      | cons c cs => exact if_pos ended
  | succ m ih =>
      obtain ⟨j, rfl⟩ := Nat.exists_eq_succ_of_ne_zero (show j ≠ 0 by omega)
      have goes : ¬Ended stop n line := first.first 0 (Nat.succ_pos m)
      rw [front_succ, LineEditing.typeEnded, if_neg goes,
        ih ((firstEnded_succ_iff goes).mp first) (Nat.le_of_succ_le_succ bound),
          typedAll_front_succ]
      rfl

theorem firstEnded_zero_iff : FirstEnded stop erase n line stream 0 ↔ Ended stop n line :=
  ⟨fun first => first.ended, fun ended => ⟨ended, fun j below => absurd below (Nat.not_lt_zero j)⟩⟩

theorem typeEnded_waits {j : Nat} (never : ∀ m ≤ j, ¬FirstEnded stop erase n line stream m) :
    typeEnded stop erase n line (front stream j) = none := by
  have goes : ¬Ended stop n line :=
    fun ended => never 0 (Nat.zero_le j) (firstEnded_zero_iff.mpr ended)
  induction j generalizing line stream with
  | zero => exact if_neg goes
  | succ j ih =>
      rw [front_succ, typeEnded, if_neg goes]
      have later (m : Nat) (bound : m ≤ j) : ¬FirstEnded stop erase n (typed erase line (stream 0))
          (fun i => stream (i + 1)) m := by
        rw [← firstEnded_succ_iff goes]
        exact never (m + 1) (Nat.succ_le_succ bound)
      exact ih later fun ended => later 0 (Nat.zero_le j) (firstEnded_zero_iff.mpr ended)

theorem firstEnded_exists (ended : ∃ m, Ended stop n (typedAll erase line (front stream m))) :
    ∃ m, FirstEnded stop erase n line stream m :=
  ⟨Nat.find ended, Nat.find_spec ended, fun _ below => Nat.find_min ended below⟩

omit [DecidableEq α] in
theorem Ended.leading (ended : Ended stop n line) (short : line.length < n) (e : α) :
    Ended stop n (e :: line) := by
  rcases ended with full | stops
  · exact absurd full (Nat.ne_of_lt short)
  · cases line with
    | nil => cases stops
    | cons c line => exact .inr (by rwa [List.getLast?_cons_cons])

/-- The character in front is erased in time, or the line ends with it. -/
theorem typeEnded_leading (e : α) (short : line.length < n) (cs : List α) :
    typeEnded stop erase n (e :: line) cs = typeEnded stop erase n line cs ∨
      ∃ k ≤ cs.length, Effective erase line (cs.take k) ∧
        Ended stop n (e :: typedAll erase line (cs.take k)) := by
  by_cases ended : Ended stop n (e :: line)
  · exact .inr ⟨0, Nat.zero_le _, trivial, ended⟩
  have goes : ¬Ended stop n line := fun early => ended (early.leading short e)
  induction cs generalizing line with
  | nil => exact .inl (by rw [typeEnded, typeEnded, if_neg goes, if_neg ended])
  | cons c cs ih =>
      rw [typeEnded, typeEnded, if_neg goes, if_neg ended]
      by_cases meets : c = erase → line ≠ []
      · rw [typed_leading e meets]
        have room : line.length + 1 ≠ n := fun full => ended (.inl full)
        have step := typed_length_le erase line c
        have shorter : (typed erase line c).length < n := by omega
        by_cases last : Ended stop n (e :: typed erase line c)
        · exact .inr ⟨1, Nat.succ_le_succ (Nat.zero_le _), ⟨meets, trivial⟩, last⟩
        · rcases ih shorter last fun early => last (early.leading shorter e) with
            same | ⟨k, bound, effective, found⟩
          · exact .inl same
          · exact .inr ⟨k + 1, Nat.succ_le_succ bound, ⟨meets, effective⟩, found⟩
      · exact .inl (by rw [typed_leading_gone e meets])

/-- Where the line ends with the character in front, it does so for the first time while that is
still there. -/
theorem firstEnded_leading (e : α) {k : Nat} (effective : Effective erase line (front stream k))
    (ended : Ended stop n (e :: typedAll erase line (front stream k))) :
    ∃ m, FirstEnded stop erase n (e :: line) stream m ∧ Effective erase line (front stream m) := by
  rw [← typedAll_leading e effective] at ended
  obtain ⟨m, first⟩ := firstEnded_exists ⟨k, ended⟩
  have early : m ≤ k := by
    by_contra late
    exact first.first k (by omega) ended
  have part := effective.take m
  rw [front_take early] at part
  exact ⟨m, first, part⟩

end Stops

end Lines

end LineEditing
