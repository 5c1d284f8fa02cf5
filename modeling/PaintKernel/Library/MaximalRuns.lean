import Mathlib

set_option autoImplicit false

/-! The maximal runs of a list without separators, in order, with the positions where they start. -/

namespace MaximalRuns

variable {α : Type}

/-- The run lies in the list between separators or ends of the list. -/
structure IsRun (sep : α → Bool) (l : List α) (pos : Nat) (run : List α) : Prop where
  nonempty : run ≠ []
  here : run <+: l.drop pos
  kept : ∀ a ∈ run, sep a = false
  before : ∀ i a, i + 1 = pos → l[i]? = some a → sep a = true
  after : ∀ a, l[pos + run.length]? = some a → sep a = true

def starts (sep : α → Bool) (l : List α) (pos : Nat) : Bool :=
  (l[pos]?.any fun a => !sep a) && (pos == 0 || l[pos - 1]?.any sep)

def runs (sep : α → Bool) (l : List α) : List (Nat × List α) :=
  (List.range l.length).filterMap fun pos =>
    if starts sep l pos then some (pos, (l.drop pos).takeWhile fun a => !sep a) else none

variable {sep : α → Bool} {l run : List α} {pos : Nat}

theorem starts_iff : starts sep l pos = true ↔
    (∃ a, l[pos]? = some a ∧ sep a = false) ∧ ∀ i a, i + 1 = pos → l[i]? = some a →
      sep a = true := by
  rw [starts, Bool.and_eq_true, Option.any_eq_true]
  simp only [Bool.not_eq_true']
  apply and_congr_right
  rintro ⟨a, read, _⟩
  cases pos with
  | zero => simp
  | succ i =>
      obtain ⟨bound, _⟩ := List.getElem?_eq_some_iff.mp read
      have before : l[i]? = some (l.get ⟨i, by omega⟩) := List.getElem?_eq_getElem _
      rw [Bool.or_eq_true, Nat.add_sub_cancel, before, Option.any_some]
      constructor
      · rintro (zero | separated) j b position read'
        · exact absurd (beq_iff_eq.mp zero) (Nat.succ_ne_zero i)
        · obtain rfl := Nat.succ.inj position
          rw [before] at read'
          rwa [← Option.some.inj read']
      · intro separated
        exact Or.inr (separated i _ rfl before)

theorem mem_runs_iff : (pos, run) ∈ runs sep l ↔
    starts sep l pos = true ∧ run = (l.drop pos).takeWhile fun a => !sep a := by
  rw [runs, List.mem_filterMap]
  constructor
  · rintro ⟨i, _, found⟩
    split_ifs at found with start
    cases found
    exact ⟨start, rfl⟩
  · rintro ⟨start, rfl⟩
    obtain ⟨⟨a, read, _⟩, _⟩ := starts_iff.mp start
    exact ⟨pos, List.mem_range.mpr (List.getElem?_eq_some_iff.mp read).1, if_pos start⟩

theorem mem_runs : (pos, run) ∈ runs sep l ↔ IsRun sep l pos run := by
  rw [mem_runs_iff, starts_iff]
  constructor
  · rintro ⟨⟨⟨a, read, other⟩, before⟩, rfl⟩
    have inside := List.takeWhile_append_dropWhile (p := fun a => !sep a) (l := l.drop pos)
    refine ⟨?_, List.takeWhile_prefix _, ?_, before, ?_⟩
    · have first : l.drop pos = a :: l.drop (pos + 1) := by
        obtain ⟨bound, rfl⟩ := List.getElem?_eq_some_iff.mp read
        exact List.drop_eq_getElem_cons bound
      simp [first, other]
    · intro a member
      simpa using List.mem_takeWhile_imp member
    · intro a behind
      have stop := List.head?_dropWhile_not (fun a => !sep a) (l.drop pos)
      have split := congrArg (fun xs => xs[((l.drop pos).takeWhile fun a => !sep a).length]?) inside
      simp only [List.getElem?_append_right (Nat.le_refl _),
        Nat.sub_self, ← List.head?_eq_getElem?] at split
      rw [← List.getElem?_drop, ← split] at behind
      rw [behind] at stop
      simpa using stop
  · intro found
    obtain ⟨tail, whole⟩ := found.here
    have all : ∀ a ∈ run, (!sep a) = true := fun a member => by rw [found.kept a member]; rfl
    have stops : tail.takeWhile (fun a => !sep a) = [] := by
      cases tail with
      | nil => rfl
      | cons b rest =>
          have read : l[pos + run.length]? = some b := by
            rw [← List.getElem?_drop, ← whole, List.getElem?_append_right (Nat.le_refl _),
              Nat.sub_self]
            rfl
          simp [found.after b read]
    refine ⟨⟨?_, found.before⟩, ?_⟩
    · obtain ⟨a, rest, rfl⟩ := List.exists_cons_of_ne_nil found.nonempty
      refine ⟨a, ?_, found.kept a List.mem_cons_self⟩
      rw [← Nat.add_zero pos, ← List.getElem?_drop, ← whole]
      rfl
    · rw [← whole, List.takeWhile_append_of_pos all, stops, List.append_nil]

end MaximalRuns
