import Mathlib

set_option autoImplicit false

/-! Finite runs of a labelled step relation. -/

namespace Transition

variable {S A : Type}

inductive Run (step : S → A → S → Prop) : S → List A → S → Prop where
  | nil (s : S) : Run step s [] s
  | cons {s next last : S} {a : A} {rest : List A}
      (first : step s a next) (later : Run step next rest last) : Run step s (a :: rest) last

variable {step step' : S → A → S → Prop}

theorem invariant {inv : S → Prop} (preserved : ∀ s a next, inv s → step s a next → inv next)
    {s last : S} {actions : List A} (run : Run step s actions last) (initial : inv s) :
    inv last := by
  induction run with
  | nil => exact initial
  | cons first _ ih => exact ih (preserved _ _ _ initial first)

theorem invariant_on {inv : S → Prop} {good : A → Prop}
    (preserved : ∀ s a next, good a → inv s → step s a next → inv next) {s last : S}
    {actions : List A} (run : Run step s actions last) (labels : ∀ a ∈ actions, good a)
    (initial : inv s) : inv last := by
  induction run with
  | nil => exact initial
  | cons first _ ih =>
      rw [List.forall_mem_cons] at labels
      exact ih labels.2 (preserved _ _ _ labels.1 initial first)

theorem Run.append {s middle last : S} {first later : List A} (here : Run step s first middle)
    (there : Run step middle later last) : Run step s (first ++ later) last := by
  induction here with
  | nil => exact there
  | cons step _ ih => exact .cons step (ih there)

theorem mono (stronger : ∀ s a next, step s a next → step' s a next) {s last : S} {actions : List A}
    (run : Run step s actions last) : Run step' s actions last := by
  induction run with
  | nil s => exact .nil s
  | cons first _ ih => exact .cons (stronger _ _ _ first) ih

/-- Two conditions on steps that agree wherever an invariant of the steps that meet the second one
holds select the same runs. -/
theorem run_congr (inv : S → Prop) {p q : S → A → S → Prop}
    (agree : ∀ s a next, inv s → step s a next → (p s a next ↔ q s a next))
    (kept : ∀ s a next, inv s → step s a next → q s a next → inv next)
    {s last : S} {actions : List A} (initial : inv s) :
    Run (fun s a next => step s a next ∧ p s a next) s actions last ↔
      Run (fun s a next => step s a next ∧ q s a next) s actions last := by
  constructor
  · intro run
    induction run with
    | nil s => exact .nil s
    | cons first _ ih =>
        have here := (agree _ _ _ initial first.1).mp first.2
        exact .cons ⟨first.1, here⟩ (ih (kept _ _ _ initial first.1 here))
  · intro run
    induction run with
    | nil s => exact .nil s
    | cons first _ ih =>
        have here := (agree _ _ _ initial first.1).mpr first.2
        exact .cons ⟨first.1, here⟩ (ih (kept _ _ _ initial first.1 first.2))

/-- A forward simulation carries whole runs over. -/
theorem simulation {T : Type} {target : T → A → T → Prop} (related : S → T → Prop)
    (simulates : ∀ s t a next, related s t → step s a next →
      ∃ next', target t a next' ∧ related next next')
    {s last : S} {t : T} {actions : List A} (run : Run step s actions last)
    (initial : related s t) :
    ∃ last', Run target t actions last' ∧ related last last' := by
  induction run generalizing t with
  | nil s => exact ⟨t, .nil t, initial⟩
  | cons first _ ih =>
      rcases simulates _ _ _ _ initial first with ⟨middle, step, there⟩
      rcases ih there with ⟨last', later, final⟩
      exact ⟨last', .cons step later, final⟩

theorem run_of_foldlM {f : S → A → Option S} {s last : S} {actions : List A}
    (folded : actions.foldlM f s = some last) :
    Run (fun s a next => f s a = some next) s actions last := by
  induction actions generalizing s with
  | nil =>
      cases folded
      exact .nil _
  | cons a rest ih =>
      rw [List.foldlM_cons, Option.bind_eq_bind, Option.bind_eq_some_iff] at folded
      rcases folded with ⟨next, first, later⟩
      exact .cons first (ih later)

section Folds

variable {f : S → A → S} {g : S → A → Option S}

theorem foldlM_some {xs : List A} (agrees : ∀ s, ∀ a ∈ xs, g s a = some (f s a)) (s : S) :
    xs.foldlM g s = some (xs.foldl f s) := by
  induction xs generalizing s with
  | nil => rfl
  | cons a rest ih =>
      rw [List.foldlM_cons, agrees s a List.mem_cons_self, List.foldl_cons]
      exact ih (fun s b member => agrees s b (List.mem_cons_of_mem a member)) (f s a)

theorem foldlM_guard {p : A → Prop} [DecidablePred p] (xs : List A) (s : S) :
    xs.foldlM (fun s a => if p a then some (f s a) else none) s =
      if ∀ a ∈ xs, p a then some (xs.foldl f s) else none := by
  induction xs generalizing s with
  | nil => simp
  | cons a rest ih =>
      rw [List.foldlM_cons]
      by_cases here : p a <;> simp [here, ih]

theorem foldlM_image {T : Type} {image : T → S} {k : T → A → Option T} {xs : List A}
    (step : ∀ t, ∀ a ∈ xs, g (image t) a = (k t a).map image) (t : T) :
    xs.foldlM g (image t) = (xs.foldlM k t).map image := by
  induction xs generalizing t with
  | nil => rfl
  | cons a rest ih =>
      rw [List.foldlM_cons, List.foldlM_cons, step t a List.mem_cons_self]
      cases k t a with
      | none => rfl
      | some t => exact ih (fun t b member => step t b (List.mem_cons_of_mem a member)) t

theorem foldlM_range {f : S → Nat → S} {g : S → Nat → Option S} {s : S} {n : Nat}
    (agrees : ∀ i < n, g ((List.range i).foldl f s) i = some (f ((List.range i).foldl f s) i)) :
    (List.range n).foldlM g s = some ((List.range n).foldl f s) := by
  induction n with
  | zero => rfl
  | succ n ih =>
      rw [List.range_succ, List.foldlM_append, ih (fun i bound => agrees i (by omega)),
        List.foldl_append]
      simp [agrees n (by omega)]

/-- A loop that fails when its counter reaches a limit. -/
theorem foldlM_limited {f : S → Nat → Option S} (state : Nat → S) {limit size : Nat}
    (positive : 0 < limit)
    (step : ∀ i < size, f (state i) i = if i + 1 < limit then some (state (i + 1)) else none) :
    (List.range size).foldlM f (state 0) = if size < limit then some (state size) else none := by
  induction size with
  | zero => rw [if_pos positive]; rfl
  | succ size ih =>
      rw [List.range_succ, List.foldlM_append, ih fun i bound => step i (by omega)]
      by_cases before : size < limit
      · simp [if_pos before, step size (by omega)]
      · rw [if_neg before, if_neg (by omega)]
        rfl

theorem foldlM_states {f : S → Nat → Option S} (state : Nat → S) {size : Nat}
    (step : ∀ i < size, f (state i) i = some (state (i + 1))) :
    (List.range size).foldlM f (state 0) = some (state size) := by
  have run := foldlM_limited state (Nat.succ_pos size)
    fun i bound => (step i bound).trans (if_pos (Nat.succ_lt_succ bound)).symm
  rwa [if_pos (Nat.lt_succ_self size)] at run

theorem foldlM_invariant {inv : S → Prop}
    (agrees : ∀ s a, inv s → g s a = some (f s a) ∧ inv (f s a)) (xs : List A) (s : S)
    (initial : inv s) :
    xs.foldlM g s = some (xs.foldl f s) ∧ inv (xs.foldl f s) := by
  induction xs generalizing s with
  | nil => exact ⟨rfl, initial⟩
  | cons a rest ih =>
      rcases agrees s a initial with ⟨step, kept⟩
      rw [List.foldlM_cons, step, List.foldl_cons]
      exact ih (f s a) kept

end Folds

section Answers

variable {T O : Type}

def answers (f : S → A → Option (O × S)) : List A → S → Option (List O × S)
  | [], s => some ([], s)
  | a :: rest, s => do
      let (answer, s) ← f s a
      let (later, s) ← answers f rest s
      return (answer :: later, s)

/-- An implementation that answers each call as its specification does answers whole runs so. -/
theorem answers_refine {f : S → A → Option (O × S)} {g : T → A → Option (O × T)}
    {related : S → T → Prop} (answered : ∀ s t a o t', related s t → g t a = some (o, t') →
      ∃ s', f s a = some (o, s') ∧ related s' t')
    {calls : List A} {s : S} {t t' : T} {os : List O} (initial : related s t)
    (specified : answers g calls t = some (os, t')) :
    ∃ s', answers f calls s = some (os, s') ∧ related s' t' := by
  induction calls generalizing s t os with
  | nil =>
      cases specified
      exact ⟨s, rfl, initial⟩
  | cons a rest ih =>
      rw [answers, Option.bind_eq_bind, Option.bind_eq_some_iff] at specified
      rcases specified with ⟨⟨o, middle⟩, first, tail⟩
      simp only [Option.bind_eq_bind, Option.bind_eq_some_iff] at tail
      rcases tail with ⟨⟨later, last⟩, ran, final⟩
      cases final
      rcases answered s t a o middle initial first with ⟨s₁, here, kept⟩
      rcases ih kept ran with ⟨s', there, final⟩
      exact ⟨s', by simp [answers, here, there], final⟩

end Answers

end Transition
