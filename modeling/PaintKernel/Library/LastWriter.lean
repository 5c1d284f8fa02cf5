import Mathlib

set_option autoImplicit false

/-! Values that a log of actions writes: what counts is the last action that writes. -/

namespace LastWriter

variable {S T A B V : Type}

/-- What `effect` says an action writes, taken over a log: the last value given to `b`. The state
that an effect depends on moves along with `step`. -/
def lastWritten (step : T → A → T) (effect : T → A → B → Option V) : T → List A → B → Option V
  | _, [], _ => none
  | t, a :: rest, b => (lastWritten step effect (step t a) rest b).or (effect t a b)

def Last (step : T → A → T) (effect : T → A → B → Option V) (t : T) (log : List A) (b : B) (t' : T)
    (a : A) : Prop :=
  ∃ before after, log = before ++ a :: after ∧ t' = before.foldl step t ∧
    lastWritten step effect (step t' a) after b = none

section Logs

variable {step : T → A → T} {effect effect' : T → A → B → Option V} {t : T} {b : B} {v : V}

theorem lastWritten_append (before after : List A) (t : T) (b : B) :
    lastWritten step effect t (before ++ after) b =
      (lastWritten step effect (before.foldl step t) after b).or
        (lastWritten step effect t before b) := by
  induction before generalizing t with
  | nil => simp [lastWritten]
  | cons a rest ih => rw [List.cons_append, lastWritten, ih, List.foldl_cons, lastWritten,
      Option.or_assoc]

theorem lastWritten_of_silent {log : List A}
    (silent : ∀ t, ∀ a ∈ log, effect t a b = none) (t : T) :
    lastWritten step effect t log b = none := by
  induction log generalizing t with
  | nil => rfl
  | cons a rest ih =>
      have later := ih (fun t a member => silent t a (List.mem_cons_of_mem _ member)) (step t a)
      rw [lastWritten, later, silent t a List.mem_cons_self, Option.none_or]

theorem lastWritten_of_still {log : List A}
    (still : ∀ a ∈ log, step t a = t ∧ effect t a b = none) :
    lastWritten step effect t log b = none := by
  induction log with
  | nil => rfl
  | cons a rest ih =>
      rw [List.forall_mem_cons] at still
      rw [lastWritten, still.1.1, ih still.2, still.1.2, Option.none_or]

theorem exists_last {log : List A} (written : lastWritten step effect t log b = some v) :
    ∃ t' a, Last step effect t log b t' a ∧ effect t' a b = some v := by
  induction log generalizing t with
  | nil => cases written
  | cons a rest ih =>
      cases later : lastWritten step effect (step t a) rest b with
      | none =>
          rw [lastWritten, later, Option.none_or] at written
          exact ⟨t, a, ⟨[], rest, rfl, rfl, later⟩, written⟩
      | some v' =>
          rw [lastWritten, later, Option.some_or] at written
          cases written
          obtain ⟨t', a', ⟨before, after, parts, reached, silent⟩, wrote⟩ := ih later
          refine ⟨t', a', ⟨a :: before, after, ?_, reached, silent⟩, wrote⟩
          rw [parts, List.cons_append]

theorem Last.value {log : List A} {t' : T} {a : A} (last : Last step effect t log b t' a)
    (wrote : effect t' a b = some v) : lastWritten step effect t log b = some v := by
  obtain ⟨before, after, rfl, rfl, silent⟩ := last
  rw [lastWritten_append, lastWritten, silent, Option.none_or, wrote, Option.some_or]

theorem Last.mem {log : List A} {t' : T} {a : A} (last : Last step effect t log b t' a) :
    a ∈ log := by
  obtain ⟨before, after, rfl, _⟩ := last
  exact List.mem_append_right before List.mem_cons_self

end Logs

section Values

variable {step : S → A → S} {viewStep : T → A → T} {effect : T → A → B → Option V}

/-- Where each action changes a value only by writing it, a value is the one written last, or else
the first. -/
theorem foldl_value {log : List A} (view : S → T) (value : S → B → V) (inv : S → Prop)
    (acts : ∀ s, ∀ a ∈ log, inv s → inv (step s a) ∧ view (step s a) = viewStep (view s) a ∧
      ∀ b, value (step s a) b = (effect (view s) a b).getD (value s b))
    (s : S) (initial : inv s) :
    inv (log.foldl step s) ∧ view (log.foldl step s) = log.foldl viewStep (view s) ∧
      ∀ b, value (log.foldl step s) b =
        (lastWritten viewStep effect (view s) log b).getD (value s b) := by
  induction log generalizing s with
  | nil => exact ⟨initial, rfl, fun _ => rfl⟩
  | cons a rest ih =>
      obtain ⟨kept, viewed, wrote⟩ := acts s a List.mem_cons_self initial
      obtain ⟨last, views, values⟩ :=
        ih (fun s a member => acts s a (List.mem_cons_of_mem _ member)) (step s a) kept
      refine ⟨last, ?_, fun b => ?_⟩
      · rw [List.foldl_cons, List.foldl_cons, ← viewed]
        exact views
      · calc
          value ((a :: rest).foldl step s) b =
              (lastWritten viewStep effect (view (step s a)) rest b).getD (value (step s a) b) :=
                values b
          _ = ((lastWritten viewStep effect (viewStep (view s) a) rest b).or
            (effect (view s) a b)).getD
              (value s b) := by
            rw [viewed, wrote b]
            cases lastWritten viewStep effect (viewStep (view s) a) rest b <;> rfl

end Values

end LastWriter
