import Mathlib

set_option autoImplicit false

/-! A body of atomic steps, with a handler that runs as a whole between any two of them. -/

namespace Preemption

variable {S A T B V I : Type}

/-- Before step `k` of the body, the handler takes all of `arrivals k`. -/
def interrupted (handle : S → A → S) (arrivals : Nat → List A) : Nat → List (S → S) → S → S
  | _, [], s => s
  | k, step :: rest, s =>
      interrupted handle arrivals (k + 1) rest (step ((arrivals k).foldl handle s))

def handled (handle : T → A → T) (arrivals : Nat → List A) (t : T) : Nat → T
  | 0 => t
  | k + 1 => (arrivals k).foldl handle (handled handle arrivals t k)

/-- One of the steps, the first of which has number `k`, hits `b` as the view is at that moment. -/
def Reached (viewAt : Nat → T) (hits : I → T → B → Prop) (k : Nat) (items : List I)
    (b : B) : Prop :=
  ∃ j item, items[j]? = some item ∧ hits item (viewAt (k + j + 1)) b

structure Harmless (handle : S → A → S) (handle' : T → A → T) (view : S → T) (inv : S → Prop)
    (value : S → B → V) : Prop where
  viewed : ∀ s a, view (handle s a) = handle' (view s) a
  kept : ∀ s a, inv s → inv (handle s a)
  same : ∀ s a, inv s → value (handle s a) = value s

structure Marks (view : S → T) (inv : S → Prop) (value : S → B → V) (mark : V) (hits : T → B → Prop)
    (step : S → S) : Prop where
  viewed : ∀ s, view (step s) = view s
  kept : ∀ s, inv s → inv (step s)
  marked : ∀ s b, inv s → hits (view s) b → value (step s) b = mark
  other : ∀ s b, inv s → ¬ hits (view s) b → value (step s) b = value s b

section Quiet

variable {handle : S → A → S} {arrivals : Nat → List A}

theorem interrupted_quiet (steps : List (S → S)) {k : Nat}
    (quiet : ∀ j < steps.length, arrivals (k + j) = []) (s : S) :
    interrupted handle arrivals k steps s = steps.foldl (fun s step => step s) s := by
  induction steps generalizing k s with
  | nil => rfl
  | cons step rest ih =>
      have now : arrivals k = [] := quiet 0 (Nat.succ_pos _)
      rw [interrupted, now, List.foldl_cons]
      apply ih
      intro j bound
      rw [Nat.add_assoc, Nat.add_comm 1]
      exact quiet (j + 1) (Nat.succ_lt_succ bound)

theorem handled_quiet {t : S} {n k : Nat} (later : n ≤ k)
    (quiet : ∀ j, n ≤ j → j < k → arrivals j = []) :
    handled handle arrivals t k = handled handle arrivals t n := by
  induction k, later using Nat.le_induction with
  | base => rfl
  | succ k later ih =>
      rw [handled, quiet k later (Nat.lt_succ_self k), List.foldl_nil]
      exact ih fun j after before => quiet j after (Nat.lt_succ_of_lt before)

theorem handled_once {t : S} {n : Nat} (once : ∀ j, j ≠ n → arrivals j = []) (k : Nat) :
    handled handle arrivals t (k + 1) = if k < n then t else (arrivals n).foldl handle t := by
  have before : handled handle arrivals t n = t :=
    handled_quiet (Nat.zero_le n) fun j _ early => once j (Nat.ne_of_lt early)
  by_cases early : k < n
  · rw [if_pos early]
    exact handled_quiet (Nat.zero_le _) fun j _ bound => once j (by omega)
  · rw [if_neg early, handled_quiet (n := n + 1) (by omega) fun j late _ => once j (by omega),
      handled, before]

theorem interrupted_invariant (inv : Nat → S → Prop) (kept : ∀ i s a, inv i s → inv i (handle s a))
    (steps : List (S → S)) (k n : Nat)
    (stepped : ∀ i (bound : i < steps.length) s, inv (n + i) s → inv (n + i + 1) (steps[i] s))
    (s : S) (initial : inv n s) :
    inv (n + steps.length) (interrupted handle arrivals k steps s) := by
  induction steps generalizing k n s with
  | nil => exact initial
  | cons step rest ih =>
      have batch : inv n ((arrivals k).foldl handle s) :=
        List.foldlRecOn _ handle initial fun s before a _ => kept n s a before
      have first := stepped 0 (Nat.succ_pos _) _ batch
      have later := ih (k + 1) (n + 1) (fun i bound s before => by
        have next := stepped (i + 1) (Nat.succ_lt_succ bound) s
        rw [show n + (i + 1) = n + 1 + i by omega] at next
        exact next before) _ first
      rw [List.length_cons, show n + (rest.length + 1) = n + 1 + rest.length by omega]
      exact later

end Quiet

section Body

variable {handle : S → A → S} {handle' : T → A → T} {view : S → T} {inv : S → Prop}
  {value : S → B → V}
  {mark : V} {hits : I → T → B → Prop} {step : I → S → S}

theorem Harmless.batch (harmless : Harmless handle handle' view inv value) (xs : List A) (s : S)
    (initial : inv s) :
    inv (xs.foldl handle s) ∧ view (xs.foldl handle s) = xs.foldl handle' (view s) ∧
      value (xs.foldl handle s) = value s := by
  induction xs generalizing s with
  | nil => exact ⟨initial, rfl, rfl⟩
  | cons a rest ih =>
      rcases ih (handle s a) (harmless.kept s a initial) with ⟨kept, viewed, same⟩
      rw [List.foldl_cons, List.foldl_cons, ← harmless.viewed]
      exact ⟨kept, viewed, same.trans (harmless.same s a initial)⟩

theorem reached_cons {viewAt : Nat → T} {k : Nat} {item : I} {rest : List I} {b : B} :
    Reached viewAt hits k (item :: rest) b ↔
      hits item (viewAt (k + 1)) b ∨ Reached viewAt hits (k + 1) rest b := by
  have shift : ∀ j, k + (j + 1) + 1 = k + 1 + j + 1 := fun j => by omega
  constructor
  · rintro ⟨j, found, place, hit⟩
    cases j with
    | zero =>
        cases place
        exact .inl hit
    | succ j =>
        rw [shift] at hit
        exact .inr ⟨j, found, place, hit⟩
  · rintro (hit | ⟨j, found, place, hit⟩)
    · exact ⟨0, item, rfl, hit⟩
    · exact ⟨j + 1, found, place, by rwa [shift]⟩

/-- After the body, the values that some step reached carry the mark and the others are as before.
-/
theorem interrupted_marks (harmless : Harmless handle handle' view inv value)
    (arrivals : Nat → List A) (t : T) {items : List I}
    (marking : ∀ item ∈ items, Marks view inv value mark (hits item) (step item)) {k : Nat} {s : S}
    (initial : inv s) (seen : view s = handled handle' arrivals t k) :
    inv (interrupted handle arrivals k (items.map step) s) ∧
      view (interrupted handle arrivals k (items.map step) s) =
        handled handle' arrivals t (k + items.length) ∧
      ∀ b, (Reached (handled handle' arrivals t) hits k items b →
          value (interrupted handle arrivals k (items.map step) s) b = mark) ∧
        (¬ Reached (handled handle' arrivals t) hits k items b →
          value (interrupted handle arrivals k (items.map step) s) b = value s b) := by
  induction items generalizing k s with
  | nil =>
      refine ⟨initial, seen, fun b => ⟨?_, fun _ => rfl⟩⟩
      rintro ⟨j, item, place, _⟩
      cases place
  | cons item rest ih =>
      rw [List.forall_mem_cons] at marking
      rcases harmless.batch (arrivals k) s initial with ⟨kept, viewed, same⟩
      rw [seen] at viewed
      have mark := marking.1
      have now : view (step item ((arrivals k).foldl handle s)) =
          handled handle' arrivals t (k + 1) :=
        (mark.viewed _).trans viewed
      rcases ih marking.2 (mark.kept _ kept) now with ⟨kept', viewed', marks⟩
      rw [List.length_cons, show k + (rest.length + 1) = k + 1 + rest.length by omega]
      refine ⟨kept', viewed', fun b => ?_⟩
      have marked := mark.marked _ b kept
      have other := mark.other _ b kept
      rw [viewed] at marked other
      rw [reached_cons, List.map_cons, interrupted]
      constructor
      · intro reached
        by_cases later : Reached (handled handle' arrivals t) hits (k + 1) rest b
        · exact (marks b).1 later
        · rw [(marks b).2 later]
          exact marked (reached.resolve_right later)
      · intro never
        rw [not_or] at never
        calc
          _ = value (step item ((arrivals k).foldl handle s)) b := (marks b).2 never.2
          _ = value ((arrivals k).foldl handle s) b := other never.1
          _ = value s b := congrFun same b

end Body

end Preemption
