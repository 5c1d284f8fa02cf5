import Mathlib

set_option autoImplicit false

/-! Sequences with a terminator: where two of them differ, and their lexicographic order. -/

namespace Terminated

variable {α β : Type} {e a b : α} {l l' front : List α}

/-- Up to their terminators the sequences are the same, until the one has `a` and the other has `b`.
-/
structure DifferAt (e : α) (l l' front : List α) (a b : α) : Prop where
  left : front ++ [a] <+: l ++ [e]
  right : front ++ [b] <+: l' ++ [e]
  differ : a ≠ b

theorem differAt_or_eq (ends : e ∉ l) (ends' : e ∉ l') :
    l = l' ∨ ∃ front a b, DifferAt e l l' front a b := by
  induction l generalizing l' with
  | nil =>
      cases l' with
      | nil => exact Or.inl rfl
      | cons b l' =>
          exact Or.inr ⟨[], e, b, List.prefix_rfl, ⟨l' ++ [e], rfl⟩, fun same =>
            ends' (same ▸ List.mem_cons_self)⟩
  | cons a l ih =>
      cases l' with
      | nil => exact Or.inr ⟨[], a, e, ⟨l ++ [e], rfl⟩, List.prefix_rfl, fun same =>
          ends (same ▸ List.mem_cons_self)⟩
      | cons b l' =>
          by_cases same : a = b
          · subst same
            rcases ih (List.not_mem_of_not_mem_cons ends) (List.not_mem_of_not_mem_cons ends') with
              rfl | ⟨front, c, d, found⟩
            · exact Or.inl rfl
            · exact Or.inr ⟨a :: front, c, d, List.cons_prefix_cons.mpr ⟨rfl, found.left⟩,
                List.cons_prefix_cons.mpr ⟨rfl, found.right⟩, found.differ⟩
          · exact Or.inr ⟨[], a, b, ⟨l ++ [e], rfl⟩, ⟨l' ++ [e], rfl⟩, same⟩

theorem DifferAt.symm (found : DifferAt e l l' front a b) : DifferAt e l' l front b a :=
  ⟨found.right, found.left, found.differ.symm⟩

theorem DifferAt.map {f : α → β} (injective : Function.Injective f)
    (found : DifferAt e l l' front a b) :
    DifferAt (f e) (l.map f) (l'.map f) (front.map f) (f a) (f b) where
  left := by simpa using found.left.map f
  right := by simpa using found.right.map f
  differ := injective.ne found.differ

theorem DifferAt.front_prefix (found : DifferAt e l l' front a b) : front <+: l := by
  have short := found.left.length_le
  rw [List.length_append, List.length_append, List.length_singleton, List.length_singleton] at short
  exact List.prefix_of_prefix_length_le ((List.prefix_append front [a]).trans found.left)
    (List.prefix_append l [e])
    (by omega)

theorem DifferAt.ne (found : DifferAt e l l' front a b) : l ≠ l' := by
  rintro rfl
  have same := List.prefix_of_prefix_length_le found.left found.right (by simp)
  have last := List.append_cancel_left (same.eq_of_length (by simp))
  exact found.differ (List.head_eq_of_cons_eq last)

theorem DifferAt.take_terminated (found : DifferAt e l l' front a b) (k : Nat) :
    (l ++ [e]).take k = (l' ++ [e]).take k ↔ k ≤ front.length := by
  constructor
  · intro same
    by_contra more
    have left : front ++ [a] <+: (l ++ [e]).take k :=
      List.prefix_take_iff.mpr ⟨found.left, by simp; omega⟩
    have right : front ++ [b] <+: (l ++ [e]).take k :=
      same ▸ List.prefix_take_iff.mpr ⟨found.right, by simp; omega⟩
    have last := List.append_cancel_left
      ((List.prefix_of_prefix_length_le left right (by simp)).eq_of_length (by simp))
    exact found.differ (List.head_eq_of_cons_eq last)
  · intro within
    obtain ⟨back, whole⟩ := found.left
    obtain ⟨back', whole'⟩ := found.right
    rw [← whole, ← whole', List.append_assoc, List.append_assoc,
      List.take_append_of_le_length within, List.take_append_of_le_length within]

theorem DifferAt.take_eq_iff (found : DifferAt e l l' front a b) (k : Nat) :
    l.take k = l'.take k ↔ k ≤ front.length := by
  have inside := found.front_prefix.length_le
  have inside' := found.symm.front_prefix.length_le
  constructor
  · intro same
    have lengths := congrArg List.length same
    rw [List.length_take, List.length_take] at lengths
    by_cases short : k ≤ l.length ∧ k ≤ l'.length
    · rw [← found.take_terminated, List.take_append_of_le_length short.1,
        List.take_append_of_le_length short.2, same]
    · rw [List.take_of_length_le (by omega), List.take_of_length_le (by omega)] at same
      exact absurd same found.ne
  · intro within
    have terminated := (found.take_terminated k).mpr within
    rwa [List.take_append_of_le_length (by omega),
      List.take_append_of_le_length (by omega)] at terminated

section Order

variable [LinearOrder α]

theorem DifferAt.lt_iff (found : DifferAt e l l' front a b) : l ++ [e] < l' ++ [e] ↔ a < b := by
  obtain ⟨back, whole⟩ := found.left
  obtain ⟨back', whole'⟩ := found.right
  have common : ∀ front : List α, front ++ [a] ++ back < front ++ [b] ++ back' ↔ a < b := by
    intro front
    induction front with
    | nil => simp [List.cons_lt_cons_iff, found.differ]
    | cons c front ih =>
        rw [List.cons_append, List.cons_append, List.cons_append, List.cons_append,
          List.cons_lt_cons_iff, ih]
        simp
  rw [← whole, ← whole', common]

theorem append_lt_append_iff (least : ∀ a, e ≤ a) (ends : e ∉ l) (ends' : e ∉ l') :
    l ++ [e] < l' ++ [e] ↔ l < l' := by
  induction l generalizing l' with
  | nil =>
      cases l' with
      | nil => simp
      | cons b l' =>
          have above : e < b :=
            lt_of_le_of_ne (least b) fun same => ends' (same ▸ List.mem_cons_self)
          exact iff_of_true (List.cons_lt_cons_iff.mpr (Or.inl above)) (List.nil_lt_cons b l')
  | cons a l ih =>
      cases l' with
      | nil =>
          have above : e < a :=
            lt_of_le_of_ne (least a) fun same => ends (same ▸ List.mem_cons_self)
          refine iff_of_false ?_ (List.not_lt_nil _)
          simp [List.cons_lt_cons_iff, above.le, above.ne']
      | cons b l' =>
          have later := ih (List.not_mem_of_not_mem_cons ends) (List.not_mem_of_not_mem_cons ends')
          rw [List.cons_append, List.cons_append, List.cons_lt_cons_iff,
            List.cons_lt_cons_iff, later]

end Order

end Terminated
