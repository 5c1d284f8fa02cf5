import Mathlib

set_option autoImplicit false

/-! Radix trees stored in indexed tables.

A table is a page `P` of entries `E` indexed by `I`; `next d e` is the page that an entry
of a depth-`d` table points to. Paths are read from the root, at depth zero. -/

namespace RadixTree

variable {P I E : Type}

def follow (next : Nat → E → Option P) (s : P → I → E) : Nat → P → List I → Option P
  | _, page, [] => some page
  | depth, page, i :: rest =>
      (next depth (s page i)).bind fun child => follow next s (depth + 1) child rest

/-- The entries read along a path, down to the first one that points nowhere. -/
def entries (next : Nat → E → Option P) (s : P → I → E) : Nat → P → List I → List E
  | _, _, [] => []
  | depth, page, i :: rest =>
      s page i :: match next depth (s page i) with
        | none => []
        | some child => entries next s (depth + 1) child rest

variable {next : Nat → E → Option P} {s s' : P → I → E}

theorem follow_append (depth : Nat) (page : P) (path rest : List I) :
    follow next s depth page (path ++ rest) =
      (follow next s depth page path).bind
        fun child => follow next s (depth + path.length) child rest := by
  induction path generalizing depth page with
  | nil => rfl
  | cons i path ih =>
      simp only [List.cons_append, follow, List.length_cons]
      cases next depth (s page i) with
      | none => rfl
      | some child =>
          simp only [Option.bind_some, ih]
          rw [show depth + (path.length + 1) = depth + 1 + path.length by omega]

theorem follow_snoc (depth : Nat) (page : P) (path : List I) (i : I) :
    follow next s depth page (path ++ [i]) =
      (follow next s depth page path).bind
        fun child => next (depth + path.length) (s child i) := by
  rw [follow_append]
  cases follow next s depth page path with
  | none => rfl
  | some child => simp [follow]

theorem follow_front {depth : Nat} {page target : P} (path rest : List I)
    (reached : follow next s depth page (path ++ rest) = some target) :
    ∃ child, follow next s depth page path = some child := by
  rw [follow_append] at reached
  cases found : follow next s depth page path with
  | none => simp [found] at reached
  | some child => exact ⟨child, rfl⟩

theorem entries_append {depth : Nat} {page child : P} {path : List I} (rest : List I)
    (reached : follow next s depth page path = some child) :
    entries next s depth page (path ++ rest) =
      entries next s depth page path ++ entries next s (depth + path.length) child rest := by
  induction path generalizing depth page with
  | nil =>
      cases reached
      rfl
  | cons i path ih =>
      simp only [follow] at reached
      cases step : next depth (s page i) with
      | none => simp [step] at reached
      | some middle =>
          simp only [step, Option.bind_some] at reached
          simp only [List.cons_append, entries, step, ih reached, List.length_cons]
          rw [show depth + (path.length + 1) = depth + 1 + path.length by omega]

/-- A path is determined by the pointers read on it. -/
theorem follow_congr (depth : Nat) (page : P) (path : List I)
    (agree : ∀ before i after child, path = before ++ i :: after →
      follow next s depth page before = some child →
      next (depth + before.length) (s' child i) = next (depth + before.length) (s child i)) :
    follow next s' depth page path = follow next s depth page path := by
  induction path generalizing depth page with
  | nil => rfl
  | cons i path ih =>
      have head := agree [] i path page rfl rfl
      simp only [List.length_nil, Nat.add_zero] at head
      simp only [follow, head]
      cases step : next depth (s page i) with
      | none => rfl
      | some middle =>
          apply ih
          intro before j after child split reached
          have deeper := agree (i :: before) j after child (by rw [split]; rfl)
            (by simp only [follow, step, Option.bind_some, reached])
          simpa only [List.length_cons, Nat.add_assoc, Nat.add_comm 1] using deeper

theorem entries_congr (depth : Nat) (page : P) (path : List I)
    (agree : ∀ before i after child, path = before ++ i :: after →
      follow next s depth page before = some child → s' child i = s child i) :
    entries next s' depth page path = entries next s depth page path := by
  induction path generalizing depth page with
  | nil => rfl
  | cons i path ih =>
      have head := agree [] i path page rfl rfl
      simp only [entries, head]
      cases step : next depth (s page i) with
      | none => rfl
      | some middle =>
          congr 1
          apply ih
          intro before j after child split reached
          exact agree (i :: before) j after child (by rw [split]; rfl)
            (by simp only [follow, step, Option.bind_some, reached])

/-- One slot of one table changes, together with pages that are not tables.
The table `t` sits at `path` and nowhere else, so no other path reads the slot. -/
structure SlotUpdate (next : Nat → E → Option P) (s s' : P → I → E) (levels : Nat) (root : P)
    (path : List I) (t : P) (i : I) (outside : P → Prop) : Prop where
  deep : ∀ depth e, levels ≤ depth → next depth e = none
  short : path.length < levels
  located : follow next s 0 root path = some t
  alone : ∀ other : List I, other.length < levels → follow next s 0 root other = some t →
    other = path
  frame : ∀ page j, ¬ outside page → ¬ (page = t ∧ j = i) → s' page j = s page j
  spared : ∀ (other : List I) page, other.length < levels →
    follow next s 0 root other = some page → ¬ outside page

namespace SlotUpdate

variable {levels : Nat} {root t : P} {path : List I} {i : I} {outside : P → Prop}

theorem slot_unread (update : SlotUpdate next s s' levels root path t i outside)
    {before after : List I} {j : I} {child : P} (short : before.length < levels)
    (off : ¬ path ++ [i] <+: before ++ j :: after)
    (reached : follow next s 0 root before = some child) : s' child j = s child j := by
  apply update.frame child j (update.spared before child short reached)
  rintro ⟨rfl, rfl⟩
  have same := update.alone before short reached
  subst same
  exact off ⟨after, by simp⟩

theorem follow_off (update : SlotUpdate next s s' levels root path t i outside) {other : List I}
    (off : ¬ path ++ [i] <+: other) :
    follow next s' 0 root other = follow next s 0 root other := by
  apply follow_congr
  intro before j after child split reached
  by_cases short : before.length < levels
  · rw [update.slot_unread short (split ▸ off) reached]
  · rw [update.deep _ _ (by omega), update.deep _ _ (by omega)]

theorem entries_off (update : SlotUpdate next s s' levels root path t i outside) {other : List I}
    (bounded : other.length ≤ levels) (off : ¬ path ++ [i] <+: other) :
    entries next s' 0 root other = entries next s 0 root other := by
  apply entries_congr
  intro before j after child split reached
  have short : before.length < levels := by
    have size := congrArg List.length split
    simp only [List.length_append, List.length_cons] at size
    omega
  exact update.slot_unread short (split ▸ off) reached

theorem snoc_not_within (path : List I) (i : I) : ¬ path ++ [i] <+: path := by
  intro inside
  have size := inside.length_le
  simp at size

theorem follow_table (update : SlotUpdate next s s' levels root path t i outside) :
    follow next s' 0 root path = some t :=
  (update.follow_off (snoc_not_within path i)).trans update.located

theorem follow_through (update : SlotUpdate next s s' levels root path t i outside)
    (rest : List I) :
    follow next s' 0 root (path ++ i :: rest) =
      (next path.length (s' t i)).bind
        fun child => follow next s' (path.length + 1) child rest := by
  rw [follow_append, update.follow_table, Option.bind_some, Nat.zero_add]
  rfl

theorem entries_through (update : SlotUpdate next s s' levels root path t i outside)
    (rest : List I) :
    entries next s' 0 root (path ++ i :: rest) =
      entries next s 0 root path ++ s' t i ::
        match next path.length (s' t i) with
        | none => []
        | some child => entries next s' (path.length + 1) child rest := by
  rw [entries_append (i :: rest) update.follow_table, Nat.zero_add,
    update.entries_off (Nat.le_of_lt update.short) (snoc_not_within path i)]
  rfl

/-- Rewriting an entry without moving its pointer moves no page. -/
theorem follow_retag (update : SlotUpdate next s s' levels root path t i outside)
    (same : next path.length (s' t i) = next path.length (s t i)) (other : List I) :
    follow next s' 0 root other = follow next s 0 root other := by
  apply follow_congr
  intro before j after child split reached
  by_cases short : before.length < levels
  · by_cases here : child = t ∧ j = i
    · obtain ⟨rfl, rfl⟩ := here
      rw [update.alone before short reached, Nat.zero_add, same]
    · rw [update.frame child j (update.spared before child short reached) here]
  · rw [update.deep _ _ (by omega), update.deep _ _ (by omega)]

theorem follow_cut (update : SlotUpdate next s s' levels root path t i outside)
    (cleared : next path.length (s' t i) = none) {other : List I} {page : P}
    (reached : follow next s' 0 root other = some page) :
    follow next s 0 root other = some page ∧ ¬ path ++ [i] <+: other := by
  by_cases inside : path ++ [i] <+: other
  · obtain ⟨rest, rfl⟩ := inside
    rw [List.append_assoc, List.singleton_append, update.follow_through, cleared] at reached
    cases reached
  · exact ⟨(update.follow_off inside).symm.trans reached, inside⟩

end SlotUpdate

theorem entries_slot {root t : P} {path : List I} {i : I} (rest : List I)
    (located : follow next s 0 root path = some t) :
    entries next s 0 root (path ++ i :: rest) =
      entries next s 0 root path ++ s t i ::
        match next path.length (s t i) with
        | none => []
        | some child => entries next s (path.length + 1) child rest := by
  rw [entries_append (i :: rest) located, Nat.zero_add]
  rfl

theorem follow_slot {root t : P} {path : List I} {i : I} (rest : List I)
    (located : follow next s 0 root path = some t) :
    follow next s 0 root (path ++ i :: rest) =
      (next path.length (s t i)).bind
        fun child => follow next s (path.length + 1) child rest := by
  rw [follow_append, located, Option.bind_some, Nat.zero_add]
  rfl

section Link

variable {levels : Nat} {root t q : P} {path : List I} {i : I} {outside : P → Prop}

structure Link (next : Nat → E → Option P) (s s' : P → I → E) (levels : Nat) (root : P)
    (path : List I) (t : P) (i : I) (q : P) (outside : P → Prop) : Prop where
  update : SlotUpdate next s s' levels root path t i outside
  empty : next path.length (s t i) = none
  linked : next path.length (s' t i) = some q
  blank : ∀ depth j, next depth (s' q j) = none

theorem Link.follow_here (link : Link next s s' levels root path t i q outside) :
    follow next s' 0 root (path ++ [i]) = some q := by
  rw [link.update.follow_through, link.linked]
  rfl

theorem Link.follow_other (link : Link next s s' levels root path t i q outside) {other : List I}
    (different : other ≠ path ++ [i]) :
    follow next s' 0 root other = follow next s 0 root other := by
  by_cases inside : path ++ [i] <+: other
  · obtain ⟨rest, rfl⟩ := inside
    cases rest with
    | nil => simp at different
    | cons j rest =>
        rw [List.append_assoc, List.singleton_append, link.update.follow_through, link.linked,
          follow_slot _ link.update.located, link.empty]
        simp [follow, link.blank]
  · exact link.update.follow_off inside

theorem Link.kept (link : Link next s s' levels root path t i q outside) {other : List I} {page : P}
    (reached : follow next s 0 root other = some page) :
    follow next s' 0 root other = some page := by
  by_cases same : other = path ++ [i]
  · subst same
    rw [follow_slot _ link.update.located, link.empty] at reached
    cases reached
  · rw [link.follow_other same, reached]

/-- A page that no path of a class reaches can be linked without sharing in that class. -/
theorem Link.unshared (link : Link next s s' levels root path t i q outside)
    (owned : List I → Prop)
    (fresh : ∀ other, owned other → follow next s 0 root other ≠ some q)
    (unshared : ∀ left right page, owned left → owned right →
      follow next s 0 root left = some page → follow next s 0 root right = some page →
        left = right) :
    ∀ left right page, owned left → owned right →
      follow next s' 0 root left = some page → follow next s' 0 root right = some page →
      left = right := by
  intro left right page ownedLeft ownedRight reachedLeft reachedRight
  by_cases hereLeft : left = path ++ [i]
  · by_cases hereRight : right = path ++ [i]
    · exact hereLeft.trans hereRight.symm
    · rw [hereLeft, link.follow_here, Option.some.injEq] at reachedLeft
      rw [link.follow_other hereRight, ← reachedLeft] at reachedRight
      exact absurd reachedRight (fresh right ownedRight)
  · rw [link.follow_other hereLeft] at reachedLeft
    by_cases hereRight : right = path ++ [i]
    · rw [hereRight, link.follow_here, Option.some.injEq] at reachedRight
      rw [← reachedRight] at reachedLeft
      exact absurd reachedLeft (fresh left ownedLeft)
    · rw [link.follow_other hereRight] at reachedRight
      exact unshared left right page ownedLeft ownedRight reachedLeft reachedRight

end Link

end RadixTree
