import Mathlib

set_option autoImplicit false

/-! Null-terminated chains of a successor function. -/

namespace LinkedList

variable {α : Type}

/-- Following `next` from the head visits exactly the listed nodes and then `null`. -/
def Chain (null : α) (next : α → α) : α → List α → Prop
  | head, [] => head = null
  | head, node :: rest => head = node ∧ node ≠ null ∧ Chain null next (next node) rest

instance decidableChain [DecidableEq α] (null : α) (next : α → α) :
    (head : α) → (nodes : List α) → Decidable (Chain null next head nodes)
  | head, [] => inferInstanceAs (Decidable (head = null))
  | head, node :: rest =>
      have := decidableChain null next (next node) rest
      inferInstanceAs (Decidable (head = node ∧ node ≠ null ∧ Chain null next (next node) rest))

variable {null : α} {next next' : α → α}

theorem chain_congr {head : α} {nodes : List α}
    (agree : ∀ node ∈ nodes, next' node = next node) (chain : Chain null next head nodes) :
    Chain null next' head nodes := by
  induction nodes generalizing head with
  | nil => exact chain
  | cons node rest ih =>
      refine ⟨chain.1, chain.2.1, ?_⟩
      rw [agree node List.mem_cons_self]
      exact ih (fun other member => agree other (List.mem_cons_of_mem _ member)) chain.2.2

theorem chain_unique {head : α} {left right : List α} (first : Chain null next head left)
    (second : Chain null next head right) : left = right := by
  induction left generalizing head right with
  | nil =>
      cases right with
      | nil => rfl
      | cons node rest => exact absurd (second.1.symm.trans first) second.2.1
  | cons node rest ih =>
      cases right with
      | nil => exact absurd (first.1.symm.trans second) first.2.1
      | cons other tail =>
          have same : node = other := first.1.symm.trans second.1
          subst same
          rw [ih first.2.2 second.2.2]

theorem chain_suffix {head : α} (front : List α) {back : List α} (node : α)
    (chain : Chain null next head (front ++ node :: back)) :
    Chain null next node (node :: back) := by
  induction front generalizing head with
  | nil => exact ⟨rfl, chain.2⟩
  | cons other front ih => exact ih chain.2.2

theorem chain_nodup {head : α} {nodes : List α} (chain : Chain null next head nodes) :
    nodes.Nodup := by
  induction nodes generalizing head with
  | nil => exact List.nodup_nil
  | cons node rest ih =>
      refine List.nodup_cons.mpr ⟨?_, ih chain.2.2⟩
      intro again
      obtain ⟨front, back, split⟩ := List.append_of_mem again
      have later : Chain null next node (node :: back) :=
        chain_suffix (node :: front) node (by rw [List.cons_append, ← split]; exact chain)
      have here : Chain null next node (node :: rest) := ⟨rfl, chain.2⟩
      have same := chain_unique here later
      have size := congrArg List.length same
      rw [split] at size
      simp at size
      omega

theorem chain_ne_null {head : α} {nodes : List α} (chain : Chain null next head nodes) :
    ∀ node ∈ nodes, node ≠ null := by
  induction nodes generalizing head with
  | nil => intro node member; cases member
  | cons first rest ih =>
      intro node member
      rcases List.mem_cons.mp member with rfl | later
      · exact chain.2.1
      · exact ih chain.2.2 node later

theorem chain_nil_iff {head : α} {nodes : List α} (chain : Chain null next head nodes) :
    head = null ↔ nodes = [] := by
  cases nodes with
  | nil => exact ⟨fun _ => rfl, fun _ => chain⟩
  | cons node rest =>
      refine ⟨fun ended => absurd (chain.1.symm.trans ended) chain.2.1, ?_⟩
      intro empty
      cases empty

end LinkedList
