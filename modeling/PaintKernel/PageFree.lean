import Mathlib
import PaintKernel.FrameOwnership

set_option autoImplicit false

/-! What `pmem_free` gives back to the allocator. -/

namespace PaintKernel

open ByteMemory LinkedList Transition

inductive AllocatorStep : Kernel × Set Nat → OwnerAction → Kernel × Set Nat → Prop where
  | alloc {k : Kernel} {owned : Set Nat} (found : k.pmemAlloc.2 ≠ 0) :
      AllocatorStep (k, owned) (.alloc k.pmemAlloc.2) (k.pmemAlloc.1, insert k.pmemAlloc.2 owned)
  | exhausted {k : Kernel} {owned : Set Nat} (none : k.pmemAlloc.2 = 0) :
      AllocatorStep (k, owned) (.alloc 0) (k.pmemAlloc.1, owned)
  | free {k : Kernel} {owned : Set Nat} {p : Nat} (address : p < 2 ^ 64) :
      AllocatorStep (k, owned) (.free p) (k.pmemFree p, owned \ {p})
  | write {k : Kernel} {owned : Set Nat} {page target : Nat} {byte : UInt8} (mine : page ∈ owned)
      (inside : page ≤ target ∧ target < page + 4096) :
      AllocatorStep (k, owned) (.write target byte)
        ({ k with mem := store k.mem target byte }, owned)

/-- An owned page goes to the list and is the next to be handed out, a page on the list stays there
as it is, and an address inside a page changes nothing. -/
structure FreeSpec (k : Kernel) (owned : Set Nat) (p : Nat) : Prop where
  returned : p % 4096 = 0 → p ∈ owned →
    (∃ pages, (k.pmemFree p).FreeList pages ∧ pages.count p = 1) ∧ (k.pmemFree p).pmemAlloc.2 = p
  listed : p % 4096 = 0 → ∀ pages, k.FreeList pages → p ∈ pages → (k.pmemFree p).FreeList pages
  rejected : p % 4096 ≠ 0 → (k.pmemFree p).freelist = k.freelist ∧ (k.pmemFree p).mem = k.mem

/-- An owned page heads the list already, and an address inside a page has the mark of a free
page. -/
structure Settled (k : Kernel) (owned : Set Nat) (p : Nat) : Prop where
  heads : p % 4096 = 0 → p ∈ owned → k.ptov p ≠ 0 ∧ ∃ rest, k.FreeList (p :: rest)
  marked : p % 4096 ≠ 0 → k.load64 (k.ptov p) = serialNumber

def Frees (s : Kernel × Set Nat) : OwnerAction → Kernel × Set Nat → Prop
  | .free p, _ => FreeSpec s.1 s.2 p
  | _, _ => True

def FreesSettled (s : Kernel × Set Nat) : OwnerAction → Kernel × Set Nat → Prop
  | .free p, _ => Settled s.1 s.2 p
  | _, _ => True

section Free

variable {k : Kernel} {owned : Set Nat} {p : Nat}

theorem pmemAlloc_found (bounded : k.freelist < 2 ^ 64) (mapped : k.ptov k.freelist ≠ 0) :
    k.pmemAlloc = ({ k with
      mem := writeLE k.mem k.freelist 8 0
      freelist := k.load64 ((k.ptov k.freelist + 8) % 2 ^ 64) }, k.freelist) := by
  have here := k.deref_ptov k.freelist bounded
  simp only [Kernel.pmemAlloc, mapped, ne_eq, not_false_eq_true, if_true, Kernel.store64]
  simp only [Kernel.deref] at here ⊢
  rw [here]

theorem pmemAlloc_head (bounded : k.freelist < 2 ^ 64) (mapped : k.ptov k.freelist ≠ 0) :
    k.pmemAlloc.2 = k.freelist := by
  rw [pmemAlloc_found bounded mapped]

theorem pmemAlloc_null (null : k.ptov k.freelist = 0) : k.pmemAlloc = (k, 0) := by
  simp [Kernel.pmemAlloc, null]

/-- On an address inside a page that lacks the mark, `pmem_free` puts the mark there. -/
theorem pmemFree_marks (address : p < 2 ^ 64) (unaligned : p % 4096 ≠ 0)
    (unmarked : k.load64 (k.ptov p) ≠ serialNumber) :
    readLE (k.pmemFree p).mem p 8 = serialNumber := by
  have here := k.deref_ptov p address
  have offset := k.offset_lt
  have field : k.deref ((k.ptov p + 8) % 2 ^ 64) = (p + 8) % 2 ^ 64 := by
    unfold Kernel.deref Kernel.ptov
    omega
  have stored : (k.pmemFree p).mem =
      writeLE (writeLE k.mem (k.deref (k.ptov p)) 8 serialNumber)
        (k.deref ((k.ptov p + 8) % 2 ^ 64)) 8
        k.freelist := by
    simp only [Kernel.pmemFree, unaligned, if_false, unmarked, ne_eq, not_false_eq_true, if_true]
    rfl
  rw [stored, here, field, readLE_agree _ _ _ 8 p 8 (writeLE_agreeOutside _ _ _ _) (by omega)]
  exact readLE_writeLE _ _ _ _ (by decide)

theorem pmemFree_marked (marked : k.load64 (k.ptov p) = serialNumber) : k.pmemFree p = k := by
  unfold Kernel.pmemFree
  split
  · rfl
  · exact if_neg (not_not.mpr marked)

theorem settled_of_freeSpec (bounded : k.freelist < 2 ^ 64) (address : p < 2 ^ 64)
    (spec : FreeSpec k owned p) : Settled k owned p := by
  constructor
  · intro aligned mine
    have returned := spec.returned aligned mine
    rw [Kernel.pmemFree_aligned k p aligned] at returned
    rcases returned with ⟨⟨pages, list, once⟩, next⟩
    have member : p ∈ pages := List.count_pos_iff.mp (once ▸ Nat.one_pos)
    have mapped : k.ptov k.freelist ≠ 0 := by
      intro null
      rw [pmemAlloc_null null] at next
      exact chain_ne_null list p member next.symm
    rw [pmemAlloc_head bounded mapped] at next
    rw [next] at mapped
    cases pages with
    | nil => cases member
    | cons head rest =>
        have first : head = p := list.1.symm.trans next
        exact ⟨mapped, rest, first ▸ list⟩
  · intro unaligned
    by_contra unmarked
    have kept := (spec.rejected unaligned).2
    have here := k.deref_ptov p address
    have mark := pmemFree_marks address unaligned unmarked
    rw [kept] at mark
    rw [Kernel.load64, here] at unmarked
    exact unmarked mark

theorem freeSpec_of_settled (bounded : k.freelist < 2 ^ 64) (settled : Settled k owned p) :
    FreeSpec k owned p := by
  constructor
  · intro aligned mine
    rw [Kernel.pmemFree_aligned k p aligned]
    rcases settled.heads aligned mine with ⟨mapped, rest, list⟩
    have head : k.freelist = p := list.1
    refine ⟨⟨p :: rest, list, List.count_eq_one_of_mem (chain_nodup list) List.mem_cons_self⟩, ?_⟩
    rw [← head] at mapped
    rw [pmemAlloc_head bounded mapped, head]
  · intro aligned pages list _
    rwa [Kernel.pmemFree_aligned k p aligned]
  · intro unaligned
    rw [pmemFree_marked (settled.marked unaligned)]
    exact ⟨rfl, rfl⟩

theorem pmemAlloc_bounded (bounded : k.freelist < 2 ^ 64) : k.pmemAlloc.1.freelist < 2 ^ 64 := by
  by_cases null : k.ptov k.freelist = 0
  · rw [pmemAlloc_null null]
    exact bounded
  · rw [pmemAlloc_found bounded null]
    exact readLE_lt _ _ 8

theorem pmemFree_bounded (bounded : k.freelist < 2 ^ 64) (p : Nat) :
    (k.pmemFree p).freelist < 2 ^ 64 := by
  simp only [Kernel.pmemFree]
  split
  · exact bounded
  · split
    · exact Nat.mod_lt _ (by decide)
    · exact bounded

theorem allocatorStep_bounded (s : Kernel × Set Nat) (a : OwnerAction) (s' : Kernel × Set Nat)
    (bounded : s.1.freelist < 2 ^ 64) (step : AllocatorStep s a s') : s'.1.freelist < 2 ^ 64 := by
  cases step with
  | alloc => exact pmemAlloc_bounded bounded
  | exhausted => exact pmemAlloc_bounded bounded
  | free => exact pmemFree_bounded bounded _
  | write => exact bounded

theorem frees_iff (s : Kernel × Set Nat) (a : OwnerAction) (s' : Kernel × Set Nat)
    (bounded : s.1.freelist < 2 ^ 64) (step : AllocatorStep s a s') :
    Frees s a s' ↔ FreesSettled s a s' := by
  cases step with
  | alloc => exact Iff.rfl
  | exhausted => exact Iff.rfl
  | free address => exact ⟨settled_of_freeSpec bounded address, freeSpec_of_settled bounded⟩
  | write => exact Iff.rfl

end Free

/-- While the list and the owners hold different pages, no owned page comes back. -/
theorem owned_not_freed {entries : List MemmapEntry} {k : Kernel} {owned : Set Nat} {p : Nat}
    (bounded : k.freelist < 2 ^ 64) (exclusive : Exclusive entries k owned) (aligned : p % 4096 = 0)
    (address : p < 2 ^ 64) (mine : p ∈ owned) : ¬ FreeSpec k owned p := by
  intro spec
  rcases exclusive with ⟨free, list, _, pages⟩
  rcases (settled_of_freeSpec bounded address spec).heads aligned mine with ⟨_, rest, heading⟩
  have same : free = p :: rest := chain_unique list heading
  exact (pages p (same ▸ List.mem_cons_self)).2 mine

/-- In every run of the allocator and its users, the calls of `pmem_free` do what they should
exactly when there is nothing for them to do. -/
theorem pmem_free_iff {k : Kernel} (bounded : k.freelist < 2 ^ 64) {owned : Set Nat}
    {actions : List OwnerAction} {s : Kernel × Set Nat} :
    Run (fun s a s' => AllocatorStep s a s' ∧ Frees s a s') (k, owned) actions s ↔
      Run (fun s a s' => AllocatorStep s a s' ∧ FreesSettled s a s') (k, owned) actions s :=
  run_congr (fun s : Kernel × Set Nat => s.1.freelist < 2 ^ 64) frees_iff
    (fun s a s' bounded step _ => allocatorStep_bounded s a s' bounded step) bounded

def markedKernel : Kernel := { bootKernel with mem := writeLE bootKernel.mem 0x1800 8 serialNumber }

theorem pmem_free_marked :
    Run (fun s a s' => AllocatorStep s a s' ∧ Frees s a s') (markedKernel, ∅) [.free 0x1800]
      (markedKernel.pmemFree 0x1800, ∅ \ {0x1800}) := by
  have mark : markedKernel.load64 (markedKernel.ptov 0x1800) = serialNumber :=
    readLE_writeLE _ _ _ _ (by decide)
  have settled : Settled markedKernel ∅ 0x1800 :=
    ⟨fun aligned => absurd aligned (by decide), fun _ => mark⟩
  have bounded : markedKernel.freelist < 2 ^ 64 := by decide
  exact (pmem_free_iff bounded).mpr (.cons ⟨.free (by decide), settled⟩ (.nil _))

def onePage : List MemmapEntry := [⟨0x1000, 0x1000, 1⟩]

theorem onePage_map : MemoryMap onePage where
  usable := by
    intro entry member _
    rw [onePage, List.mem_singleton] at member
    subst member
    constructor <;> decide
  apart := List.pairwise_singleton _ _

theorem freed_page_is_lost :
    ∃ k, bootKernel.freelistInit 0xFFFF800000000000 onePage (by decide) = some k ∧
      ∃ s, Run AllocatorStep (k, ∅) [.alloc 0x1000] s ∧ 0x1000 ∈ s.2 ∧
        ¬ FreeSpec s.1 s.2 0x1000 := by
  have map := onePage_map
  have bound : 0xFFFF800000000000 < 2 ^ 64 := by decide
  rcases freelistInit_collected (k := bootKernel) bound map.disjoint map.collectable rfl with
    ⟨k, pages, result, collected, offset⟩
  have only : pages = [0x1000] := by
    have exactly : ∀ p, p ∈ pages ↔ p ∈ [0x1000] := by
      intro p
      rw [collected.exactly, List.mem_singleton]
      constructor
      · rintro ⟨aligned, entry, member, _, lower, upper⟩
        rw [List.mem_singleton.mp member] at lower upper
        simp only at lower upper
        omega
      · rintro rfl
        exact ⟨by decide, _, List.mem_singleton.mpr rfl, by decide⟩
    exact List.perm_singleton.mp
      ((List.perm_ext_iff_of_nodup collected.nodup (by simp)).mpr exactly)
  subst only
  have list := collected.list
  have mapped : k.ptov 0x1000 ≠ 0 := by
    rw [Kernel.ptov, offset]
    decide
  have call := k.pmemAlloc_cons 0x1000 [] list (by decide) mapped
  have taken : k.pmemAlloc.2 = 0x1000 := by rw [call]
  have left : k.pmemAlloc.1.freelist = 0 := by
    rw [call]
    exact list.2.2
  refine ⟨k, result, (k.pmemAlloc.1, insert k.pmemAlloc.2 ∅), .cons ?_ (.nil _), ?_, ?_⟩
  · have step : AllocatorStep (k, ∅) (.alloc k.pmemAlloc.2) (k.pmemAlloc.1,
        insert k.pmemAlloc.2 ∅) :=
      .alloc (by rw [taken]; decide)
    rwa [taken] at step ⊢
  · rw [taken]
    exact Set.mem_insert _ _
  · intro spec
    have returned := (spec.returned (by decide) (by rw [taken]; exact Set.mem_insert _ _)).1
    rw [Kernel.pmemFree_aligned _ _ (by decide)] at returned
    rcases returned with ⟨pages, list, once⟩
    have empty : pages = [] := (chain_nil_iff list).mp left
    rw [empty] at once
    cases once

end PaintKernel
