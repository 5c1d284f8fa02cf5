import Mathlib
import PaintKernel.FreeListInit
import PaintKernel.Library.Run

set_option autoImplicit false

/-! Ownership of page frames between the allocator and its users. -/

namespace PaintKernel

open ByteMemory LinkedList Transition

structure UsableEntry (entry : MemmapEntry) : Prop where
  base : entry.base % 4096 = 0
  length : entry.length % 4096 = 0
  short : entry.length < 2 ^ 31
  notNull : 0 < entry.base
  fits : entry.base + entry.length ≤ 2 ^ 64

def Apart (e f : MemmapEntry) : Prop :=
  e.memType = 1 → f.memType = 1 → e.base + e.length ≤ f.base ∨ f.base + f.length ≤ e.base

structure MemoryMap (entries : List MemmapEntry) : Prop where
  usable : ∀ entry ∈ entries, entry.memType = 1 → UsableEntry entry
  apart : entries.Pairwise Apart

/-- Short entries on page boundaries are collected as they are. -/
theorem MemoryMap.disjoint {entries : List MemmapEntry} (map : MemoryMap entries) :
    DisjointMap entries where
  fits := fun e member kind => (map.usable e member kind).fits
  notNull := by
    intro e member kind n inside
    have usable := map.usable e member kind
    have aligned := usable.base
    have positive := usable.notNull
    unfold MemmapEntry.Contains at inside
    omega
  apart := map.apart.imp fun apart usable usable' n inside => by
    have ranges := apart usable usable'
    unfold MemmapEntry.Contains at inside
    omega

theorem MemoryMap.collectable {entries : List MemmapEntry} (map : MemoryMap entries) :
    ∀ e ∈ entries, e.memType = 1 → e.Collectable := by
  intro e member kind
  have usable := map.usable e member kind
  have aligned := usable.base
  have short := usable.short
  unfold MemmapEntry.Collectable MemmapEntry.padding
  omega

inductive OwnerAction where
  | alloc (page : Nat)
  | free (page : Nat)
  | write (target : Nat) (byte : UInt8)

inductive OwnerStep : Kernel × Set Nat → OwnerAction → Kernel × Set Nat → Prop where
  | alloc {k : Kernel} {owned : Set Nat} (nonempty : k.freelist ≠ 0) :
      OwnerStep (k, owned) (.alloc k.pmemAlloc.2) (k.pmemAlloc.1, insert k.pmemAlloc.2 owned)
  | free {k : Kernel} {owned : Set Nat} {page : Nat} (mine : page ∈ owned) :
      OwnerStep (k, owned) (.free page) (k.pmemFree page, owned \ {page})
  | write {k : Kernel} {owned : Set Nat} {page target : Nat} {byte : UInt8} (mine : page ∈ owned)
      (inside : page ≤ target ∧ target < page + 4096) :
      OwnerStep (k, owned) (.write target byte) ({ k with mem := store k.mem target byte }, owned)

/-- The free list ends, repeats nothing and holds usable pages that nobody owns. -/
def Exclusive (entries : List MemmapEntry) (k : Kernel) (owned : Set Nat) : Prop :=
  ∃ free, k.FreeList free ∧ free.Nodup ∧ ∀ page ∈ free, UsablePage entries page ∧ page ∉ owned

section Runs

variable {entries : List MemmapEntry} {virtual : Nat}

structure Owned (entries : List MemmapEntry) (virtual : Nat) (s : Kernel × Set Nat) : Prop where
  exclusive : Exclusive entries s.1 s.2
  pages : ∀ page ∈ s.2, UsablePage entries page
  offset : s.1.virtualOffset = virtual

theorem usable_bounds (map : MemoryMap entries) {page : Nat} (usable : Usable entries page) :
    0 < page ∧ page + 4096 ≤ 2 ^ 64 := by
  rcases usable with ⟨entry, member, kind, lower, upper⟩
  have positive := (map.usable entry member kind).notNull
  have fits := (map.usable entry member kind).fits
  omega

/-- The allocator hands out the head of the list. -/
theorem alloc_head (map : MemoryMap entries)
    (direct : ∀ page, UsablePage entries page → (page + virtual) % 2 ^ 64 ≠ 0)
    {k : Kernel} {owned : Set Nat} (before : Owned entries virtual (k, owned))
    (nonempty : k.freelist ≠ 0) :
    ∃ page rest, k.FreeList (page :: rest) ∧ (page :: rest).Nodup ∧
      (∀ other ∈ page :: rest, UsablePage entries other ∧ other ∉ owned) ∧
      k.pmemAlloc =
        ({ k with mem := writeLE k.mem page 8 0, freelist := nextNode k.mem page }, page) := by
  rcases before.exclusive with ⟨free, list, distinct, pages⟩
  cases free with
  | nil => exact absurd list nonempty
  | cons page rest =>
      have usable := (pages page List.mem_cons_self).1
      have bounds := usable_bounds map usable.2
      refine ⟨page, rest, list, distinct, pages, k.pmemAlloc_cons page rest list (by omega) ?_⟩
      have offset : k.virtualOffset = virtual := before.offset
      rw [Kernel.ptov, offset]
      exact direct page usable

theorem ownerStep_owned (map : MemoryMap entries)
    (direct : ∀ page, UsablePage entries page → (page + virtual) % 2 ^ 64 ≠ 0)
    (s : Kernel × Set Nat) (action : OwnerAction) (s' : Kernel × Set Nat)
    (before : Owned entries virtual s) (step : OwnerStep s action s') :
    Owned entries virtual s' := by
  cases step with
  | @alloc k owned nonempty =>
      rcases alloc_head map direct before nonempty with ⟨page, rest, list, distinct, pages, call⟩
      rw [call]
      have notLater := (List.nodup_cons.mp distinct).1
      have usable := (pages page List.mem_cons_self).1
      refine ⟨⟨rest, ?_, (List.nodup_cons.mp distinct).2, ?_⟩, ?_, before.offset⟩
      · refine chain_congr ?_ list.2.2
        intro other member
        have different : other ≠ page := fun same => notLater (same ▸ member)
        have aligned := usable.1
        have otherAligned := (pages other (List.mem_cons_of_mem _ member)).1.1
        exact Kernel.nextNode_agree (writeLE_agreeOutside _ _ _ _) (by omega)
      · intro other member
        rcases pages other (List.mem_cons_of_mem _ member) with ⟨good, foreign⟩
        refine ⟨good, ?_⟩
        rintro (rfl | mine)
        · exact notLater member
        · exact foreign mine
      · rintro other (rfl | mine)
        · exact usable
        · exact before.pages other mine
  | @free k owned page mine =>
      rcases before.exclusive with ⟨free, list, distinct, pages⟩
      rw [Kernel.pmemFree_aligned k page (before.pages page mine).1]
      refine ⟨⟨free, list, distinct, fun other member => ?_⟩, ?_, before.offset⟩
      · exact ⟨(pages other member).1, fun kept => (pages other member).2 kept.1⟩
      · exact fun other kept => before.pages other kept.1
  | @write k owned page target byte mine inside =>
      rcases before.exclusive with ⟨free, list, distinct, pages⟩
      refine ⟨⟨free, ?_, distinct, pages⟩, before.pages, before.offset⟩
      refine Kernel.freeList_congr (k := k) list rfl ?_
      intro other member
      have different : other ≠ page := fun same => (pages other member).2 (same ▸ mine)
      have aligned := (before.pages page mine).1
      have otherAligned := (pages other member).1.1
      apply readLE_congr
      intro n lower upper
      exact store_elsewhere _ _ _ _ (by omega)

/-- Nobody gets a frame that somebody owns, whatever the owners write into their frames. -/
theorem frames_have_one_owner {k0 : Kernel} (bound : virtual < 2 ^ 64) (map : MemoryMap entries)
    (direct : ∀ page, UsablePage entries page → (page + virtual) % 2 ^ 64 ≠ 0)
    (empty : k0.freelist = 0) :
    ∃ k, k0.freelistInit virtual entries bound = some k ∧
      ∀ actions k' owned, Run OwnerStep (k, ∅) actions (k', owned) →
        Exclusive entries k' owned ∧
        ∀ page s, OwnerStep (k', owned) (.alloc page) s →
          page ≠ 0 ∧ UsablePage entries page ∧ page ∉ owned := by
  rcases freelistInit_collected bound map.disjoint map.collectable empty with
    ⟨k, pages, result, collected, offset⟩
  refine ⟨k, result, fun actions k' owned run => ?_⟩
  have initial : Owned entries virtual (k, ∅) :=
    ⟨⟨pages, collected.list, collected.nodup, fun page member =>
      ⟨(collected.exactly page).mp member, fun mine => mine⟩⟩, fun page mine =>
        absurd mine (fun h => h), offset⟩
  have final := invariant (ownerStep_owned map direct) run initial
  refine ⟨final.exclusive, ?_⟩
  intro page s step
  cases step with
  | alloc nonempty =>
      rcases alloc_head map direct final nonempty with ⟨head, rest, _, _, all, call⟩
      rw [call]
      have usable := all head List.mem_cons_self
      have bounds := usable_bounds map usable.1.2
      exact ⟨by simp only; omega, usable⟩

end Runs

def bootEntries : List MemmapEntry :=
  [⟨0x10000, 0x3000, 1⟩, ⟨0xF0000, 0x10000, 2⟩, ⟨0x100000, 0x200000, 1⟩]

theorem boot_frames_have_one_owner :
    ∃ k, bootKernel.freelistInit 0xFFFF800000000000 bootEntries (by decide) = some k ∧
      ∀ actions k' owned, Run OwnerStep (k, ∅) actions (k', owned) →
        Exclusive bootEntries k' owned ∧
        ∀ page s, OwnerStep (k', owned) (.alloc page) s →
          page ≠ 0 ∧ UsablePage bootEntries page ∧ page ∉ owned := by
  refine frames_have_one_owner (by decide) ⟨?_, ?_⟩ ?_ rfl
  · intro entry member kind
    simp only [bootEntries, List.mem_cons, List.not_mem_nil, or_false] at member
    rcases member with rfl | rfl | rfl
    · constructor <;> decide
    · cases kind
    · constructor <;> decide
  · simp [bootEntries, Apart]
  · rintro page ⟨aligned, entry, member, kind, lower, upper⟩
    simp only [bootEntries, List.mem_cons, List.not_mem_nil, or_false] at member
    rcases member with rfl | rfl | rfl <;> simp only at kind lower upper <;> omega

end PaintKernel
