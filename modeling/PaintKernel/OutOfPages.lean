import Mathlib
import PaintKernel.Exhaustion
import PaintKernel.PageFree

set_option autoImplicit false

/-! What `pmem_alloc` reports when the free list is empty. -/

namespace PaintKernel

open ByteMemory LinkedList Transition

inductive EmptyAction where
  | alloc
  | write (target : Nat) (byte : UInt8)

inductive EmptyStep : Kernel → EmptyAction → Kernel → Prop where
  | alloc {k : Kernel} : EmptyStep k .alloc k.pmemAlloc.1
  | write {k : Kernel} {target : Nat} {byte : UInt8} :
      EmptyStep k (.write target byte) { k with mem := store k.mem target byte }

/-- The call returns 0, changes no memory and leaves the list empty. -/
structure ReportsEmpty (k : Kernel) : Prop where
  result : k.pmemAlloc.2 = 0
  memory : k.pmemAlloc.1.mem = k.mem
  list : k.pmemAlloc.1.FreeList []

/-- The first two words of physical page 0, a free-list node in the eyes of `pmem_alloc`, are zero.
-/
structure BlankNode (m : Mem) : Prop where
  serial : readLE m 0 8 = 0
  next : nextNode m 0 = 0

def Reports (k : Kernel) : EmptyAction → Kernel → Prop
  | .alloc, _ => ReportsEmpty k
  | .write _ _, _ => True

def FindsBlank (k : Kernel) : EmptyAction → Kernel → Prop
  | .alloc, _ => BlankNode k.mem
  | .write _ _, _ => True

section Empty

variable {k : Kernel}

theorem pmemAlloc_empty (list : k.FreeList []) (offset : k.virtualOffset ≠ 0) :
    k.pmemAlloc = ({ k with mem := writeLE k.mem 0 8 0, freelist := nextNode k.mem 0 }, 0) := by
  rw [pmemAlloc_nil list, Kernel.exhausted, if_neg offset]

theorem reportsEmpty_iff (list : k.FreeList []) (offset : k.virtualOffset ≠ 0) :
    ReportsEmpty k ↔ BlankNode k.mem := by
  have call := pmemAlloc_empty list offset
  constructor
  · intro reports
    have memory : k.pmemAlloc.1.mem = k.mem := reports.memory
    have ended : k.pmemAlloc.1.freelist = 0 := reports.list
    rw [call] at memory ended
    refine ⟨?_, ended⟩
    calc readLE k.mem 0 8
        = readLE (writeLE k.mem 0 8 0) 0 8 := congrArg (readLE · 0 8) memory.symm
      _ = 0 := readLE_writeLE _ _ _ _ (by decide)
  · intro blank
    have same := writeLE_readLE k.mem 0 8
    rw [blank.serial] at same
    constructor
    · rw [call]
    · rw [call]
      exact same
    · rw [call]
      exact blank.next

/-- The list stays empty along the steps that find page 0 blank. -/
theorem emptyStep_empty (k : Kernel) (a : EmptyAction) (k' : Kernel)
    (before : k.FreeList [] ∧ k.virtualOffset ≠ 0) (step : EmptyStep k a k')
    (blank : FindsBlank k a k') :
    k'.FreeList [] ∧ k'.virtualOffset ≠ 0 := by
  cases step with
  | alloc =>
      refine ⟨((reportsEmpty_iff before.1 before.2).mpr blank).list, ?_⟩
      rw [pmemAlloc_empty before.1 before.2]
      exact before.2
  | write =>
      exact ⟨Kernel.freeList_congr (k := k) before.1 rfl fun _ member =>
        absurd member List.not_mem_nil, before.2⟩

theorem reports_iff (k : Kernel) (a : EmptyAction) (k' : Kernel)
    (before : k.FreeList [] ∧ k.virtualOffset ≠ 0) (step : EmptyStep k a k') :
    Reports k a k' ↔ FindsBlank k a k' := by
  cases step with
  | alloc => exact reportsEmpty_iff before.1 before.2
  | write => exact Iff.rfl

end Empty

/-- While the list is empty, every `pmem_alloc` of a run reports it without effect exactly when the
first two words of physical page 0 are zero at each of them. -/
theorem exhaustion_reported_iff {k : Kernel} (list : k.FreeList []) (offset : k.virtualOffset ≠ 0)
    {actions : List EmptyAction} {s : Kernel} :
    Run (fun k a k' => EmptyStep k a k' ∧ Reports k a k') k actions s ↔
      Run (fun k a k' => EmptyStep k a k' ∧ FindsBlank k a k') k actions s :=
  run_congr (fun k : Kernel => k.FreeList [] ∧ k.virtualOffset ≠ 0) reports_iff emptyStep_empty
    ⟨list, offset⟩

def usedPageZero : Kernel :=
  { bareKernel with mem := writeLE (fun _ => 0) 8 8 0x2000, freelist := 0 }

def blankPageZero : Kernel := { usedPageZero with mem := fun _ => 0 }

theorem blank_page_reported :
    Run (fun k a k' => EmptyStep k a k' ∧ Reports k a k') blankPageZero [.write 0x3000 1, .alloc]
      { blankPageZero with mem := store blankPageZero.mem 0x3000 1 }.pmemAlloc.1 := by
  have list : blankPageZero.FreeList [] := rfl
  have offset : blankPageZero.virtualOffset ≠ 0 := by decide
  have blank : BlankNode (store blankPageZero.mem 0x3000 1) := by
    constructor <;> decide
  exact (exhaustion_reported_iff list offset).mpr
    (.cons ⟨.write, trivial⟩ (.cons ⟨.alloc, blank⟩ (.nil _)))

theorem used_page_handed_out :
    usedPageZero.FreeList [] ∧ usedPageZero.virtualOffset ≠ 0 ∧ usedPageZero.pmemAlloc.2 = 0 ∧
      ¬ ReportsEmpty usedPageZero ∧ usedPageZero.pmemAlloc.1.pmemAlloc.2 = 0x2000 := by
  have list : usedPageZero.FreeList [] := rfl
  have offset : usedPageZero.virtualOffset ≠ 0 := by decide
  have call := pmemAlloc_empty list offset
  have next : nextNode usedPageZero.mem 0 = 0x2000 := readLE_writeLE _ _ _ _ (by decide)
  refine ⟨list, offset, by rw [call], ?_, ?_⟩
  · intro reports
    have blank := (reportsEmpty_iff list offset).mp reports
    rw [blank.next] at next
    cases next
  · have head : usedPageZero.pmemAlloc.1.freelist = 0x2000 := by
      rw [call]
      exact next
    have mapped : usedPageZero.pmemAlloc.1.ptov 0x2000 ≠ 0 := by
      rw [call]
      decide
    rw [← head] at mapped
    rw [pmemAlloc_head (by rw [head]; decide) mapped, head]

end PaintKernel
