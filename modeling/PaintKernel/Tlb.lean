import Mathlib
import PaintKernel.Exhaustion
import PaintKernel.LowerHalf
import PaintKernel.PageConservation

set_option autoImplicit false

/-! Cached translations while the kernel changes the active address space. -/

namespace PaintKernel

open ByteMemory RadixTree LinkedList Transition

/-- Every cached translation of a lower-half page is the one the tables give. -/
def TlbCurrent (k : Kernel) : Prop :=
  ∀ address mapping, address < 2 ^ 47 → k.tlb (address / 4096) = some mapping →
    walk k.mem k.activeRoot address = some mapping

inductive TlbAction where
  | fill (address : Nat)
  | call (request : Call)
  | unmapLowerHalf

inductive TlbStep : Kernel → TlbAction → Kernel → Prop where
  | fill {k : Kernel} {address : Nat} {mapping : Mapping}
      (translated : walk k.mem k.activeRoot address = some mapping) :
      TlbStep k (.fill address)
        { k with tlb := Function.update k.tlb (address / 4096) (some mapping) }
  | call {k : Kernel} {request : Call} (low : request.address < 2 ^ 47) :
      TlbStep k (.call request) (request.run k k.activeRoot).1
  | unmapLowerHalf {k : Kernel} : TlbStep k .unmapLowerHalf (k.unmapLowerHalf k.activeRoot)

theorem mapStep {k k' : Kernel} {address : Nat} {user writable executable mapped : Bool}
    (low : address < 2 ^ 47)
    (call : k.vmMap k.activeRoot address user writable executable = (k', mapped)) :
    TlbStep k (.call (.map address user writable executable)) k' := by
  have step : TlbStep k (.call (.map address user writable executable))
      ((Call.map address user writable executable).run k k.activeRoot).1 := .call low
  rwa [Call.run, call] at step

/-- `vm_map` does not reach the end of the free list, or the end of the list is harmless. -/
def Affordable (k : Kernel) : TlbAction → Prop
  | .call (.map address ..) => ∃ free, k.FreeList free ∧
      Supplied TablePath k k.activeRoot free [address]
  | _ => True

section Cache

variable (k : Kernel)

theorem vmMap_tlb (root address : Nat) (user writable executable : Bool) {page : Nat}
    {mapping : Mapping}
    (cached : (k.vmMap root address user writable executable).1.tlb page = some mapping) :
    k.tlb page = some mapping := by
  rcases vmMap_memoryOnly k root address user writable executable with ⟨k', memory, call | call⟩
  · rw [call, memory.tlb] at cached
    exact cached
  · rw [call, Kernel.invalidateTlb] at cached
    dsimp only at cached
    split at cached
    · cases cached
    · rw [memory.tlb] at cached
      exact cached

theorem vmProtect_tlb {root address : Nat} {user writable executable : Bool} {k' : Kernel}
    (call : k.vmProtect root address user writable executable = (k', true)) :
    k'.tlb = (k.invalidateTlb address).tlb := by
  unfold Kernel.vmProtect at call
  split at call
  · cases call
  · cases call
    rfl

end Cache

structure TlbTracked (k : Kernel) : Prop where
  wellFormed : ∃ free, WellFormed TablePath k k.activeRoot free
  small : SlotsHold SmallLower k.mem k.activeRoot
  current : TlbCurrent k

section Steps

variable {k k' : Kernel} {address : Nat} {user writable executable : Bool}

theorem tracked_fill {mapping : Mapping} (before : TlbTracked k)
    (translated : walk k.mem k.activeRoot address = some mapping) :
    TlbTracked { k with tlb := Function.update k.tlb (address / 4096) (some mapping) } := by
  rcases before.wellFormed with ⟨free, wf⟩
  refine ⟨⟨free, { wf with }⟩, before.small, ?_⟩
  intro v cached low found
  by_cases same : v / 4096 = address / 4096
  · simp only [same, Function.update_self, Option.some.injEq] at found
    have number : indices v = indices address := by
      rw [indices_eq_iff]
      unfold pageNumber
      rw [same]
    exact (walk_indices _ _ number).trans (found ▸ translated)
  · simp only [Function.update_of_ne same] at found
    exact before.current v cached low found

theorem tracked_map (before : TlbTracked k) (low : address < 2 ^ 47)
    (affordable : ∃ free, k.FreeList free ∧ Supplied TablePath k k.activeRoot free [address]) :
    TlbTracked (k.vmMap k.activeRoot address user writable executable).1 := by
  rcases before.wellFormed with ⟨free, wf⟩
  have small := smallOn_of_lower (lowerHalf_of_lt low) before.small
  cases reached : pageAt k.mem k.activeRoot (indices address) with
  | some frame =>
      rw [vmMap_mapped wf reached]
      exact before
  | none =>
      rcases affordable with ⟨list, chain, supplied⟩
      have same : list = free := chain_unique chain wf.list
      subst same
      have cached : ∀ page mapping,
          (k.vmMap k.activeRoot address user writable executable).1.tlb page =
          some mapping → k.tlb page = some mapping :=
        fun _ _ => vmMap_tlb k k.activeRoot address user writable executable
      rcases vmMap_supplied user writable executable wf small List.mem_cons_self supplied with
        ⟨k', free', mapped, call, grown, _⟩
      rw [call] at cached ⊢
      have active := Kernel.activeRoot_congr grown.control.2
      refine ⟨⟨free', active ▸ grown.wellFormed⟩, ?_, ?_⟩
      · rw [active]
        exact grown.slots _ (smallLower_stable _ _ _ _) before.small
      · intro v mapping lowV found
        have old := before.current v mapping lowV (cached _ _ found)
        have other : indices v ≠ indices address := by
          intro equal
          rw [walk_indices _ _ equal, walk_of_unmapped small reached] at old
          cases old
        rw [active, grown.walks v other]
        exact old

theorem tracked_protect (before : TlbTracked k) (low : address < 2 ^ 47) :
    TlbTracked (k.vmProtect k.activeRoot address user writable executable).1 := by
  rcases before.wellFormed with ⟨free, wf⟩
  have small := smallOn_of_lower (lowerHalf_of_lt low) before.small
  cases reached : pageAt k.mem k.activeRoot (indices address) with
  | none =>
      rw [vmProtect_unmapped wf small reached]
      exact before
  | some frame =>
      rcases vmProtect_mapped user writable executable wf reached with ⟨k', call, changed⟩
      have cache := vmProtect_tlb k call
      rw [call]
      have active := Kernel.activeRoot_congr changed.control.2
      refine ⟨⟨free, active ▸ changed.wellFormed⟩, ?_, ?_⟩
      · rw [active]
        exact changed.slots SmallLower (fun _ kept => kept) before.small
      · intro v mapping lowV found
        simp only [cache, Kernel.invalidateTlb] at found
        split at found
        · cases found
        · rename_i different
          rw [active, changed.walks v fun equal => different ((indices_lower lowV low).mp equal)]
          exact before.current v mapping lowV found

theorem tracked_unmapLowerHalf (before : TlbTracked k) :
    TlbTracked (k.unmapLowerHalf k.activeRoot) := by
  rcases before.wellFormed with ⟨free, wf⟩
  rcases unmapLowerHalf_cleared wf with ⟨k', call, cleared, empty, flushed⟩
  rw [call]
  have active := Kernel.activeRoot_congr cleared.active
  refine ⟨⟨free, active ▸ cleared.wellFormed⟩, active ▸ smallLower_of_empty empty, ?_⟩
  intro v mapping _ found
  rw [flushed] at found
  cases found

theorem tlbStep_tracked (action : TlbAction) (before : TlbTracked k) (step : TlbStep k action k')
    (affordable : Affordable k action) : TlbTracked k' := by
  cases step with
  | fill translated => exact tracked_fill before translated
  | @call request low =>
      cases request with
      | map address user writable executable => exact tracked_map before low affordable
      | protect address user writable executable => exact tracked_protect before low
  | unmapLowerHalf => exact tracked_unmapLowerHalf before

/-- No call leaves a stale translation behind, as long as `vm_map` never treats page 0 as free. -/
theorem tlb_stays_current {free : List Nat} {actions : List TlbAction}
    (wf : WellFormed TablePath k k.activeRoot free)
    (small : SlotsHold SmallLower k.mem k.activeRoot) (current : TlbCurrent k)
    (run : Run (fun s action s' => TlbStep s action s' ∧ Affordable s action) k actions k') :
    TlbCurrent k' := by
  have preserved : ∀ s action next, TlbTracked s → TlbStep s action next ∧ Affordable s action →
      TlbTracked next :=
        fun s action next before step => tlbStep_tracked action before step.1 step.2
  exact (invariant preserved run ⟨⟨free, wf⟩, small, current⟩).current

end Steps

theorem bare_tlb_current :
    ∃ k', Run TlbStep bareKernel
        [.call (.map 0x400000 true true false), .fill 0x400000,
          .call (.protect 0x400000 true false false)] k' ∧
      TlbCurrent k' := by
  have active : bareKernel.activeRoot = 0x1000 := by decide
  have wf : WellFormed TablePath bareKernel bareKernel.activeRoot barePages :=
    active ▸ bare_wellFormed fun _ short => short
  have small : SlotsHold SmallLower bareKernel.mem bareKernel.activeRoot :=
    active ▸ smallLower_of_empty bare_empty
  have spare : Spare TablePath bareKernel bareKernel.activeRoot := by
    rw [active]
    refine .inr ⟨by decide, ?_⟩
    intro path _ reached
    cases (bare_pageAt reached).2
  rcases bare_mapped with ⟨k, free, frame, call, grown, mapped⟩
  rcases walk_of_mapped mapped with ⟨mapping, found, _⟩
  have first : TlbStep bareKernel (.call (.map 0x400000 true true false)) k := by
    exact mapStep (by decide) (active ▸ call)
  let filled : Kernel := { k with tlb := Function.update k.tlb (0x400000 / 4096) (some mapping) }
  have second : TlbStep k (.fill 0x400000) filled := .fill (by rw [mapped_active grown, found])
  have third : TlbStep filled (.call (.protect 0x400000 true false false))
      ((Call.protect 0x400000 true false false).run filled filled.activeRoot).1 := .call (by decide)
  have empty : TlbCurrent bareKernel := by
    intro v cached _ found
    cases found
  refine ⟨_, .cons first (.cons second (.cons third (.nil _))), ?_⟩
  exact tlb_stays_current wf small empty
    (.cons ⟨first, barePages, bare_freeList, .inr spare⟩
      (.cons ⟨second, trivial⟩ (.cons ⟨third, trivial⟩ (.nil _))))

/-! The tables of pages 2 to 5 with an empty free list, where the second word of page 0 is the
address of the level-1 table. -/

def staleKernel : Kernel := { leakKernel with mem := writeLE leakKernel.mem 8 8 0x4000 }

theorem stale_tables (path : List (Fin 512)) (table : Nat) (_short : path.length < 4)
    (reached : pageAt leakKernel.mem 0x1000 path = some table) (n : Nat) (lower : table ≤ n)
    (_upper : n < table + 4096) : staleKernel.mem n = leakKernel.mem n := by
  have high : ∀ entry ∈ leakTree, 0x1000 ≤ entry.2 := by decide
  have bound := high _ (leak_pageAt reached)
  simp only at bound
  exact writeLE_outside _ _ _ _ _ (by omega)

theorem stale_wellFormed : WellFormed TablePath staleKernel 0x1000 [] :=
  (leak_wellFormed.mono (fun _ _ => trivial) (fun _ short => short)).outside stale_tables (by simp)

theorem stale_small : SlotsHold SmallLower staleKernel.mem 0x1000 := by
  refine slotsHold_outside stale_tables ?_
  exact fun _ _ i short reached _ _ => leak_pageSize short reached i

theorem vmMap_leaf {k k' : Kernel} {root address t3 t2 t1 : Nat}
    {user writable executable failed : Bool} (base : PageBase root)
    (tables : Traversed k.mem root address t3 t2 t1)
    (absent : (slot k.mem t1 (level1 address)).present = false)
    (allocated : k.mallocPage (k.entryPtr t1 (level1 address)) user writable executable =
      (k', failed)) :
    k.vmMap root address user writable executable =
      (if failed then k' else k'.invalidateTlb address, !failed) := by
  have first := ensureTable_present (show pageAt k.mem root [] = some root from rfl) base
    tables.table3
  have second := ensureTable_present tables.table3 base tables.table2
  have third := ensureTable_present tables.table2 base tables.table1
  have entry := k.loadEntry_eq_slot (level1 address) (pageAt_pageBase base tables.table1).2
  simp only [Kernel.vmMap, first, second, third, entry, absent, Bool.false_eq_true,
    if_false, allocated]
  cases failed <;> rfl

/-- The first `vm_map` fails and leaves the level-1 table on the free list; the second one takes
it and clears it, and the cached translation of page 5 stays. -/
theorem stale_translation :
    WellFormed TablePath staleKernel staleKernel.activeRoot [] ∧
      SlotsHold SmallLower staleKernel.mem staleKernel.activeRoot ∧ TlbCurrent staleKernel ∧
      ∃ k', Run TlbStep staleKernel [.fill 0x5000, .call (.map 0x6000 true true false),
        .call (.map 0x6000 true true false)] k' ∧ ¬ TlbCurrent k' := by
  have active : staleKernel.activeRoot = 0x1000 := by decide
  have base : PageBase 0x1000 := ⟨by decide, by decide⟩
  have translated : walk staleKernel.mem staleKernel.activeRoot 0x5000 =
      some ⟨0x5000, true, true, true⟩ := by
    decide
  let k1 : Kernel := { staleKernel with
    tlb := Function.update staleKernel.tlb (0x5000 / 4096) (some ⟨0x5000, true, true, true⟩) }
  let k2 : Kernel := { k1 with mem := writeLE staleKernel.mem 0 8 0, freelist := 0x4000 }
  have first : TlbStep staleKernel (.fill 0x5000) k1 := .fill translated
  have map1 : k1.vmMap 0x1000 0x6000 true true false = (k2, false) := by
    have tables : Traversed k1.mem 0x1000 0x6000 0x2000 0x3000 0x4000 :=
      ⟨by decide, by decide, by decide⟩
    have next : nextNode k1.mem 0 = 0x4000 := by decide
    have list : k1.FreeList [] := rfl
    have offset : k1.virtualOffset ≠ 0 := by decide
    rw [vmMap_leaf base tables (by decide) (mallocPage_nil list _ _ _ _), if_pos rfl,
      Kernel.exhausted, if_neg offset, next]
    rfl
  let k3 : Kernel := { k2 with
    mem := fill (setSlot (writeLE k2.mem 0x4000 8 0) 0x4000 (level1 0x6000)
      (populate (slot (writeLE k2.mem 0x4000 8 0) 0x4000 (level1 0x6000)) 0x4000 true true false))
        0x4000 4096 0
    freelist := nextNode k2.mem 0x4000 }
  have map2 : k2.vmMap 0x1000 0x6000 true true false = (k3.invalidateTlb 0x6000, true) := by
    have tables : Traversed k2.mem 0x1000 0x6000 0x2000 0x3000 0x4000 :=
      ⟨by decide, by decide, by decide⟩
    have list : k2.FreeList [0x4000] := by
      unfold Kernel.FreeList
      decide
    exact vmMap_leaf base tables (by decide)
      (mallocPage_head list ⟨by decide, by decide⟩ (by decide) (by decide) true true false)
  have second : TlbStep k1 (.call (.map 0x6000 true true false)) k2 := by
    have root : k1.activeRoot = 0x1000 := active
    exact mapStep (by decide) (root ▸ map1)
  have third : TlbStep k2 (.call (.map 0x6000 true true false)) (k3.invalidateTlb 0x6000) := by
    have root : k2.activeRoot = 0x1000 := active
    exact mapStep (by decide) (root ▸ map2)
  have empty : TlbCurrent staleKernel := by
    intro v cached _ found
    cases found
  refine ⟨active ▸ stale_wellFormed, active ▸ stale_small, empty, _,
    .cons first (.cons second (.cons third (.nil _))), ?_⟩
  intro current
  have gone : walk k3.mem 0x1000 0x5000 = none := by decide
  have kept := current 0x5000 ⟨0x5000, true, true, true⟩ (by decide) rfl
  rw [show (k3.invalidateTlb 0x6000).activeRoot = 0x1000 from active,
    show (k3.invalidateTlb 0x6000).mem = k3.mem from rfl, gone] at kept
  cases kept

end PaintKernel
