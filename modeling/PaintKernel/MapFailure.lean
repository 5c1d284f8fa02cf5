import Mathlib
import PaintKernel.Exhaustion

set_option autoImplicit false

/-! What a failed `vm_map` leaves behind. -/

namespace PaintKernel

open ByteMemory RadixTree LinkedList

def tablePages (m : Mem) (root : Nat) : Set Nat :=
  {page | ∃ path : List (Fin 512), path.length < 4 ∧ pageAt m root path = some page}

/-- The whole free list has become tables on the way to the address, which hold nothing but each
other, and every address is translated as before. -/
structure Abandoned (root address : Nat) (free : List Nat) (k k' : Kernel) : Prop where
  walks : ∀ b, walk k'.mem root b = walk k.mem root b
  kept : ∀ path page, pageAt k.mem root path = some page → pageAt k'.mem root path = some page
  added : ∀ path page, pageAt k'.mem root path = some page →
    pageAt k.mem root path = some page ∨ path <+: indices address ∧ path.length < 4 ∧ page ∈ free
  linked : ∀ page ∈ free, page ∈ tablePages k'.mem root

variable {owned : List (Fin 512) → Prop} {root address : Nat} {user writable executable : Bool}
  {k k' k'' : Kernel} {free free' free'' : List Nat}

theorem Abandoned.tablePages_eq (abandoned : Abandoned root address free k k') :
    tablePages k'.mem root = tablePages k.mem root ∪ {page | page ∈ free} := by
  ext page
  constructor
  · rintro ⟨path, short, reached⟩
    rcases abandoned.added path page reached with before | ⟨_, _, member⟩
    · exact .inl ⟨path, short, before⟩
    · exact .inr member
  · rintro (⟨path, short, reached⟩ | member)
    · exact ⟨path, short, abandoned.kept path page reached⟩
    · exact abandoned.linked page member

theorem vmMap_failed (wf : WellFormed owned k root free)
    (small : SlotsHold (SmallOn (indices address)) k.mem root)
    (unmapped : pageAt k.mem root (indices address) = none)
    (failed : k.vmMap root address user writable executable = (k', false)) :
    ∃ last, Prepared owned root address user writable executable k free last [] ∧
      k' = last.exhausted := by
  rcases vmMap_cases user writable executable wf small with
    ⟨last, _, _, _, _, grown, _, call⟩ | ⟨_, _, frame, grown, mapped, _⟩ | ⟨_, _, _, call⟩
  · rw [call, Prod.mk.injEq] at failed
    exact ⟨last, grown, failed.1.symm⟩
  · rw [grown.leaf, unmapped] at mapped
    cases mapped
  · rw [call, Prod.mk.injEq] at failed
    cases failed.2

theorem exhausted_outside (base : PageBase root)
    (noTable : ∀ path : List (Fin 512), path.length < 4 → pageAt k.mem root path ≠ some 0) :
    ∀ (path : List (Fin 512)) table, path.length < 4 → pageAt k.mem root path = some table →
      ∀ n, table ≤ n → n < table + 4096 → k.exhausted.mem n = k.mem n := by
  have outside := pageZero_outside base noTable
  unfold Kernel.exhausted
  split
  · exact fun _ _ _ _ _ _ _ => rfl
  · exact outside

theorem Extends.noTable {path : List (Fin 512)} (wf : WellFormed owned k root free)
    (noTable : ∀ path : List (Fin 512), path.length < 4 → pageAt k.mem root path ≠ some 0)
    (more : Extends owned root path user writable executable k free k' free') :
    ∀ path : List (Fin 512), path.length < 4 → pageAt k'.mem root path ≠ some 0 := by
  intro other short reached
  rcases more.added other 0 reached with before | ⟨_, member⟩
  · exact noTable other short before
  · exact chain_ne_null wf.list 0 member rfl

/-- With the free list used up, its pages are tables on the way to the address. -/
theorem Prepared.abandoned (wf : WellFormed owned k root free)
    (small : SlotsHold (SmallOn (indices address)) k.mem root)
    (noTable : ∀ path : List (Fin 512), path.length < 4 → pageAt k.mem root path ≠ some 0)
    (unmapped : pageAt k.mem root (indices address) = none)
    (grown : Prepared owned root address user writable executable k free k' []) :
    Abandoned root address free k k'.exhausted := by
  have more := grown.more
  have stable := smallOn_stable (indices address) (indices address) user writable executable
  have tables := exhausted_outside more.wellFormed.base (more.noTable wf noTable)
  have leaf : pageAt k'.mem root (indices address) = none := grown.leaf.trans unmapped
  -- a page of the free list cannot be the frame of the address, which is still unmapped
  have short : ∀ path page, pageAt k'.mem root path = some page → path <+: indices address →
      path.length < 4 := by
    intro path page reached inside
    have bound : path.length ≤ 4 := inside.length_le
    by_contra long
    have whole := inside.eq_of_length
      (by simp only [indices, List.length_cons, List.length_nil]; omega)
    rw [whole, leaf] at reached
    cases reached
  constructor
  · intro b
    rw [walk_outside tables b]
    by_cases same : indices b = indices address
    · rw [walk_indices _ _ same, walk_indices _ _ same, walk_of_unmapped small unmapped,
        walk_of_unmapped (more.slots _ stable small) leaf]
    · exact more.walks b same
  · intro path page reached
    rw [pageAt_outside tables]
    exact more.kept path page reached
  · intro path page reached
    rw [pageAt_outside tables] at reached
    rcases more.added path page reached with before | ⟨inside, member⟩
    · exact .inl before
    · exact .inr ⟨inside, short path page reached inside, member⟩
  · intro page member
    rcases more.taken page member with left | ⟨path, reached⟩
    · cases left
    · rcases more.added path page reached with before | ⟨inside, _⟩
      · exact absurd member (wf.disjoint path page before)
      · exact ⟨path, short path page reached inside, by rw [pageAt_outside tables]; exact reached⟩

/-- A failed `vm_map` keeps every translation. On a mapped page it changes nothing; on an unmapped
page it has used up the free list for tables on the way. -/
theorem failed_map_keeps_walks (wf : WellFormed owned k root free)
    (small : SlotsHold (SmallOn (indices address)) k.mem root)
    (noTable : ∀ path : List (Fin 512), path.length < 4 → pageAt k.mem root path ≠ some 0)
    (failed : k.vmMap root address user writable executable = (k', false)) :
    (∀ b, walk k'.mem root b = walk k.mem root b) ∧
      (walk k.mem root address ≠ none → k' = k) ∧
      (walk k.mem root address = none → Abandoned root address free k k' ∧
        tablePages k'.mem root = tablePages k.mem root ∪ {page | page ∈ free}) := by
  cases mapped : pageAt k.mem root (indices address) with
  | some frame =>
      have same : k' = k := by
        rw [vmMap_mapped wf mapped, Prod.mk.injEq] at failed
        exact failed.1.symm
      subst same
      refine ⟨fun _ => rfl, fun _ => rfl, fun none => ?_⟩
      rw [walk_none_iff small, mapped] at none
      cases none
  | none =>
      rcases vmMap_failed wf small mapped failed with ⟨last, grown, rfl⟩
      have abandoned := grown.abandoned wf small noTable mapped
      exact ⟨abandoned.walks, fun found => absurd (walk_of_unmapped small mapped) found,
        fun _ => ⟨abandoned, abandoned.tablePages_eq⟩⟩

/-- One page is too few when the level-4 entry is absent: it becomes the level-3 table. -/
theorem vmMap_one_page {q : Nat} (wf : WellFormed owned k root [q])
    (small : SlotsHold (SmallOn (indices address)) k.mem root)
    (absent : (slot k.mem root (level4 address)).present = false) :
    ∃ k', k.vmMap root address user writable executable = (k', false) := by
  have split : [] ++ level4 address :: [level3 address, level2 address, level1 address] =
      indices address := rfl
  rcases ensureTable_absent user writable executable wf split rfl (by simp)
    rfl (by simp) absent with
    ⟨k3, call3, more, found3, others⟩
  have absent3 : (slot k3.mem q (level3 address)).present = false := by
    by_contra present
    have small3 := more.slots _ (smallOn_stable _ _ _ _ _) small
    have found := small_step small3 [level4 address] rfl found3 (Bool.of_not_eq_false present)
    have before : pageAt k.mem root ([level4 address] ++ [level3 address]) = none := by
      simp only [List.cons_append, List.nil_append, pageAt, follow, nextTable_absent absent,
        Option.bind_none]
    rw [others _ (by simp), before] at found
    cases found
  have call := ensureTable_nil more.wellFormed.list
    (pageAt_pageBase more.wellFormed.base found3).2 absent3
  exact ⟨k3.exhausted, by simp only [Kernel.vmMap, call3, call]⟩

def scarceKernel : Kernel := { bareKernel with mem := fun _ => 0, freelist := 0x2000 }

theorem scarce_slot (i : Fin 512) : slot scarceKernel.mem 0x1000 i = .decode 0 := by
  apply slot_zero
  exact fun _ _ _ => rfl

theorem scarce_blank (i : Fin 512) : (slot scarceKernel.mem 0x1000 i).present = false := by
  rw [scarce_slot]
  rfl

theorem scarce_unmapped {path : List (Fin 512)} (inner : path ≠ []) :
    pageAt scarceKernel.mem 0x1000 path = none := by
  cases reached : pageAt scarceKernel.mem 0x1000 path with
  | none => rfl
  | some page => exact absurd (pageAt_of_blank scarce_blank reached).1 inner

theorem scarce_wellFormed : WellFormed (fun _ => True) scarceKernel 0x1000 [0x2000] := by
  refine wellFormed_of_blank ⟨by decide, by decide⟩ scarce_blank (fun _ _ =>
    trivial) ?_ ?_ (by decide)
  · unfold Kernel.FreeList
    decide
  · unfold PageBase
    decide

theorem scarce_small : SlotsHold (SmallOn (indices 0x400000)) scarceKernel.mem 0x1000 :=
  slotsHold_of_blank scarce_slot fun _ _ _ => rfl

theorem scarce_noTable : ∀ path : List (Fin 512), path.length < 4 →
    pageAt scarceKernel.mem 0x1000 path ≠ some 0 := by
  intro path _ reached
  cases (pageAt_of_blank scarce_blank reached).2

theorem scarce_map_fails : ∃ k', scarceKernel.vmMap 0x1000 0x400000 true true false = (k', false) :=
  vmMap_one_page scarce_wellFormed scarce_small (scarce_blank _)

theorem scarce_abandoned : ∃ k', scarceKernel.vmMap 0x1000 0x400000 true true false = (k', false) ∧
    Abandoned 0x1000 0x400000 [0x2000] scarceKernel k' := by
  rcases scarce_map_fails with ⟨k', failed⟩
  have unmapped : pageAt scarceKernel.mem 0x1000 (indices 0x400000) = none :=
    scarce_unmapped (by simp [indices])
  rcases vmMap_failed scarce_wellFormed scarce_small unmapped failed with ⟨last, grown, rfl⟩
  exact ⟨_, failed, grown.abandoned scarce_wellFormed scarce_small scarce_noTable unmapped⟩

theorem scarce_map_keeps_walks :
    ∃ k', scarceKernel.vmMap 0x1000 0x400000 true true false = (k', false) ∧
      (∀ b, walk k'.mem 0x1000 b = walk scarceKernel.mem 0x1000 b) ∧
      tablePages k'.mem 0x1000 = tablePages scarceKernel.mem 0x1000 ∪ {page | page ∈ [0x2000]} := by
  rcases scarce_map_fails with ⟨k', failed⟩
  have kept := failed_map_keeps_walks scarce_wellFormed scarce_small scarce_noTable failed
  exact ⟨k', failed, kept.1,
    (kept.2.2 (walk_of_unmapped scarce_small (scarce_unmapped (by simp [indices])))).2⟩

theorem failed_map_leaves_table :
    WellFormed (fun _ => True) scarceKernel 0x1000 [0x2000] ∧
      ∃ k', scarceKernel.vmMap 0x1000 0x400000 true true false = (k', false) ∧
        0x2000 ∈ tablePages k'.mem 0x1000 ∧ 0x2000 ∉ tablePages scarceKernel.mem 0x1000 := by
  refine ⟨scarce_wellFormed, ?_⟩
  rcases scarce_abandoned with ⟨k', failed, abandoned⟩
  refine ⟨_, failed, abandoned.linked _ List.mem_cons_self, ?_⟩
  rintro ⟨path, _, reached⟩
  cases (pageAt_of_blank scarce_blank reached).2

end PaintKernel
