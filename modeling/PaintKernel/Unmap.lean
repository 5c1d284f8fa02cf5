import Mathlib
import PaintKernel.PageMap

set_option autoImplicit false

/-! `vm_unmap`: which page it removes, and what its test for empty tables reads. -/

namespace PaintKernel

open ByteMemory RadixTree LinkedList

def clear (e : PageTableEntry) : PageTableEntry := { e with present := false }

def cutIf (cut : Bool) (m : Mem) (table : Nat) (i : Fin 512) : Mem :=
  if cut then setSlot m table i (clear (slot m table i)) else m

def Kernel.cutEntry (k : Kernel) (cut : Bool) (table : Nat) (i : Fin 512) : Kernel :=
  { k with mem := cutIf cut k.mem table i }

@[simp] theorem cutEntry_false (k : Kernel) (table : Nat) (i : Fin 512) :
    k.cutEntry false table i = k := rfl

def Kernel.detach (k : Kernel) (root address t3 t2 t1 : Nat)
    (empty1 empty2 empty3 : Bool) : Kernel :=
  (((k.cutEntry true t1 (level1 address)).cutEntry empty1 t2 (level2 address)).cutEntry
    empty2 t3 (level3 address)).cutEntry empty3 root (level4 address)

section Calls

variable {k : Kernel} {root address frame t3 t2 t1 : Nat}

/-- The frees in `vm_unmap` are of page-aligned addresses, on which `pmem_free` returns. -/
theorem releaseIfEmpty_eq (k : Kernel) {parent : Nat} (i : Fin 512) (bound : parent < 2 ^ 52)
    (start : Nat) :
    k.releaseIfEmpty (k.entryPtr parent i) start =
      (k.freePageTable start).map fun empty => k.cutEntry empty parent i := by
  unfold Kernel.releaseIfEmpty
  rcases k.freePageTable start with - | (- | -)
  · rfl
  · rfl
  · simp only [k.loadEntry_eq_slot i bound, k.storeEntry_eq_setSlot i _ bound,
      Kernel.pmemFree_aligned _ _ (PageTableEntry.target_aligned _)]
    rfl

theorem vmUnmap_mapped (base : PageBase root) (tables : Traversed k.mem root address t3 t2 t1)
    (mapped : pageAt k.mem root (indices address) = some frame) :
    k.vmUnmap root address =
      let detached := k.detach root address t3 t2 t1
      ((detached false false false).freePageTable t1).bind fun empty1 =>
      ((detached empty1 false false).freePageTable t2).bind fun empty2 =>
      ((detached empty1 empty2 false).freePageTable t3).bind fun empty3 =>
      some ((detached empty1 empty2 empty3).invalidateTlb address, true) := by
  have bound1 := (pageAt_pageBase base tables.table1).2
  have bound2 := (pageAt_pageBase base tables.table2).2
  have bound3 := (pageAt_pageBase base tables.table3).2
  have leaf : k.storeEntry (k.entryPtr t1 (level1 address))
      { k.loadEntry (k.entryPtr t1 (level1 address)) with present := false } =
      k.cutEntry true t1 (level1 address) := by
    rw [k.loadEntry_eq_slot _ bound1, k.storeEntry_eq_setSlot _ _ bound1]
    rfl
  simp only [Kernel.vmUnmap, findTables_mapped base tables mapped, leaf, Kernel.detach,
    cutEntry_false]
  generalize k.cutEntry true t1 (level1 address) = k0
  rw [Kernel.pmemFree_aligned _ _ (PageTableEntry.target_aligned _), releaseIfEmpty_eq k0 _ bound2]
  cases k0.freePageTable t1 with
  | none => rfl
  | some empty1 =>
  simp only [Option.map_some, Option.bind_some]
  generalize k0.cutEntry empty1 t2 (level2 address) = k1
  rw [releaseIfEmpty_eq k1 _ bound3]
  cases k1.freePageTable t2 with
  | none => rfl
  | some empty2 =>
  simp only [Option.map_some, Option.bind_some]
  generalize k1.cutEntry empty2 t3 (level3 address) = k2
  rw [releaseIfEmpty_eq k2 _ base.2]
  cases k2.freePageTable t3 with
  | none => rfl
  | some empty3 => rfl

theorem vmUnmap_unmapped (base : PageBase root)
    (small : SlotsHold (SmallOn (indices address)) k.mem root)
    (unmapped : pageAt k.mem root (indices address) = none) :
    k.vmUnmap root address = some (k, false) := by
  rw [Kernel.vmUnmap, findTables_unmapped base small unmapped]

end Calls

section Scan

variable {k : Kernel} {page : Nat}

theorem indices_in_page (aligned : page % 4096 = 0) (i : Fin 512) :
    indices (page + 8 * i) = indices page := by
  have bound := i.isLt
  rw [indices_eq_iff]
  unfold pageNumber
  omega

theorem scanPresent_readable {bytes : Fin 512 → UInt8} (rest : List (Fin 512))
    (reads : ∀ i : Fin 512, k.loadVirt (page + 8 * i) = some (bytes i)) :
    k.scanPresent page rest = some (rest.all fun i => (bytes i).toNat % 2 != 1) := by
  induction rest with
  | nil => rfl
  | cons i rest ih =>
      simp only [Kernel.scanPresent, reads, List.all_cons]
      by_cases odd : (bytes i).toNat % 2 = 1
      · simp [odd]
      · have even : ((bytes i).toNat % 2 != 1) = true := bne_iff_ne.mpr odd
        rw [if_neg odd, ih, even, Bool.true_and]

theorem freePageTable_mapped {mapping : Mapping} (aligned : page % 4096 = 0) (low : page < 2 ^ 47)
    (mapped : walk k.mem k.activeRoot page = some mapping) :
    k.freePageTable page =
      some ((List.finRange 512).all fun i => (k.mem (mapping.frame + 8 * i)).toNat % 2 != 1) := by
  apply scanPresent_readable
  intro i
  have bound := i.isLt
  have inside : page + 8 * i.val < 2 ^ 47 := by omega
  rw [Kernel.loadVirt, if_pos inside, walk_indices _ _ (indices_in_page aligned i), mapped]
  simp only [show (page + 8 * i.val) % 4096 = 8 * i.val by omega]

theorem freePageTable_fault (bound : page < 2 ^ 52)
    (unreadable : page < 2 ^ 47 → walk k.mem k.activeRoot page = none) :
    k.freePageTable page = none := by
  unfold Kernel.freePageTable
  rw [List.finRange_succ]
  simp only [Kernel.scanPresent, Fin.val_zero, Nat.mul_zero, Nat.add_zero]
  have first : k.loadVirt page = none := by
    unfold Kernel.loadVirt
    split
    · rename_i low
      rw [unreadable low]
    · rw [if_neg (by omega)]
  rw [first]

/-- The virtual page with the number of the physical page `table` is mapped, and one of its
words has the lowest bit set exactly when `kept` is true. -/
def Shows (k : Kernel) (table : Nat) (kept : Bool) : Prop :=
  table < 2 ^ 47 ∧ ∃ mapping, walk k.mem k.activeRoot table = some mapping ∧
    ((∃ i : Fin 512, (k.mem (mapping.frame + 8 * i)).toNat % 2 = 1) ↔ kept = true)

theorem freePageTable_iff (base : PageBase page) (kept : Bool) :
    k.freePageTable page = some (!kept) ↔ Shows k page kept := by
  by_cases low : page < 2 ^ 47
  · cases mapped : walk k.mem k.activeRoot page with
    | none =>
        have fault : k.freePageTable page = none := freePageTable_fault base.2 (fun _ => mapped)
        simp [Shows, fault, mapped]
    | some mapping =>
        rw [freePageTable_mapped base.1 low mapped]
        simp only [Shows, low, mapped, Option.some.injEq, exists_eq_left', true_and]
        cases kept <;> simp [List.all_eq_true]
  · have fault : k.freePageTable page = none :=
      freePageTable_fault base.2 (fun inside => absurd inside low)
    simp only [Shows, fault, low, false_and, reduceCtorEq]

end Scan

/-- `k'` lost the page of `address` from the address space under `root` and no other. -/
structure Tidy (root address : Nat) (free : List Nat) (k k' : Kernel) : Prop where
  wellFormed : WellFormed TablePath k' root free
  gone : walk k'.mem root address = none
  others : ∀ b, indices b ≠ indices address → walk k'.mem root b = walk k.mem root b

section Tidy

variable {k k' : Kernel} {root address table t : Nat} {free : List Nat} {empty : Bool}
  {path : List (Fin 512)} {i : Fin 512}

theorem nextTable_clear (depth : Nat) (e : PageTableEntry) : nextTable depth (clear e) = none :=
  nextTable_absent rfl depth

section Cut

variable (wf : WellFormed TablePath k root free) (short : path.length < 4)
  (reached : pageAt k.mem root path = some t)

include wf short reached

theorem cut_update : SlotUpdate nextTable (slot k.mem) (slot (cutIf true k.mem t i)) 4 root path t i
    (fun page => ¬ PageBase page) := setSlot_update wf short reached _

theorem cut_fewer {other : List (Fin 512)} {page : Nat}
    (found : pageAt (cutIf true k.mem t i) root other = some page) :
    pageAt k.mem root other = some page ∧ ¬ path ++ [i] <+: other := by
  apply (cut_update wf short reached).follow_cut _ found
  rw [cutIf, if_pos rfl, slot_setSlot]
  exact nextTable_clear _ _

theorem cut_pageAt {other : List (Fin 512)} (off : ¬ path ++ [i] <+: other) :
    pageAt (cutIf true k.mem t i) root other = pageAt k.mem root other :=
  (cut_update wf short reached).follow_off off

theorem cut_wellFormed : WellFormed TablePath (k.cutEntry true t i) root free :=
  wf.rewriteSlot reached fun _ _ found => (cut_fewer wf short reached found).1

theorem cut_inside {b : Nat} (inside : path ++ [i] <+: indices b) :
    walk (cutIf true k.mem t i) root b = none := by
  rcases inside with ⟨rest, split⟩
  rw [List.append_assoc, List.singleton_append] at split
  have here : slot (cutIf true k.mem t i) t i = clear (slot k.mem t i) := slot_setSlot _ _ _ _
  rw [walk_eq_resolve, ← split, (cut_update wf short reached).entries_through, here,
    nextTable_clear]
  exact resolve_absent b _ _ rfl

theorem cut_outside {b : Nat} (off : ¬ path ++ [i] <+: indices b) :
    walk (cutIf true k.mem t i) root b = walk k.mem root b :=
  walk_congr ((cut_update wf short reached).entries_off (by simp [indices]) off)

end Cut

theorem walk_of_empty {m : Mem} (empty : ∀ j, (slot m t j).present = false)
    (short : path.length < 4) (reached : pageAt m root path = some t) {b : Nat}
    (inside : path <+: indices b) : walk m root b = none := by
  rcases inside with ⟨rest, split⟩
  cases rest with
  | nil =>
      have size := congrArg List.length split
      simp only [List.length_append, List.length_nil, indices, List.length_cons] at size
      omega
  | cons j rest =>
      rw [walk_eq_resolve, ← split, entries_slot rest reached, nextTable_absent (empty j)]
      exact resolve_absent b _ _ (empty j)

theorem cutEntry_pageAt (wf : WellFormed TablePath k root free) (short : path.length < 4)
    (reached : pageAt k.mem root path = some t) (cut : Bool) {other : List (Fin 512)}
    (off : ¬ path ++ [i] <+: other) :
    pageAt (k.cutEntry cut t i).mem root other = pageAt k.mem root other := by
  cases cut with
  | false => rfl
  | true => exact cut_pageAt wf short reached off

theorem tidy_next (tidy : Tidy root address free k k') (short : path.length < 3)
    (reached : pageAt k'.mem root path = some t)
    (child : pageAt k'.mem root (path ++ [i]) = some table)
    (right : empty = true → ∀ j, (slot k'.mem table j).present = false) :
    Tidy root address free k (k'.cutEntry empty t i) := by
  cases empty with
  | false => exact tidy
  | true =>
      have wf := tidy.wellFormed
      have same : ∀ b, walk (k'.cutEntry true t i).mem root b = walk k'.mem root b := by
        intro b
        by_cases inside : path ++ [i] <+: indices b
        · rw [walk_of_empty (right rfl) (by simp; omega) child inside]
          exact cut_inside wf (by omega) reached inside
        · exact cut_outside wf (by omega) reached inside
      exact ⟨cut_wellFormed wf (by omega) reached, (same address).trans tidy.gone,
        fun b other => (same b).trans (tidy.others b other)⟩

end Tidy

def keepsEntry (m : Mem) (table : Nat) (i : Fin 512) : Bool :=
  decide (∃ j, j ≠ i ∧ (slot m table j).present = true)

/-! Whether the tables on the way of an address still hold a present entry when its page and
the tables emptied below them are gone. -/

def kept1 (m : Mem) (address t1 : Nat) : Bool := keepsEntry m t1 (level1 address)

def kept2 (m : Mem) (address t2 t1 : Nat) : Bool :=
  kept1 m address t1 || keepsEntry m t2 (level2 address)

def kept3 (m : Mem) (address t3 t2 t1 : Nat) : Bool :=
  kept2 m address t2 t1 || keepsEntry m t3 (level3 address)

theorem not_kept2 (m : Mem) (address t2 t1 : Nat) :
    (!kept2 m address t2 t1) = (!kept1 m address t1 && !keepsEntry m t2 (level2 address)) :=
  Bool.not_or _ _

theorem not_kept3 (m : Mem) (address t3 t2 t1 : Nat) :
    (!kept3 m address t3 t2 t1) = (!kept2 m address t2 t1 && !keepsEntry m t3 (level3 address)) :=
  Bool.not_or _ _

section Slots

variable {m : Mem} {table other : Nat} {i j : Fin 512} {cut : Bool}

theorem slot_cutIf_other (aligned : table % 4096 = 0) (otherAligned : other % 4096 = 0)
    (different : other ≠ table) : slot (cutIf cut m table i) other j = slot m other j := by
  cases cut with
  | false => rfl
  | true => exact slot_setSlot_other m _ aligned otherAligned (fun same => different same.1)

theorem present_cutIf (m : Mem) (cut : Bool) (i j : Fin 512) (aligned : table % 4096 = 0) :
    (slot (cutIf cut m table i) table j).present =
      ((slot m table j).present && !(cut && decide (j = i))) := by
  cases cut with
  | false => simp [cutIf]
  | true =>
      by_cases same : j = i
      · subst same
        simp [cutIf, clear]
      · have kept : slot (cutIf true m table i) table j = slot m table j :=
          slot_setSlot_other m _ aligned aligned (fun both => same both.2)
        simp [kept, same]

theorem empty_iff (present : (slot m table i).present = true) :
    (∀ j, ((slot m table j).present && !(cut && decide (j = i))) = false) ↔
      (cut && !keepsEntry m table i) = true := by
  simp only [Bool.and_eq_true, Bool.not_eq_true', keepsEntry, decide_eq_false_iff_not]
  constructor
  · intro absent
    refine ⟨by simpa [present] using absent i, ?_⟩
    rintro ⟨j, different, kept⟩
    simpa [kept, different] using absent j
  · rintro ⟨rfl, alone⟩ j
    by_cases same : j = i
    · simp [same]
    · cases kept : (slot m table j).present with
      | false => rfl
      | true => exact absurd ⟨j, same, kept⟩ alone

end Slots

/-- The entry that points to a table is absent exactly when the table has no present entry. -/
def CutOffIffEmpty (m : Mem) (parent : Nat) (i : Fin 512) (table : Nat) : Prop :=
  (slot m parent i).present = false ↔ ∀ j, (slot m table j).present = false

structure RemovedPage (root address t3 t2 t1 : Nat) (k k' : Kernel) : Prop where
  gone : walk k'.mem root address = none
  others : ∀ b, pageNumber b ≠ pageNumber address → walk k'.mem root b = walk k.mem root b
  table1 : CutOffIffEmpty k'.mem t2 (level2 address) t1
  table2 : CutOffIffEmpty k'.mem t3 (level3 address) t2
  table3 : CutOffIffEmpty k'.mem root (level4 address) t3

theorem RemovedPage.invalidateTlb {root address t3 t2 t1 v : Nat} {k k' : Kernel}
    (removed : RemovedPage root address t3 t2 t1 k k') :
    RemovedPage root address t3 t2 t1 k (k'.invalidateTlb v) :=
  ⟨removed.gone, removed.others, removed.table1, removed.table2, removed.table3⟩

def UnmapsOnePage (k : Kernel) (root address : Nat) : Prop :=
  (walk k.mem root address = none → k.vmUnmap root address = some (k, false)) ∧
    (walk k.mem root address ≠ none → ∀ t3 t2 t1, Traversed k.mem root address t3 t2 t1 →
      ∃ k', k.vmUnmap root address = some (k', true) ∧ RemovedPage root address t3 t2 t1 k k')

/-- The virtual page with the number of each table shows what that table holds, in the memory
where the page's entry and those of the emptied tables below are cleared. -/
structure TablesShown (k : Kernel) (root address t3 t2 t1 : Nat) : Prop where
  table1 : Shows (k.detach root address t3 t2 t1 false false false) t1 (kept1 k.mem address t1)
  table2 : Shows (k.detach root address t3 t2 t1 (!kept1 k.mem address t1) false false) t2
    (kept2 k.mem address t2 t1)
  table3 : Shows (k.detach root address t3 t2 t1 (!kept1 k.mem address t1)
    (!kept2 k.mem address t2 t1) false) t3 (kept3 k.mem address t3 t2 t1)

def ShowsTables (k : Kernel) (root address : Nat) : Prop :=
  walk k.mem root address ≠ none → ∀ t3 t2 t1, Traversed k.mem root address t3 t2 t1 →
    TablesShown k root address t3 t2 t1

theorem longer_not_within {front other : List (Fin 512)} (long : other.length < front.length) :
    ¬ front <+: other := fun inside => absurd inside.length_le (by omega)

section Detach

variable {k : Kernel} {root address frame t3 t2 t1 : Nat} {free : List Nat}

theorem tables_distinct (wf : WellFormed TablePath k root free)
    (tables : Traversed k.mem root address t3 t2 t1) :
    t1 ≠ t2 ∧ t1 ≠ t3 ∧ t1 ≠ root ∧ t2 ≠ t3 ∧ t2 ≠ root ∧ t3 ≠ root := by
  have apart : ∀ {left right : List (Fin 512)} {p q : Nat}, left.length < 4 → right.length < 4 →
      left.length ≠ right.length → pageAt k.mem root left = some p →
      pageAt k.mem root right = some q → p ≠ q := by
    intro left right p q shortLeft shortRight lengths reachedLeft reachedRight same
    exact lengths (congrArg List.length
      (wf.unshared left right p shortLeft shortRight reachedLeft (same ▸ reachedRight)))
  have top : pageAt k.mem root [] = some root := rfl
  have reached3 := tables.table3
  have reached2 := tables.table2
  have reached1 := tables.table1
  exact ⟨apart (by simp) (by simp) (by simp) reached1 reached2,
    apart (by simp) (by simp) (by simp) reached1 reached3,
    apart (by simp) (by simp) (by simp) reached1 top,
    apart (by simp) (by simp) (by simp) reached2 reached3,
    apart (by simp) (by simp) (by simp) reached2 top,
    apart (by simp) (by simp) (by simp) reached3 top⟩

theorem detach_present (wf : WellFormed TablePath k root free)
    (tables : Traversed k.mem root address t3 t2 t1) (empty1 empty2 empty3 : Bool) :
    let m := (k.detach root address t3 t2 t1 empty1 empty2 empty3).mem
    (∀ j, (slot m t1 j).present =
      ((slot k.mem t1 j).present && !(true && decide (j = level1 address)))) ∧
    (∀ j, (slot m t2 j).present =
      ((slot k.mem t2 j).present && !(empty1 && decide (j = level2 address)))) ∧
    (∀ j, (slot m t3 j).present =
      ((slot k.mem t3 j).present && !(empty2 && decide (j = level3 address)))) ∧
    (∀ j, (slot m root j).present =
      ((slot k.mem root j).present && !(empty3 && decide (j = level4 address)))) := by
  rcases tables_distinct wf tables with ⟨ne12, ne13, ne1, ne23, ne2, ne3⟩
  have aligned := wf.base.1
  have aligned3 := (pageAt_pageBase wf.base tables.table3).1
  have aligned2 := (pageAt_pageBase wf.base tables.table2).1
  have aligned1 := (pageAt_pageBase wf.base tables.table1).1
  let m0 := cutIf true k.mem t1 (level1 address)
  let m1 := cutIf empty1 m0 t2 (level2 address)
  let m2 := cutIf empty2 m1 t3 (level3 address)
  rw [show (k.detach root address t3 t2 t1 empty1 empty2 empty3).mem =
    cutIf empty3 m2 root (level4 address) from rfl]
  refine ⟨fun j => ?_, fun j => ?_, fun j => ?_, fun j => ?_⟩
  · rw [slot_cutIf_other aligned aligned1 ne1, slot_cutIf_other aligned3 aligned1 ne13,
      slot_cutIf_other aligned2 aligned1 ne12, present_cutIf _ _ _ _ aligned1]
  · rw [slot_cutIf_other aligned aligned2 ne2, slot_cutIf_other aligned3 aligned2 ne23,
      present_cutIf _ _ _ _ aligned2, slot_cutIf_other aligned1 aligned2 ne12.symm]
  · rw [slot_cutIf_other aligned aligned3 ne3, present_cutIf _ _ _ _ aligned3,
      slot_cutIf_other aligned2 aligned3 ne23.symm, slot_cutIf_other aligned1 aligned3 ne13.symm]
  · rw [present_cutIf _ _ _ _ aligned, slot_cutIf_other aligned3 aligned ne3.symm,
      slot_cutIf_other aligned2 aligned ne2.symm, slot_cutIf_other aligned1 aligned ne1.symm]

theorem Traversed.present (tables : Traversed k.mem root address t3 t2 t1)
    (mapped : pageAt k.mem root (indices address) = some frame) :
    (slot k.mem t1 (level1 address)).present = true ∧
      (slot k.mem t2 (level2 address)).present = true ∧
      (slot k.mem t3 (level3 address)).present = true ∧
      (slot k.mem root (level4 address)).present = true :=
  ⟨(nextTable_eq_some (tables.leaf.symm.trans mapped)).1, (nextTable_eq_some tables.entry2).1,
    (nextTable_eq_some tables.entry3).1, (nextTable_eq_some tables.entry4).1⟩

/-- Which tables have no present entry left then. -/
theorem detach_empty (wf : WellFormed TablePath k root free)
    (tables : Traversed k.mem root address t3 t2 t1)
    (mapped : pageAt k.mem root (indices address) = some frame) (empty1 empty2 empty3 : Bool) :
    let m := (k.detach root address t3 t2 t1 empty1 empty2 empty3).mem
    ((∀ j, (slot m t1 j).present = false) ↔ (!kept1 k.mem address t1) = true) ∧
    ((∀ j, (slot m t2 j).present = false) ↔
      (empty1 && !keepsEntry k.mem t2 (level2 address)) = true) ∧
    ((∀ j, (slot m t3 j).present = false) ↔
      (empty2 && !keepsEntry k.mem t3 (level3 address)) = true) := by
  rcases detach_present wf tables empty1 empty2 empty3 with ⟨bits1, bits2, bits3, _⟩
  rcases tables.present mapped with ⟨present1, present2, present3, _⟩
  refine ⟨?_, ?_, ?_⟩
  · simp only [bits1, empty_iff present1]
    rw [Bool.true_and, kept1]
  · simp only [bits2, empty_iff present2]
  · simp only [bits3, empty_iff present3]

theorem cutOff_iff (wf : WellFormed TablePath k root free)
    (tables : Traversed k.mem root address t3 t2 t1)
    (mapped : pageAt k.mem root (indices address) = some frame) (empty1 empty2 empty3 : Bool) :
    let m := (k.detach root address t3 t2 t1 empty1 empty2 empty3).mem
    (CutOffIffEmpty m t2 (level2 address) t1 ↔ empty1 = !kept1 k.mem address t1) ∧
    (CutOffIffEmpty m t3 (level3 address) t2 ↔
      empty2 = (empty1 && !keepsEntry k.mem t2 (level2 address))) ∧
    (CutOffIffEmpty m root (level4 address) t3 ↔
      empty3 = (empty2 && !keepsEntry k.mem t3 (level3 address))) := by
  rcases detach_present wf tables empty1 empty2 empty3 with ⟨_, bits2, bits3, bits4⟩
  rcases detach_empty wf tables mapped empty1 empty2 empty3 with ⟨left1, left2, left3⟩
  rcases tables.present mapped with ⟨_, present2, present3, present4⟩
  refine ⟨?_, ?_, ?_⟩
  · rw [CutOffIffEmpty, left1, bits2, present2]
    cases empty1 <;> simp
  · rw [CutOffIffEmpty, left2, bits3, present3]
    cases empty2 <;> simp
  · rw [CutOffIffEmpty, left3, bits4, present4]
    cases empty3 <;> simp

/-- As long as no table that keeps an entry is detached, only the page itself is lost. -/
theorem tidy_detach (wf : WellFormed TablePath k root free)
    (tables : Traversed k.mem root address t3 t2 t1)
    (mapped : pageAt k.mem root (indices address) = some frame) {empty1 empty2 empty3 : Bool}
    (right1 : empty1 = true → (!kept1 k.mem address t1) = true)
    (right2 : empty2 = true → (empty1 && !keepsEntry k.mem t2 (level2 address)) = true)
    (right3 : empty3 = true → (empty2 && !keepsEntry k.mem t3 (level3 address)) = true) :
    Tidy root address free k (k.detach root address t3 t2 t1 empty1 empty2 empty3) := by
  let k0 := k.cutEntry true t1 (level1 address)
  let k1 := k0.cutEntry empty1 t2 (level2 address)
  let k2 := k1.cutEntry empty2 t3 (level3 address)
  -- The leaf entry is cut first; only the page itself is translated through it.
  have tidy0 : Tidy root address free k k0 := by
    refine ⟨cut_wellFormed wf (by simp) tables.table1, ?_, ?_⟩
    · exact cut_inside wf (by simp) tables.table1 ⟨[], by simp [indices]⟩
    · intro b other
      apply cut_outside wf (by simp) tables.table1
      exact fun inside => other (inside.eq_of_length (by simp [indices])).symm
  have pages0 : ∀ other : List (Fin 512), other.length < 4 →
      pageAt k0.mem root other = pageAt k.mem root other :=
    fun other short =>
      cutEntry_pageAt wf (by simp) tables.table1 true (longer_not_within (by simpa using short))
  have reached2 := (pages0 _ (by simp)).trans tables.table2
  have tidy1 : Tidy root address free k k1 := by
    apply tidy_next tidy0 (by simp) reached2 ((pages0 _ (by simp)).trans tables.table1)
    exact fun empty => (detach_empty wf tables mapped false false false).1.mpr (right1 empty)
  have pages1 : ∀ other : List (Fin 512), other.length < 3 →
      pageAt k1.mem root other = pageAt k.mem root other := by
    intro other short
    have longer : ¬ [level4 address, level3 address, level2 address] <+: other :=
      longer_not_within short
    have same := cutEntry_pageAt tidy0.wellFormed (by simp) reached2 empty1 longer
    exact same.trans (pages0 other (by omega))
  have reached3 := (pages1 _ (by simp)).trans tables.table3
  have tidy2 : Tidy root address free k k2 := by
    apply tidy_next tidy1 (by simp) reached3 ((pages1 _ (by simp)).trans tables.table2)
    exact fun empty => (detach_empty wf tables mapped empty1 false false).2.1.mpr (right2 empty)
  have reached4 : pageAt k2.mem root ([] ++ [level4 address]) = some t3 :=
    (cutEntry_pageAt tidy1.wellFormed (by simp) reached3 empty2 (longer_not_within (by simp))).trans
      reached3
  apply tidy_next tidy2 (by simp) rfl reached4
  exact fun empty => (detach_empty wf tables mapped empty1 empty2 false).2.2.mpr (right3 empty)

theorem unmap_mapped_iff (wf : WellFormed TablePath k root free)
    (tables : Traversed k.mem root address t3 t2 t1)
    (mapped : pageAt k.mem root (indices address) = some frame) :
    (∃ k', k.vmUnmap root address = some (k', true) ∧ RemovedPage root address t3 t2 t1 k k') ↔
      TablesShown k root address t3 t2 t1 := by
  have base1 := pageAt_pageBase wf.base tables.table1
  have base2 := pageAt_pageBase wf.base tables.table2
  have base3 := pageAt_pageBase wf.base tables.table3
  rw [vmUnmap_mapped wf.base tables mapped]
  constructor
  · rintro ⟨k', call, removed⟩
    simp only [Option.bind_eq_some_iff, Option.some.injEq, Prod.mk.injEq, and_true] at call
    rcases call with ⟨empty1, test1, empty2, test2, empty3, test3, rfl⟩
    rcases cutOff_iff wf tables mapped empty1 empty2 empty3 with ⟨final1, final2, final3⟩
    have right1 : empty1 = !kept1 k.mem address t1 := final1.mp removed.table1
    have right2 : empty2 = !kept2 k.mem address t2 t1 := by
      rw [final2.mp removed.table2, right1, not_kept2]
    have right3 : empty3 = !kept3 k.mem address t3 t2 t1 := by
      rw [final3.mp removed.table3, right2, not_kept3]
    rw [right1] at test1 test2
    rw [right2, right1] at test3
    rw [right2] at test2
    rw [right3] at test3
    constructor
    · exact (freePageTable_iff base1 _).mp test1
    · exact (freePageTable_iff base2 _).mp test2
    · exact (freePageTable_iff base3 _).mp test3
  · rintro ⟨shows1, shows2, shows3⟩
    have both2 := not_kept2 k.mem address t2 t1
    have both3 := not_kept3 k.mem address t3 t2 t1
    let k' := k.detach root address t3 t2 t1 (!kept1 k.mem address t1) (!kept2 k.mem address t2 t1)
      (!kept3 k.mem address t3 t2 t1)
    have tidy : Tidy root address free k k' :=
      tidy_detach wf tables mapped id (fun empty => both2 ▸ empty) (fun empty => both3 ▸ empty)
    rcases cutOff_iff wf tables mapped (!kept1 k.mem address t1) (!kept2 k.mem address t2 t1)
      (!kept3 k.mem address t3 t2 t1) with ⟨final1, final2, final3⟩
    have removed : RemovedPage root address t3 t2 t1 k k' := by
      refine ⟨tidy.gone, ?_, final1.mpr rfl, final2.mpr both2, final3.mpr both3⟩
      exact fun b other => tidy.others b (fun same => other ((indices_eq_iff _ _).mp same))
    refine ⟨k'.invalidateTlb address, ?_, removed.invalidateTlb⟩
    simp only [(freePageTable_iff base1 _).mpr shows1, (freePageTable_iff base2 _).mpr shows2,
      (freePageTable_iff base3 _).mpr shows3, Option.bind_some, k']

section Identity

variable {k' : Kernel} {table : Nat} {kept : Bool}

theorem detach_activeRoot (empty1 empty2 empty3 : Bool) :
    (k.detach root address t3 t2 t1 empty1 empty2 empty3).activeRoot = k.activeRoot := rfl

theorem slot_present (m : Mem) (table : Nat) (i : Fin 512) :
    (slot m table i).present = true ↔ (m (table + 8 * i)).toNat % 2 = 1 := by
  simp only [slot, PageTableEntry.decode, PageTableEntry.bit, readLE, pow_zero, Nat.div_one,
    decide_eq_true_eq]
  omega

theorem shows_of_identity (tidy : Tidy root address free k k') (active : k'.activeRoot = root)
    (low : table < 2 ^ 47) (other : pageNumber table ≠ pageNumber address) {mapping : Mapping}
    (found : walk k.mem root table = some mapping) (identity : mapping.frame = table)
    (right : (∀ j, (slot k'.mem table j).present = false) ↔ (!kept) = true) :
    Shows k' table kept := by
  refine ⟨low, mapping, ?_, ?_⟩
  · rw [active, tidy.others table (fun same => other ((indices_eq_iff _ _).mp same)), found]
  · have bits : (∃ j, (slot k'.mem table j).present = true) ↔ kept = true := by
      rw [← not_iff_not]
      simpa using right
    simpa only [identity, slot_present] using bits

theorem tablesShown_of_identity (wf : WellFormed TablePath k root free)
    (active : k.activeRoot = root) (tables : Traversed k.mem root address t3 t2 t1)
    (mapped : pageAt k.mem root (indices address) = some frame)
    (identity : ∀ table ∈ [t1, t2, t3], table < 2 ^ 47 ∧ pageNumber table ≠ pageNumber address ∧
      ∃ mapping, walk k.mem root table = some mapping ∧ mapping.frame = table) :
    TablesShown k root address t3 t2 t1 := by
  rcases identity t1 (by simp) with ⟨low1, other1, _, found1, same1⟩
  rcases identity t2 (by simp) with ⟨low2, other2, _, found2, same2⟩
  rcases identity t3 (by simp) with ⟨low3, other3, _, found3, same3⟩
  have both2 := not_kept2 k.mem address t2 t1
  have both3 := not_kept3 k.mem address t3 t2 t1
  have tidy1 : Tidy root address free k (k.detach root address t3 t2 t1 false false false) :=
    tidy_detach wf tables mapped (by simp) (by simp) (by simp)
  have tidy2 : Tidy root address free k
      (k.detach root address t3 t2 t1 (!kept1 k.mem address t1) false false) :=
    tidy_detach wf tables mapped id (by simp) (by simp)
  have tidy3 : Tidy root address free k
      (k.detach root address t3 t2 t1 (!kept1 k.mem address t1)
        (!kept2 k.mem address t2 t1) false) :=
    tidy_detach wf tables mapped id (fun empty => both2 ▸ empty) (by simp)
  constructor
  · apply shows_of_identity tidy1 ((detach_activeRoot _ _ _).trans active) low1 other1 found1 same1
    exact (detach_empty wf tables mapped _ _ _).1
  · apply shows_of_identity tidy2 ((detach_activeRoot _ _ _).trans active) low2 other2 found2 same2
    rw [both2]
    exact (detach_empty wf tables mapped _ _ _).2.1
  · apply shows_of_identity tidy3 ((detach_activeRoot _ _ _).trans active) low3 other3 found3 same3
    rw [both3]
    exact (detach_empty wf tables mapped _ _ _).2.2

end Identity

end Detach

/-- `vm_unmap` does its work exactly when the pages that happen to be mapped at the physical
addresses of the tables show what the tables hold. -/
theorem vmUnmap_removes_iff {k : Kernel} {root address : Nat} {free : List Nat}
    (wf : WellFormed TablePath k root free)
    (small : SlotsHold (SmallOn (indices address)) k.mem root) :
    UnmapsOnePage k root address ↔ ShowsTables k root address := by
  cases mapped : pageAt k.mem root (indices address) with
  | none =>
      have absent := walk_of_unmapped small mapped
      simp [UnmapsOnePage, ShowsTables, absent, vmUnmap_unmapped wf.base small mapped]
  | some frame =>
      rcases walk_of_mapped mapped with ⟨mapping, found, _⟩
      simp only [UnmapsOnePage, ShowsTables, found, reduceCtorEq, false_implies, true_and, ne_eq,
        not_false_eq_true, forall_const]
      constructor
      · intro unmaps t3 t2 t1 tables
        exact (unmap_mapped_iff wf tables mapped).mp (unmaps t3 t2 t1 tables)
      · intro shows t3 t2 t1 tables
        exact (unmap_mapped_iff wf tables mapped).mpr (shows t3 t2 t1 tables)

/-! The empty machine after one `vm_map`. -/

theorem bare_mapped : ∃ k free frame,
    bareKernel.vmMap 0x1000 0x400000 true true false = (k, true) ∧
      Extends (fun _ => True) 0x1000 (indices 0x400000) true true false bareKernel
        barePages k free ∧
      pageAt k.mem 0x1000 (indices 0x400000) = some frame :=
  bare_vmMap 0x400000 true true false

section Mapped

variable {k : Kernel} {free : List Nat} {frame : Nat}
  (grown : Extends (fun _ =>
    True) 0x1000 (indices 0x400000) true true false bareKernel barePages k free)

include grown

theorem mapped_wellFormed : WellFormed TablePath k 0x1000 free :=
  grown.wellFormed.mono (fun _ _ => trivial) (fun _ short => short)

theorem mapped_active : k.activeRoot = 0x1000 := by
  rw [Kernel.activeRoot, grown.control.2]
  decide

theorem mapped_small : SlotsHold (SmallOn (indices 0x400000)) k.mem 0x1000 :=
  grown.slots _ (smallOn_stable _ _ _ _ _) (bare_slots fun _ _ _ => rfl)

theorem mapped_walk {v : Nat} {mapping : Mapping} (found : walk k.mem 0x1000 v = some mapping) :
    indices v = indices 0x400000 := by
  by_contra other
  rw [grown.walks v other, show walk bareKernel.mem 0x1000 v = none from bare_walk v] at found
  cases found

theorem mapped_frame (mapped : pageAt k.mem 0x1000 (indices 0x400000) = some frame) {v : Nat}
    {mapping : Mapping} (found : walk k.mem 0x1000 v = some mapping) (path : List (Fin 512))
    (short : path.length < 4) : pageAt k.mem 0x1000 path ≠ some mapping.frame := by
  intro reached
  rcases walk_of_mapped mapped with ⟨mapping', found', same⟩
  rw [walk_indices _ _ (mapped_walk grown found), found', Option.some.injEq] at found
  rw [← found, same] at reached
  have both := grown.wellFormed.unshared _ _ frame trivial trivial reached mapped
  rw [both] at short
  simp [indices] at short

theorem mapped_fault (mapped : pageAt k.mem 0x1000 (indices 0x400000) = some frame) :
    k.vmUnmap 0x1000 0x400000 = none := by
  rcases traversed_of_mapped mapped with ⟨t3, t2, t1, tables⟩
  have listed : t1 ∈ barePages := by
    rcases grown.added _ t1 tables.table1 with before | ⟨_, member⟩
    · cases (bare_pageAt before).1
    · exact member
  have low : t1 < 0x400000 :=
    (show ∀ page ∈ barePages, page < 0x400000 by decide) t1 listed
  have wf := mapped_wellFormed grown
  have gone : walk (cutIf true k.mem t1 (level1 0x400000)) 0x1000 t1 = none := by
    by_cases inside : [level4 0x400000, level3 0x400000, level2 0x400000] ++ [level1 0x400000] <+:
        indices t1
    · exact cut_inside wf (by simp) tables.table1 inside
    · rw [cut_outside wf (by simp) tables.table1 inside]
      cases found : walk k.mem 0x1000 t1 with
      | none => rfl
      | some mapping =>
          have same := (indices_eq_iff _ _).mp (mapped_walk grown found)
          unfold pageNumber at same
          omega
  have active : k.activeRoot = 0x1000 := mapped_active grown
  have fault : (k.detach 0x1000 0x400000 t3 t2 t1 false false false).freePageTable t1 = none := by
    apply freePageTable_fault (by omega)
    intro _
    change walk (cutIf true k.mem t1 (level1 0x400000)) k.activeRoot t1 = none
    rw [active, gone]
  rw [vmUnmap_mapped wf.base tables mapped]
  simp only [fault, Option.bind_none]

end Mapped

theorem bare_mapped_removes_iff :
    ∃ k, bareKernel.vmMap 0x1000 0x400000 true true false = (k, true) ∧
      (UnmapsOnePage k 0x1000 0x400000 ↔ ShowsTables k 0x1000 0x400000) := by
  rcases bare_mapped with ⟨k, free, frame, call, grown, mapped⟩
  exact ⟨k, call, vmUnmap_removes_iff (mapped_wellFormed grown) (mapped_small grown)⟩

theorem bare_unmap_faults :
    ∃ k free, bareKernel.vmMap 0x1000 0x400000 true true false = (k, true) ∧
      WellFormed TablePath k 0x1000 free ∧ k.activeRoot = 0x1000 ∧
      SlotsHold (SmallOn (indices 0x400000)) k.mem 0x1000 ∧
      walk k.mem 0x1000 0x400000 ≠ none ∧ k.vmUnmap 0x1000 0x400000 = none := by
  rcases bare_mapped with ⟨k, free, frame, call, grown, mapped⟩
  rcases walk_of_mapped mapped with ⟨mapping, found, _⟩
  exact ⟨k, free, call, mapped_wellFormed grown, mapped_active grown, mapped_small grown,
    by simp [found], mapped_fault grown mapped⟩

end PaintKernel
