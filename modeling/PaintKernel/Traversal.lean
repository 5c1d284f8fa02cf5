import Mathlib
import PaintKernel.AddressSpace

set_option autoImplicit false

/-! The tables of a mapped address and the rewriting of one entry in them. -/

namespace PaintKernel

open ByteMemory RadixTree LinkedList

structure Traversed (m : Mem) (root address t3 t2 t1 : Nat) : Prop where
  table3 : pageAt m root [level4 address] = some t3
  table2 : pageAt m root [level4 address, level3 address] = some t2
  table1 : pageAt m root [level4 address, level3 address, level2 address] = some t1

section Entries

variable (m : Mem) (root address : Nat)

/-- The entries on the way to an address when `page_size` is not looked at. -/
def entryAt4 : PageTableEntry := slot m root (level4 address)

def entryAt3 : PageTableEntry := slot m (entryAt4 m root address).target (level3 address)

def entryAt2 : PageTableEntry := slot m (entryAt3 m root address).target (level2 address)

def entryAt1 : PageTableEntry := slot m (entryAt2 m root address).target (level1 address)

end Entries

section Walks

variable {m : Mem} {root address t3 t2 t1 frame : Nat}

theorem traversed_of_mapped (mapped : pageAt m root (indices address) = some frame) :
    ∃ t3 t2 t1, Traversed m root address t3 t2 t1 := by
  obtain ⟨t3, reached3⟩ :=
    follow_front [level4 address] [level3 address, level2 address, level1 address] mapped
  obtain ⟨t2, reached2⟩ :=
    follow_front [level4 address, level3 address] [level2 address, level1 address] mapped
  obtain ⟨t1, reached1⟩ :=
    follow_front [level4 address, level3 address, level2 address] [level1 address] mapped
  exact ⟨t3, t2, t1, reached3, reached2, reached1⟩

theorem Traversed.entry4 (tables : Traversed m root address t3 t2 t1) :
    nextTable 0 (slot m root (level4 address)) = some t3 := by
  have reached := tables.table3
  rwa [← List.nil_append [level4 address], pageAt_snoc (t := root) rfl] at reached

theorem Traversed.entry3 (tables : Traversed m root address t3 t2 t1) :
    nextTable 1 (slot m t3 (level3 address)) = some t2 := by
  have reached := tables.table2
  rwa [← List.singleton_append, pageAt_snoc tables.table3] at reached

theorem Traversed.entry2 (tables : Traversed m root address t3 t2 t1) :
    nextTable 2 (slot m t2 (level2 address)) = some t1 := by
  have reached := tables.table1
  rwa [show [level4 address, level3 address, level2 address] =
    [level4 address, level3 address] ++ [level2 address] from rfl,
      pageAt_snoc tables.table2] at reached

theorem Traversed.leaf (tables : Traversed m root address t3 t2 t1) :
    pageAt m root (indices address) = nextTable 3 (slot m t1 (level1 address)) := by
  rw [indices_split, pageAt_snoc tables.table1]
  rfl

theorem Traversed.walk_eq (tables : Traversed m root address t3 t2 t1) :
    walk m root address =
      if (slot m t1 (level1 address)).present then
        some (.ofEntries (slot m t1 (level1 address)).target [slot m root (level4 address),
          slot m t3 (level3 address), slot m t2 (level2 address), slot m t1 (level1 address)])
      else none := by
  have target3 := (nextTable_eq_some tables.entry4).2
  have target2 := (nextTable_eq_some tables.entry3).2
  rw [walk_eq_leaf tables.table1]
  simp only [target3, target2]

theorem walk_indices (m : Mem) (root : Nat) {a b : Nat} (same : indices a = indices b) :
    walk m root a = walk m root b := by
  simp only [indices, List.cons.injEq, and_true] at same
  obtain ⟨same4, same3, same2, same1⟩ := same
  simp only [walk, same4, same3, same2, same1]

theorem walk_of_mapped (mapped : pageAt m root (indices address) = some frame) :
    ∃ mapping, walk m root address = some mapping ∧ mapping.frame = frame := by
  obtain ⟨t3, t2, t1, tables⟩ := traversed_of_mapped mapped
  rw [tables.leaf] at mapped
  obtain ⟨present, target⟩ := nextTable_eq_some mapped
  refine ⟨_, by rw [tables.walk_eq, if_pos present], target⟩

end Walks

/-- No entry that a walk along `path` meets at level 3 or 2 is marked as a large page. -/
def SmallOn (path other : List (Fin 512)) (e : PageTableEntry) : Prop :=
  other <+: path → other.length = 2 ∨ other.length = 3 → e.pageSize = false

section Small

variable {m : Mem} {root address t : Nat} {before rest path : List (Fin 512)} {i : Fin 512}

theorem smallOn_step (split : before ++ i :: rest = path) (whole : path.length = 4)
    (reached : pageAt m root before = some t) (small : SlotsHold (SmallOn path) m root) :
    before.length = 1 ∨ before.length = 2 → (slot m t i).pageSize = false := by
  intro depth
  have level := before_short split whole
  apply small before t i (by omega) reached ⟨rest, by simpa using split⟩
  rw [List.length_append, List.length_singleton]
  omega

theorem small_step (small : SlotsHold (SmallOn (indices address)) m root) (before : List (Fin 512))
    (split : before ++ i :: rest = indices address) (reached : pageAt m root before = some t)
    (present : (slot m t i).present = true) :
    pageAt m root (before ++ [i]) = some (slot m t i).target := by
  have level := before_short split rfl
  exact pageAt_present reached (by omega) present (smallOn_step split rfl reached small)

theorem walk_of_unmapped (small : SlotsHold (SmallOn (indices address)) m root)
    (unmapped : pageAt m root (indices address) = none) : walk m root address = none := by
  cases present4 : (slot m root (level4 address)).present with
  | false => simp [walk, present4]
  | true =>
  have reached3 := small_step small [] rfl rfl present4
  cases present3 : (slot m (slot m root (level4 address)).target (level3 address)).present with
  | false => simp [walk, present4, present3]
  | true =>
  have reached2 := small_step small [level4 address] rfl reached3 present3
  have size3 := small [level4 address] _ (level3 address) (by simp) reached3
    ⟨[level2 address, level1 address], rfl⟩ (.inl rfl)
  cases present2 : (slot m (slot m (slot m root (level4 address)).target (level3 address)).target
      (level2 address)).present with
  | false => simp [walk, present4, present3, present2, size3]
  | true =>
  have reached1 := small_step small [level4 address, level3 address] rfl reached2 present2
  rw [walk_eq_leaf reached1]
  cases present1 : (slot m (slot m (slot m (slot m root (level4 address)).target
      (level3 address)).target (level2 address)).target (level1 address)).present with
  | false => simp [present1]
  | true =>
      have reached := small_step small [level4 address, level3 address, level2 address]
        rfl reached1 present1
      rw [indices_split, reached] at unmapped
      cases unmapped

theorem walk_none_iff (small : SlotsHold (SmallOn (indices address)) m root) :
    walk m root address = none ↔ pageAt m root (indices address) = none := by
  refine ⟨fun absent => ?_, walk_of_unmapped small⟩
  cases mapped : pageAt m root (indices address) with
  | none => rfl
  | some frame =>
      obtain ⟨mapping, found, _⟩ := walk_of_mapped mapped
      rw [absent] at found
      cases found

end Small

end PaintKernel
