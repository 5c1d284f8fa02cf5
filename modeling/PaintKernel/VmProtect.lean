import Mathlib
import PaintKernel.Traversal

set_option autoImplicit false

/-! Finding the tables of an address, rewriting one entry, and `vm_protect`. -/

namespace PaintKernel

open ByteMemory RadixTree LinkedList

section FindTables

variable {owned : List (Fin 512) → Prop} {k : Kernel} {root address frame t3 t2 t1 : Nat}
  {free : List Nat}

theorem findTables_eq (k : Kernel) (address : Nat) (base : PageBase root) :
    k.findTables root address =
      if (entryAt4 k.mem root address).present = true ∧
        (entryAt3 k.mem root address).present = true ∧
        (entryAt2 k.mem root address).present = true ∧ (entryAt1 k.mem root address).present = true
      then some ((entryAt4 k.mem root address).target, (entryAt3 k.mem root address).target,
        (entryAt2 k.mem root address).target)
      else none := by
  have load := fun table (bound : table < 2 ^ 52) (i : Fin 512) => k.loadEntry_eq_slot i bound
  have bounded := fun e : PageTableEntry => (target_pageBase e).2
  simp only [Kernel.findTables, load root base.2, load _ (bounded _), entryAt1, entryAt2,
    entryAt3, entryAt4]
  split_ifs <;> simp_all

theorem findTables_mapped (base : PageBase root) (tables : Traversed k.mem root address t3 t2 t1)
    (mapped : pageAt k.mem root (indices address) = some frame) :
    k.findTables root address = some (t3, t2, t1) := by
  obtain ⟨present4, target4⟩ := nextTable_eq_some tables.entry4
  obtain ⟨present3, target3⟩ := nextTable_eq_some tables.entry3
  obtain ⟨present2, target2⟩ := nextTable_eq_some tables.entry2
  rw [tables.leaf] at mapped
  have present1 := (nextTable_eq_some mapped).1
  simp only [findTables_eq k address base, entryAt1, entryAt2, entryAt3, entryAt4, target4, target3,
    target2, present4, present3, present2, present1, and_self, if_true]

theorem findTables_unmapped (base : PageBase root)
    (small : SlotsHold (SmallOn (indices address)) k.mem root)
    (unmapped : pageAt k.mem root (indices address) = none) : k.findTables root address = none := by
  rw [findTables_eq _ _ base]
  apply if_neg
  rintro ⟨present4, present3, present2, present1⟩
  have reached3 := small_step small [] rfl rfl present4
  have reached2 := small_step small [level4 address] rfl reached3 present3
  have reached1 := small_step small [level4 address, level3 address] rfl reached2 present2
  have reached := small_step small [level4 address, level3 address,
    level2 address] rfl reached1 present1
  rw [indices_split, reached] at unmapped
  cases unmapped

end FindTables

section SetSlot

variable {owned : List (Fin 512) → Prop} {k : Kernel} {root t : Nat} {free : List Nat}
  {path : List (Fin 512)} {i : Fin 512} {e : PageTableEntry}

theorem setSlot_update (wf : WellFormed owned k root free) (short : path.length < 4)
    (reached : pageAt k.mem root path = some t) (e : PageTableEntry) :
    SlotUpdate nextTable (slot k.mem) (slot (setSlot k.mem t i e)) 4 root path t i
      (fun page => ¬ PageBase page) where
  deep := fun depth e => nextTable_deep depth e
  short := short
  located := reached
  alone := fun other bounded same =>
    wf.unshared other path t (wf.tables other bounded) (wf.tables path short) same reached
  frame := by
    intro page j inside different
    have aligned := (not_not.mp inside).1
    have alignedT := (pageAt_pageBase wf.base reached).1
    exact slot_setSlot_other k.mem e alignedT aligned different
  spared := fun other page _ found outside => outside (pageAt_pageBase wf.base found)

/-- An entry may be rewritten as long as no path reaches a new page. -/
theorem WellFormed.rewriteSlot (wf : WellFormed owned k root free)
    (reached : pageAt k.mem root path = some t)
    (fewer : ∀ other page, pageAt (setSlot k.mem t i e) root other = some page →
      pageAt k.mem root other = some page) :
    WellFormed owned { k with mem := setSlot k.mem t i e } root free where
  base := wf.base
  tables := wf.tables
  unshared := fun left right page ownedLeft ownedRight reachedLeft reachedRight =>
    wf.unshared left right page ownedLeft ownedRight (fewer _ _ reachedLeft)
      (fewer _ _ reachedRight)
  list := by
    refine Kernel.freeList_congr (k := k) wf.list rfl ?_
    intro page member
    have aligned := (wf.pages page member).1.1
    have alignedT := (pageAt_pageBase wf.base reached).1
    have different := wf.table_ne_free member reached
    have bound := i.isLt
    exact Kernel.nextNode_agree (setSlot_agreeOutside k.mem t i e) (by omega)
  pages := wf.pages
  disjoint := fun other page found => wf.disjoint other page (fewer other page found)

theorem setSlot_slots (wf : WellFormed owned k root free) (short : path.length < 4)
    (reached : pageAt k.mem root path = some t)
    (fewer : ∀ other page, pageAt (setSlot k.mem t i e) root other = some page →
      pageAt k.mem root other = some page)
    {Φ : List (Fin 512) → PageTableEntry → Prop} (holds : SlotsHold Φ k.mem root)
    (here : Φ (path ++ [i]) e) : SlotsHold Φ (setSlot k.mem t i e) root := by
  have update := setSlot_update (i := i) wf short reached e
  intro other table j bounded found
  have before := fewer other table found
  by_cases same : table = t ∧ j = i
  · obtain ⟨rfl, rfl⟩ := same
    rw [update.alone other bounded before, slot_setSlot]
    exact here
  · rw [update.frame table j (update.spared other table bounded before) same]
    exact holds other table j bounded before

theorem leaf_walk (wf : WellFormed owned k root free) {address b : Nat}
    (reached : pageAt k.mem root [level4 address, level3 address, level2 address] = some t)
    (e : PageTableEntry) (other : indices b ≠ indices address) :
    walk (setSlot k.mem t (level1 address) e) root b = walk k.mem root b := by
  apply walk_congr
  apply (setSlot_update wf (by simp) reached e).entries_off (by simp [indices])
  intro inside
  exact other (inside.eq_of_length (by simp [indices])).symm

end SetSlot

def retag (e : PageTableEntry) (user writable executable : Bool) : PageTableEntry :=
  { e with
    kernel := user
    writable := writable
    noExecute := !executable }

theorem nextTable_retag (depth : Nat) (e : PageTableEntry) (user writable executable : Bool) :
    nextTable depth (retag e user writable executable) = nextTable depth e := by
  unfold nextTable
  split <;> rfl

structure Retagged (owned : List (Fin 512) → Prop) (root address : Nat)
    (user writable executable : Bool) (k : Kernel) (free : List Nat) (k' : Kernel) : Prop where
  wellFormed : WellFormed owned k' root free
  same : ∀ other, pageAt k'.mem root other = pageAt k.mem root other
  walks : ∀ b, indices b ≠ indices address → walk k'.mem root b = walk k.mem root b
  slots : ∀ Φ : List (Fin 512) → PageTableEntry → Prop,
    (∀ e, Φ (indices address) e → Φ (indices address) (retag e user writable executable)) →
    SlotsHold Φ k.mem root → SlotsHold Φ k'.mem root
  leaf : ∃ table old,
    pageAt k'.mem root [level4 address, level3 address, level2 address] = some table ∧
    slot k'.mem table (level1 address) = retag old user writable executable
  bytes : ∀ n, (∀ other table, other.length < 4 → pageAt k.mem root other = some table →
    n < table ∨ table + 4096 ≤ n) → k'.mem n = k.mem n
  offset : k'.virtualOffset = k.virtualOffset
  control : k'.cr0 = k.cr0 ∧ k'.cr3 = k.cr3
  head : k'.freelist = k.freelist

section VmProtect

variable {owned : List (Fin 512) → Prop} {k : Kernel} {root address frame : Nat} {free : List Nat}
  {user writable executable : Bool}

theorem vmProtect_mapped (user writable executable : Bool) (wf : WellFormed owned k root free)
    (mapped : pageAt k.mem root (indices address) = some frame) :
    ∃ k', k.vmProtect root address user writable executable = (k', true) ∧
      Retagged owned root address user writable executable k free k' := by
  obtain ⟨t3, t2, t1, tables⟩ := traversed_of_mapped mapped
  let e := retag (slot k.mem t1 (level1 address)) user writable executable
  have bound := (pageAt_pageBase wf.base tables.table1).2
  have update := setSlot_update (i := level1 address) wf (by simp) tables.table1 e
  have same : ∀ other, pageAt (setSlot k.mem t1 (level1 address) e) root other =
      pageAt k.mem root other := by
    apply update.follow_retag
    rw [slot_setSlot]
    exact nextTable_retag _ _ _ _ _
  have fewer : ∀ other page, pageAt (setSlot k.mem t1 (level1 address) e) root other = some page →
      pageAt k.mem root other = some page := fun other page found => (same other).symm.trans found
  let k' : Kernel := { k with mem := setSlot k.mem t1 (level1 address) e }
  refine ⟨k'.invalidateTlb address, ?_, ?_⟩
  · simp only [Kernel.vmProtect, findTables_mapped wf.base tables mapped,
      k.loadEntry_eq_slot _ bound, k.storeEntry_eq_setSlot _ _ bound]
    rfl
  have wf' : WellFormed owned k' root free := wf.rewriteSlot tables.table1 fewer
  refine ⟨{ wf' with }, same, ?_, ?_,
    ⟨t1, _, (same _).trans tables.table1, slot_setSlot _ _ _ _⟩, ?_,
    rfl, ⟨rfl, rfl⟩, rfl⟩
  · exact fun b other => leaf_walk wf tables.table1 e other
  · intro Φ keeps holds
    apply setSlot_slots wf (by simp) tables.table1 fewer holds
    rw [← indices_split]
    have listed := holds _ t1 (level1 address) (by simp) tables.table1
    exact keeps _ (by simpa only [indices_split] using listed)
  · intro n outside
    have out := outside _ t1 (by simp) tables.table1
    have inRange := (level1 address).isLt
    exact setSlot_agreeOutside k.mem t1 (level1 address) e n (by omega)

theorem vmProtect_unmapped (wf : WellFormed owned k root free)
    (small : SlotsHold (SmallOn (indices address)) k.mem root)
    (unmapped : pageAt k.mem root (indices address) = none) :
    k.vmProtect root address user writable executable = (k, false) := by
  rw [Kernel.vmProtect, findTables_unmapped wf.base small unmapped]

end VmProtect

end PaintKernel
