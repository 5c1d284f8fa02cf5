import Mathlib
import PaintKernel.VmMap
import PaintKernel.VmProtect
import PaintKernel.Library.Run

set_option autoImplicit false

/-! The page tables of the lower half as a finite map from pages to frames and rights. -/

namespace PaintKernel

open ByteMemory RadixTree LinkedList Transition

def LowerPath (path : List (Fin 512)) : Prop := ∀ i ∈ path.head?, i.val < 256

def TablePath (path : List (Fin 512)) : Prop := path.length < 4

def SmallLower (path : List (Fin 512)) (e : PageTableEntry) : Prop :=
  LowerPath path → path.length = 2 ∨ path.length = 3 → e.pageSize = false

/-- A present entry of the lower half that points to a table grants every right. -/
def OpenLower (path : List (Fin 512)) (e : PageTableEntry) : Prop :=
  LowerPath path → path.length ≤ 3 → e.present = true →
    e.kernel = true ∧ e.writable = true ∧ e.noExecute = false

def LowerHalfEmpty (m : Mem) (root : Nat) : Prop :=
  ∀ i : Fin 512, i.val < 256 → (slot m root i).present = false

inductive Call where
  | map (address : Nat) (user writable executable : Bool)
  | protect (address : Nat) (user writable executable : Bool)

def Call.address : Call → Nat
  | .map address .. | .protect address .. => address

def Call.run (k : Kernel) (root : Nat) : Call → Kernel × Bool
  | .map address user writable executable => k.vmMap root address user writable executable
  | .protect address user writable executable => k.vmProtect root address user writable executable

/-- A call on a page-aligned lower-half address with at least four pages free. -/
structure CallStep (root : Nat) (k : Kernel) (event : Call × Bool) (k' : Kernel) : Prop where
  aligned : event.1.address % 4096 = 0
  lower : LowerHalf event.1.address
  room : ∃ free, k.FreeList free ∧ 4 ≤ free.length
  returns : event.1.run k root = (k', event.2)

abbrev PageMap := Nat → Option Mapping

/-- Mapping takes some fresh frame for an unmapped page and fails on a mapped one;
protecting changes the rights of a mapped page and fails on an unmapped one. -/
inductive PageMap.Step (fresh : Nat → Prop) : PageMap → Call × Bool → PageMap → Prop where
  | mapNew {A : PageMap} {address frame : Nat} {user writable executable : Bool}
      (unmapped : A (pageNumber address) = none) (new : fresh frame) :
      Step fresh A (.map address user writable executable, true)
        (Function.update A (pageNumber address) (some ⟨frame, user, writable, executable⟩))
  | mapOld {A : PageMap} {address : Nat} {user writable executable : Bool} {mapping : Mapping}
      (mapped : A (pageNumber address) = some mapping) :
      Step fresh A (.map address user writable executable, false) A
  | protectOld {A : PageMap} {address : Nat} {user writable executable : Bool} {mapping : Mapping}
      (mapped : A (pageNumber address) = some mapping) :
      Step fresh A (.protect address user writable executable, true)
        (Function.update A (pageNumber address) (some ⟨mapping.frame, user, writable, executable⟩))
  | protectNew {A : PageMap} {address : Nat} {user writable executable : Bool}
      (unmapped : A (pageNumber address) = none) :
      Step fresh A (.protect address user writable executable, false) A

def Represents (A : PageMap) (m : Mem) (root : Nat) : Prop :=
  ∀ address, walk m root address = A (pageNumber address)

def FreshFrame (k k' : Kernel) (frame : Nat) : Prop :=
  (∃ free, k.FreeList free ∧ frame ∈ free) ∧ ∀ n, frame ≤ n → n < frame + 4096 → k'.mem n = 0

/-- One call next to the update of the abstract map that it stands for. The kernels are those
before and after the call. -/
structure RefinedCall (root : Nat) (s : Kernel × PageMap) (event : Call × Bool)
    (s' : Kernel × PageMap) : Prop where
  call : CallStep root s.1 event s'.1
  wellFormed : ∃ free, WellFormed TablePath s'.1 root free
  small : SlotsHold SmallLower s'.1.mem root
  update : PageMap.Step (FreshFrame s.1 s'.1) s.2 event s'.2
  represents : Represents s'.2 s'.1.mem root

section Lower

variable {m : Mem} {root address t3 t2 t1 : Nat}

theorem lowerPath_indices (lower : LowerHalf address) {path : List (Fin 512)}
    (inside : path <+: indices address) : LowerPath path := by
  intro i member
  obtain ⟨rest, split⟩ := inside
  cases path with
  | nil => cases member
  | cons j path =>
      simp only [List.head?_cons, Option.mem_def, Option.some.injEq] at member
      simp only [indices, List.cons_append, List.cons.injEq] at split
      rw [← member, split.1]
      exact lower

theorem smallOn_of_lower (lower : LowerHalf address) (small : SlotsHold SmallLower m root) :
    SlotsHold (SmallOn (indices address)) m root :=
  fun path table index short reached inside =>
    small path table index short reached (lowerPath_indices lower inside)

theorem slotsHold_of_empty (empty : LowerHalfEmpty m root)
    {Φ : List (Fin 512) → PageTableEntry → Prop}
    (holds : ∀ path e, (LowerPath path → path.length = 1 ∧ e.present = false) → Φ path e) :
    SlotsHold Φ m root := by
  intro path table index short reached
  apply holds
  intro lower
  cases path with
  | nil =>
      cases reached
      exact ⟨rfl, empty index (lower index rfl)⟩
  | cons i path =>
      have absent := empty i (lower i rfl)
      simp only [pageAt, follow, nextTable_absent absent] at reached
      cases reached

theorem smallLower_of_empty (empty : LowerHalfEmpty m root) : SlotsHold SmallLower m root := by
  refine slotsHold_of_empty empty ?_
  intro path e below lower depth
  have := (below lower).1
  omega

theorem openLower_of_empty (empty : LowerHalfEmpty m root) : SlotsHold OpenLower m root := by
  refine slotsHold_of_empty empty ?_
  intro path e below lower _ present
  rw [(below lower).2] at present
  cases present

theorem smallLower_stable (address : Nat) (user writable executable : Bool) :
    Stable SmallLower (indices address) user writable executable where
  blank := fun _ _ _ => rfl
  table := fun _ _ _ _ _ _ small => small
  leaf := fun _ _ _ small => small

theorem openLower_stable (address : Nat) (user writable executable : Bool) :
    Stable OpenLower (indices address) user writable executable where
  blank := by
    intro other _ _ present
    cases present
  table := fun _ _ _ _ _ _ _ _ _ _ => ⟨rfl, rfl, rfl⟩
  leaf := by
    intro e page _ _ _ bound
    simp [indices] at bound

theorem walk_of_open (lower : LowerHalf address) (granted : SlotsHold OpenLower m root)
    (tables : Traversed m root address t3 t2 t1)
    (present : (slot m t1 (level1 address)).present = true) :
    walk m root address = some {
      frame := (slot m t1 (level1 address)).target
      user := (slot m t1 (level1 address)).kernel
      writable := (slot m t1 (level1 address)).writable
      executable := !(slot m t1 (level1 address)).noExecute } := by
  have grant4 := granted [] root (level4 address) (by simp) rfl
    (lowerPath_indices lower ⟨_, rfl⟩) (by simp) (nextTable_eq_some tables.entry4).1
  have grant3 := granted _ t3 (level3 address) (by simp) tables.table3
    (lowerPath_indices lower ⟨_, rfl⟩) (by simp) (nextTable_eq_some tables.entry3).1
  have grant2 := granted _ t2 (level2 address) (by simp) tables.table2
    (lowerPath_indices lower ⟨_, rfl⟩) (by simp) (nextTable_eq_some tables.entry2).1
  rw [tables.walk_eq, if_pos present]
  simp [Mapping.ofEntries, grant4, grant3, grant2]

theorem walk_of_leaf {table frame : Nat} (lower : LowerHalf address)
    (granted : SlotsHold OpenLower m root) (mapped : pageAt m root (indices address) = some frame)
    (found : pageAt m root [level4 address, level3 address, level2 address] = some table) :
    walk m root address = some {
      frame := frame
      user := (slot m table (level1 address)).kernel
      writable := (slot m table (level1 address)).writable
      executable := !(slot m table (level1 address)).noExecute } := by
  rcases traversed_of_mapped mapped with ⟨t3, t2, t1, tables⟩
  have same : t1 = table := by
    apply Option.some.inj
    calc
      some t1 = pageAt m root [level4 address, level3 address, level2 address] := tables.table1.symm
      _ = some table := found
  subst same
  have leaf := tables.leaf.symm.trans mapped
  rw [walk_of_open lower granted tables (nextTable_eq_some leaf).1, (nextTable_eq_some leaf).2]

end Lower

theorem represents_update {A : PageMap} {m m' : Mem} {root address : Nat} {value : Option Mapping}
    (represents : Represents A m root)
    (others : ∀ b, indices b ≠ indices address → walk m' root b = walk m root b)
    (here : walk m' root address = value) :
    Represents (Function.update A (pageNumber address) value) m' root := by
  intro b
  by_cases same : pageNumber b = pageNumber address
  · rw [same, Function.update_self,
      walk_indices m' root ((indices_eq_iff b address).mpr same), here]
  · rw [Function.update_of_ne same,
      others b (fun equal => same ((indices_eq_iff b address).mp equal)), represents]

section Lower

variable {owned : List (Fin 512) → Prop} {root address frame : Nat} {k : Kernel} {free : List Nat}

/-- Mapping an unmapped page of the lower half grants exactly the requested rights. -/
theorem vmMap_lower (user writable executable : Bool) (wf : WellFormed owned k root free)
    (small : SlotsHold SmallLower k.mem root) (granted : SlotsHold OpenLower k.mem root)
    (lower : LowerHalf address) (unmapped : pageAt k.mem root (indices address) = none)
    (room : 4 ≤ free.length) :
    ∃ k' free' frame, k.vmMap root address user writable executable = (k', true) ∧
      Extends owned root (indices address) user writable executable k free k' free' ∧
      pageAt k'.mem root (indices address) = some frame ∧ frame ∈ free ∧
      (∀ n, frame ≤ n → n < frame + 4096 → k'.mem n = 0) ∧
      walk k'.mem root address = some ⟨frame, user, writable, executable⟩ ∧
      free.length ≤ free'.length + 4 := by
  have levels := absentLevels_le k.mem root [] (indices address)
  have size : (indices address).length = 4 := rfl
  rcases vmMap_unmapped user writable executable wf (smallOn_of_lower lower small) unmapped
    (by omega) with ⟨k', free', frame, result, grown, mapped, member, zero,
      ⟨table, old, found, entry⟩, cost⟩
  refine ⟨k', free', frame, result, grown, mapped, member, zero, ?_, cost⟩
  rw [walk_of_leaf lower (grown.slots _ (openLower_stable address _ _ _) granted) mapped found,
    entry]
  simp [populate]

theorem vmProtect_lower (user writable executable : Bool) (wf : WellFormed owned k root free)
    (granted : SlotsHold OpenLower k.mem root) (lower : LowerHalf address)
    (mapped : pageAt k.mem root (indices address) = some frame) :
    ∃ k', k.vmProtect root address user writable executable = (k', true) ∧
      Retagged owned root address user writable executable k free k' ∧
      walk k'.mem root address = some ⟨frame, user, writable, executable⟩ := by
  rcases vmProtect_mapped user writable executable wf mapped with ⟨k', result, changed⟩
  refine ⟨k', result, changed, ?_⟩
  rcases changed.leaf with ⟨table, old, found, entry⟩
  have kept : SlotsHold OpenLower k'.mem root :=
    changed.slots OpenLower (fun _ _ _ bound => by simp [indices] at bound) granted
  rw [walk_of_leaf lower kept ((changed.same (indices address)).trans mapped) found, entry]
  simp [retag]

end Lower

structure Tracked (root : Nat) (k : Kernel) (A : PageMap) : Prop where
  wellFormed : ∃ free, WellFormed TablePath k root free
  small : SlotsHold SmallLower k.mem root
  granted : SlotsHold OpenLower k.mem root
  represents : Represents A k.mem root

section Calls

variable {root address : Nat} {k k' : Kernel} {A : PageMap}
  {user writable executable returned : Bool}

theorem vmMap_tracked (tracked : Tracked root k A) (lower : LowerHalf address)
    (room : ∃ free, k.FreeList free ∧ 4 ≤ free.length)
    (call : k.vmMap root address user writable executable = (k', returned)) :
    ∃ A', PageMap.Step (FreshFrame k k') A (.map address user writable executable, returned) A' ∧
      Tracked root k' A' := by
  rcases tracked.wellFormed with ⟨free, wf⟩
  cases reached : pageAt k.mem root (indices address) with
  | some frame =>
      rw [vmMap_mapped wf reached, Prod.mk.injEq] at call
      rcases call with ⟨rfl, rfl⟩
      rcases walk_of_mapped reached with ⟨mapping, found, _⟩
      exact ⟨A, .mapOld ((tracked.represents address).symm.trans found), tracked⟩
  | none =>
      rcases room with ⟨list, chain, enough⟩
      have same : list = free := chain_unique chain wf.list
      subst same
      rcases vmMap_lower user writable executable wf tracked.small tracked.granted lower reached
        enough with ⟨k'', free', frame, result, grown, _, member, zero, here, _⟩
      rw [result, Prod.mk.injEq] at call
      rcases call with ⟨rfl, rfl⟩
      refine ⟨_, .mapNew ?_ ⟨⟨list, chain, member⟩, zero⟩, ⟨free', grown.wellFormed⟩,
        grown.slots _ (smallLower_stable address _ _ _) tracked.small,
        grown.slots _ (openLower_stable address _ _ _) tracked.granted,
        represents_update tracked.represents grown.walks here⟩
      rw [← tracked.represents address,
        walk_of_unmapped (smallOn_of_lower lower tracked.small) reached]

theorem vmProtect_tracked (tracked : Tracked root k A) (lower : LowerHalf address)
    (call : k.vmProtect root address user writable executable = (k', returned)) :
    ∃ A', PageMap.Step (FreshFrame k k') A (.protect address user writable executable,
      returned) A' ∧
      Tracked root k' A' := by
  rcases tracked.wellFormed with ⟨free, wf⟩
  have small := smallOn_of_lower lower tracked.small
  cases reached : pageAt k.mem root (indices address) with
  | none =>
      rw [vmProtect_unmapped wf small reached, Prod.mk.injEq] at call
      rcases call with ⟨rfl, rfl⟩
      refine ⟨A, .protectNew ?_, tracked⟩
      rw [← tracked.represents address, walk_of_unmapped small reached]
  | some frame =>
      rcases vmProtect_lower user writable executable wf tracked.granted lower reached with
        ⟨k'', result, changed, here⟩
      rw [result, Prod.mk.injEq] at call
      rcases call with ⟨rfl, rfl⟩
      rcases walk_of_mapped reached with ⟨mapping, before, rfl⟩
      exact ⟨_, .protectOld ((tracked.represents address).symm.trans before),
        ⟨free, changed.wellFormed⟩, changed.slots SmallLower (fun _ kept => kept) tracked.small,
        changed.slots OpenLower (fun _ _ _ bound => by simp [indices] at bound) tracked.granted,
        represents_update tracked.represents changed.walks here⟩

theorem callStep_run (root : Nat) (call : Call) (aligned : call.address % 4096 = 0)
    (lower : LowerHalf call.address) (room : ∃ free, k.FreeList free ∧ 4 ≤ free.length) :
    CallStep root k (call, (call.run k root).2) (call.run k root).1 :=
  ⟨aligned, lower, room, rfl⟩

theorem callStep_tracked {event : Call × Bool} (tracked : Tracked root k A)
    (step : CallStep root k event k') :
    ∃ A', PageMap.Step (FreshFrame k k') A event A' ∧ Tracked root k' A' := by
  obtain ⟨call, returned⟩ := event
  cases call with
  | map address user writable executable =>
      exact vmMap_tracked tracked step.lower step.room step.returns
  | protect address user writable executable =>
      exact vmProtect_tracked tracked step.lower step.returns

/-- From an empty lower half, every sequence of `vm_map` and `vm_protect` calls is a run of
the abstract page map. -/
theorem vm_calls_refine_page_map {free : List Nat} {events : List (Call × Bool)}
    (wf : WellFormed TablePath k root free) (empty : LowerHalfEmpty k.mem root)
    (represents : Represents A k.mem root) (run : Run (CallStep root) k events k') :
    ∃ A', Run (RefinedCall root) (k, A) events (k', A') := by
  have initial : Tracked root k A :=
    ⟨⟨free, wf⟩, smallLower_of_empty empty, openLower_of_empty empty, represents⟩
  have simulates : ∀ s (t : Kernel × PageMap) event next, t.1 = s ∧ Tracked root s t.2 →
      CallStep root s event next →
      ∃ t', RefinedCall root t event t' ∧ t'.1 = next ∧ Tracked root next t'.2 := by
    rintro s ⟨_, A⟩ event next ⟨rfl, tracked⟩ step
    obtain ⟨A', update, after⟩ := callStep_tracked tracked step
    exact ⟨(next, A'), ⟨step, after.wellFormed, after.small, update, after.represents⟩, rfl, after⟩
  obtain ⟨⟨last, A'⟩, refined, same, _⟩ :=
    simulation (fun k s => s.1 = k ∧ Tracked root k s.2) simulates run (t := (k, A)) ⟨rfl, initial⟩
  subst same
  exact ⟨A', refined⟩

end Calls

/-! A machine with an empty address space: the top-level table in page 1 and the free list
in pages 2 to 13. -/

def bareMem : Mem := fun n =>
  if n % 4096 = 9 ∧ 2 ≤ n / 4096 ∧ n / 4096 ≤ 12 then UInt8.ofNat ((n / 4096 + 1) * 16) else 0

def bareKernel : Kernel where
  mem := bareMem
  freelist := 0x2000
  virtualOffset := 0xFFFF800000000000
  cr0 := 0x80010011
  cr3 := 0x1000
  tlb := fun _ => none
  offset_lt := by decide

def barePages : List Nat := (List.range' 2 12).map (4096 * ·)

theorem bare_slot (i : Fin 512) : slot bareMem 0x1000 i = .decode 0 := by
  apply slot_zero
  intro n lower upper
  exact if_neg (by omega)

theorem bare_blank (i : Fin 512) : (slot bareMem 0x1000 i).present = false := by
  rw [bare_slot]
  rfl

theorem bare_pageAt {path : List (Fin 512)} {page : Nat}
    (reached : pageAt bareMem 0x1000 path = some page) : path = [] ∧ page = 0x1000 :=
  pageAt_of_blank bare_blank reached

theorem bare_freeList : bareKernel.FreeList barePages := by
  unfold Kernel.FreeList
  decide

theorem bare_wellFormed {owned : List (Fin 512) → Prop}
    (tables : ∀ path : List (Fin 512), path.length < 4 → owned path) :
    WellFormed owned bareKernel 0x1000 barePages := by
  refine wellFormed_of_blank ⟨by decide, by decide⟩ bare_blank tables bare_freeList ?_ (by decide)
  unfold PageBase
  decide

theorem bare_empty : LowerHalfEmpty bareMem 0x1000 := fun i _ => bare_blank i

theorem bare_walk : Represents (fun _ => none) bareMem 0x1000 := by
  intro address
  simp [walk, bare_slot]

theorem bare_slots {Φ : List (Fin 512) → PageTableEntry → Prop}
    (blank : ∀ path, Φ path (.decode 0)) :
    SlotsHold Φ bareMem 0x1000 := slotsHold_of_blank bare_slot blank

theorem bare_vmMap (address : Nat) (user writable executable : Bool) : ∃ k free frame,
    bareKernel.vmMap 0x1000 address user writable executable = (k, true) ∧
      Extends (fun _ => True) 0x1000 (indices address) user writable executable bareKernel
        barePages k free ∧
      pageAt k.mem 0x1000 (indices address) = some frame := by
  have wf : WellFormed (fun _ => True) bareKernel 0x1000 barePages :=
    bare_wellFormed fun _ _ => trivial
  have unmapped : pageAt bareKernel.mem 0x1000 (indices address) = none := by
    cases reached : pageAt bareKernel.mem 0x1000 (indices address) with
    | none => rfl
    | some page => cases (bare_pageAt reached).1
  have enough : (indices address).length ≤ barePages.length := show 4 ≤ barePages.length by decide
  rcases vmMap_unmapped user writable executable wf (bare_slots fun _ _ _ => rfl) unmapped
    (Nat.le_trans (absentLevels_le _ _ _ _) enough) with ⟨k, free, frame, call, grown, mapped, _⟩
  exact ⟨k, free, frame, call, grown, mapped⟩

def bareCall : Call := .map 0x400000 true true false

theorem bare_map_refines :
    ∃ A', Run (RefinedCall 0x1000) (bareKernel, fun _ => none)
      [(bareCall, (bareCall.run bareKernel 0x1000).2)]
      ((bareCall.run bareKernel 0x1000).1, A') := by
  have step := callStep_run 0x1000 bareCall (by decide)
    (by unfold LowerHalf; decide) ⟨barePages, bare_freeList, by decide⟩
  exact vm_calls_refine_page_map (bare_wellFormed fun _ short => short) bare_empty bare_walk
    (.cons step (.nil _))

end PaintKernel
