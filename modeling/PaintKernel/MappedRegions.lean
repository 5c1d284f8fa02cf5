import Mathlib
import PaintKernel.KernelMessages
import PaintKernel.MapFailure
import PaintKernel.MmapPointer

set_option autoImplicit false

/-! The region that `sys_mmap` returns and the pages that it maps. -/

namespace PaintKernel

open ByteMemory RadixTree LinkedList

def touchedPages (p len : Nat) : List Nat :=
  if len = 0 then []
  else (List.range ((p % 4096 + len + 4095) / 4096)).map fun j => p / 4096 * 4096 + 4096 * j

/-- The page that the loop of `sys_mmap` maps beyond those. -/
def extraPages (p len : Nat) : List Nat :=
  if len = 0 then [p / 4096 * 4096] else if (p + len) % 4096 = 0 then [p + len] else []

def Kernel.mapPages (root : Nat) (write exec : Bool) (pages : List Nat) (k : Kernel) : Kernel :=
  pages.foldl (fun k a => (k.vmMap root a true write exec).1) k

/-- The loop on a region: its pages that are mapped have the rights asked for, and there is a free
page for each table and frame that is missing. -/
structure RegionKept (root : Nat) (pages region : List Nat) (write exec : Bool) (k : Kernel)
    (free : List Nat) : Prop where
  wellFormed : WellFormed UserPath k root free
  small : ∀ a ∈ pages, SlotsHold (SmallOn (indices a)) k.mem root
  granted : SlotsHold OpenLower k.mem root
  noTable : ∀ path : List (Fin 512), path.length < 4 → pageAt k.mem root path ≠ some 0
  rights : ∀ a ∈ region, ∀ mapping, walk k.mem root a = some mapping →
    mapping.user = true ∧ mapping.writable = write ∧ mapping.executable = exec
  stocked : (missing k.mem root region).card ≤ free.length

namespace System

variable (s : System)

/-- An address space in which no page that the loop maps in the lower half, or right behind it, lies
under a large page, the tables of the lower half grant every right, and physical page 0 is no table.
-/
structure Mappable (free : List Nat) (addr len : UInt64) : Prop where
  wellFormed : WellFormed UserPath s.kernel s.kernel.activeRoot free
  small : ∀ a ∈ regionPages (s.pick addr) len, a ≤ 2 ^ 47 →
    SlotsHold (SmallOn (indices a)) s.kernel.mem s.kernel.activeRoot
  granted : SlotsHold OpenLower s.kernel.mem s.kernel.activeRoot
  noTable : ∀ path : List (Fin 512), path.length < 4 →
    pageAt s.kernel.mem s.kernel.activeRoot path ≠ some 0

def MapsRegion (addr len prot : UInt64) : Prop :=
  ∃ s' rax, s.sysMmap addr len prot = some (s', .returns rax) ∧
    (rax = 0 ∨ ∀ b, (s.pick addr).toNat ≤ b → b < (s.pick addr).toNat + len.toNat →
      b < 2 ^ 47 ∧ ∃ mapping, walk s'.kernel.mem s'.kernel.activeRoot b = some mapping ∧
        mapping.user = true ∧ mapping.writable = prot.toNat.testBit 1 ∧
          mapping.executable = prot.toNat.testBit 2)

structure RegionFits (free : List Nat) (addr len prot : UInt64) : Prop where
  lower : ∀ a ∈ touchedPages (s.pick addr).toNat len.toNat, a < 2 ^ 47
  rights : ∀ a ∈ touchedPages (s.pick addr).toNat len.toNat, ∀ mapping,
    walk s.kernel.mem s.kernel.activeRoot a = some mapping →
    mapping.user = true ∧ mapping.writable = prot.toNat.testBit 1 ∧
      mapping.executable = prot.toNat.testBit 2
  stocked : (missing s.kernel.mem s.kernel.activeRoot
    (touchedPages (s.pick addr).toNat len.toNat)).card ≤ free.length

/-- No page offset of the loop overflows, and the region fits or the address counts as NULL. -/
def RegionReady (free : List Nat) (addr len prot : UInt64) : Prop :=
  (∀ j < pageCount (s.pick addr) len, NoOverflow (startPage (s.pick addr)).toNat j) ∧
    ((s.pick addr).toNat < 4096 ∨ s.RegionFits free addr len prot)

end System

section Pages

variable {p n a : Nat} {addr len : UInt64}

theorem mem_touchedPages : a ∈ touchedPages p n ↔ ∃ b, p ≤ b ∧ b < p + n ∧ a = b / 4096 * 4096 := by
  unfold touchedPages
  split
  · simp only [List.not_mem_nil, false_iff]
    rintro ⟨b, above, below, _⟩
    omega
  · simp only [List.mem_map, List.mem_range]
    constructor
    · rintro ⟨j, bound, rfl⟩
      refine ⟨max p (p / 4096 * 4096 + 4096 * j), le_max_left _ _, ?_, ?_⟩ <;> omega
    · rintro ⟨b, above, below, rfl⟩
      exact ⟨b / 4096 - p / 4096, by omega, by omega⟩

theorem regionPages_eq (bound : addr.toNat + len.toNat < 2 ^ 64) :
    System.regionPages addr len = touchedPages addr.toNat len.toNat ++
      extraPages addr.toNat len.toNat := by
  have pages : System.regionPages addr len =
      (List.range ((addr.toNat % 4096 + len.toNat) / 4096 + 1)).map fun j =>
        addr.toNat / 4096 * 4096 + 4096 * j := by
    rw [System.regionPages, pageCount_toNat bound, startPage_toNat]
    apply List.map_congr_left
    intro j member
    rw [List.mem_range] at member
    exact Nat.mod_eq_of_lt (by omega)
  rw [pages, touchedPages, extraPages]
  by_cases empty : len.toNat = 0
  · simp [empty]
  · rw [if_neg empty, if_neg empty]
    by_cases whole : (addr.toNat + len.toNat) % 4096 = 0
    · have count : (addr.toNat % 4096 + len.toNat + 4095) / 4096 =
          (addr.toNat % 4096 + len.toNat) / 4096 := by omega
      have last : addr.toNat / 4096 * 4096 + 4096 * ((addr.toNat % 4096 + len.toNat) / 4096) =
          addr.toNat + len.toNat := by omega
      rw [if_pos whole, count, List.range_succ, List.map_append, List.map_singleton, last]
    · have count : (addr.toNat % 4096 + len.toNat + 4095) / 4096 =
          (addr.toNat % 4096 + len.toNat) / 4096 + 1 := by
        omega
      rw [if_neg whole, count, List.append_nil]

end Pages

namespace Kernel

theorem vmMap_cr3 (k : Kernel) (root address : Nat) (user writable executable : Bool) :
    (k.vmMap root address user writable executable).1.cr3 = k.cr3 := by
  rcases vmMap_memoryOnly k root address user writable executable with ⟨k', memory, call | call⟩
  · rw [call, memory.cr3]
  · rw [call]
    exact memory.cr3

theorem mapPages_cr3 (root : Nat) (write exec : Bool) (pages : List Nat) (k : Kernel) :
    (k.mapPages root write exec pages).cr3 = k.cr3 := by
  induction pages generalizing k with
  | nil => rfl
  | cons a rest ih => exact (ih _).trans (k.vmMap_cr3 root a true write exec)

end Kernel

section Loop

variable {s : System} {root : Nat} {write exec : Bool} {addr len prot : UInt64}

theorem sysMmap_loop (s : System) (addr len prot : UInt64) :
    s.sysMmap addr len prot =
      if ∀ j < System.pageCount (s.pick addr) len,
        System.NoOverflow (System.startPage (s.pick addr)).toNat j then
        some ((System.regionPages (s.pick addr) len).foldl (fun t a =>
          t.mapUserPage s.kernel.activeRoot (prot.toNat.testBit 1) (prot.toNat.testBit 2) a)
            (s.advance addr len),
          .returns (System.startPage (s.pick addr)))
      else none := by
  rw [s.sysMmap_eq, System.regionPages, List.foldl_map]
  simp only [List.mem_range]

theorem mapUserPage_kernel (s : System) (root : Nat) (write exec : Bool) (a : Nat) :
    (s.mapUserPage root write exec a).kernel = (s.kernel.vmMap root a true write exec).1 ∧
      (s.mapUserPage root write exec a).addre = s.addre := by
  rcases call : s.kernel.vmMap root a true write exec with ⟨k, mapped⟩
  rw [System.mapUserPage, call]
  cases mapped <;> exact ⟨rfl, rfl⟩

theorem mapUserPages_kernel (s : System) (root : Nat) (write exec : Bool) (pages : List Nat) :
    (pages.foldl (fun t a => t.mapUserPage root write exec a) s).kernel =
      s.kernel.mapPages root write exec pages ∧
      (pages.foldl (fun t a => t.mapUserPage root write exec a) s).addre = s.addre := by
  induction pages generalizing s with
  | nil => exact ⟨rfl, rfl⟩
  | cons a rest ih =>
      rcases mapUserPage_kernel s root write exec a with ⟨kernel, addre⟩
      rcases ih (s.mapUserPage root write exec a) with ⟨last, cursor⟩
      rw [List.foldl_cons, last, cursor, kernel, addre]
      exact ⟨rfl, rfl⟩

theorem advance_kernel (s : System) (addr len : UInt64) :
    (s.advance addr len).kernel = s.kernel := by
  unfold System.advance
  split <;> rfl

theorem sysMmap_returns {s' : System} {rax : UInt64}
    (call : s.sysMmap addr len prot = some (s', .returns rax)) :
    s'.kernel = s.kernel.mapPages s.kernel.activeRoot (prot.toNat.testBit 1) (prot.toNat.testBit 2)
        (System.regionPages (s.pick addr) len) ∧
      s'.kernel.activeRoot = s.kernel.activeRoot ∧ s'.addre = (s.advance addr len).addre ∧
      rax = System.startPage (s.pick addr) ∧
      ∀ j < System.pageCount (s.pick addr) len,
        System.NoOverflow (System.startPage (s.pick addr)).toNat j := by
  rw [sysMmap_loop] at call
  split at call
  · rename_i safe
    simp only [Option.some.injEq, Prod.mk.injEq, Outcome.returns.injEq] at call
    rcases call with ⟨rfl, rfl⟩
    rcases mapUserPages_kernel (s.advance addr len) s.kernel.activeRoot (prot.toNat.testBit 1)
      (prot.toNat.testBit 2) (System.regionPages (s.pick addr) len) with ⟨kernel, addre⟩
    rw [advance_kernel] at kernel
    exact ⟨kernel, Kernel.activeRoot_congr (kernel ▸ Kernel.mapPages_cr3 ..), addre, rfl, safe⟩
  · cases call

end Loop

section Region

variable {root a : Nat} {k : Kernel} {free pages region : List Nat} {write exec : Bool} {m : Mem}

theorem LeafGrants.walk {user writable executable : Bool}
    (leaf : LeafGrants m root a user writable executable) (lower : LowerHalf a)
    (granted : SlotsHold OpenLower m root) :
    ∃ frame, PaintKernel.walk m root a = some ⟨frame, user, writable, executable⟩ := by
  rcases leaf with ⟨frame, table, old, mapped, found, entry⟩
  refine ⟨frame, ?_⟩
  rw [walk_of_leaf lower granted mapped found, entry]
  simp [populate]

theorem Prepared.stocked {k' : Kernel} {user writable executable : Bool}
    (wf : WellFormed UserPath k root free) (listed : a ∈ region)
    (stocked : (missing k.mem root region).card ≤ free.length)
    (grown : Prepared UserPath root a user writable executable k free k' [])
    {before rest : List (Fin 512)} {i : Fin 512} (split : before ++ i :: rest = indices a) :
    pageAt k'.mem root (before ++ [i]) ≠ none := by
  intro absent
  have cost := grown.more.missing_le wf listed
  have positive := missing_pos listed split absent
  rw [List.length_nil] at cost
  omega

/-- One page of the region is mapped with the rights asked for, or was mapped before. -/
theorem RegionKept.step (kept : RegionKept root pages region write exec k free)
    (listed : a ∈ region) (lower : LowerHalf a) (inLoop : a ∈ pages) :
    ∃ free', RegionKept root pages region write exec (k.vmMap root a true write exec).1 free' ∧
      walk (k.vmMap root a true write exec).1.mem root a ≠ none ∧
      ∀ b, walk k.mem root b ≠ none →
        walk (k.vmMap root a true write exec).1.mem root b ≠ none := by
  have wf := kept.wellFormed
  cases reached : pageAt k.mem root (indices a) with
  | some frame =>
      rw [vmMap_mapped wf reached]
      rcases walk_of_mapped reached with ⟨mapping, found, _⟩
      exact ⟨free, kept, found ▸ Option.some_ne_none mapping, fun _ present => present⟩
  | none =>
      rcases vmMap_outcomes true write exec wf (kept.small a inLoop) with
        ⟨last, before, i, rest, split, grown, absent, _⟩ | ⟨k', free', frame, grown, found, _⟩ |
        ⟨k', free', more, leaf, call⟩
      · exact absurd absent (grown.stocked wf listed kept.stocked split)
      · rw [grown.leaf, reached] at found
        cases found
      · rw [call]
        have granted := more.slots _ (openLower_stable a _ _ _) kept.granted
        rcases leaf.walk lower granted with ⟨frame, here⟩
        have cost := more.missing_le wf listed
        have stocked := kept.stocked
        have enough : (missing k'.mem root region).card ≤ free'.length := by omega
        refine ⟨free', ⟨more.wellFormed, fun b member => ?_, granted, more.noTable wf kept.noTable,
          ?_, enough⟩,
          here ▸ Option.some_ne_none _, ?_⟩
        · exact more.slots _ (smallOn_stable _ _ _ _ _) (kept.small b member)
        · intro b member mapping found
          by_cases same : indices b = indices a
          · rw [walk_indices _ _ same, here] at found
            cases found
            exact ⟨rfl, rfl, rfl⟩
          · rw [more.walks b same] at found
            exact kept.rights b member mapping found
        · intro b present
          by_cases same : indices b = indices a
          · rw [walk_indices _ _ same, here]
            exact Option.some_ne_none _
          · rw [more.walks b same]
            exact present

theorem RegionKept.run (kept : RegionKept root pages region write exec k free) (part : List Nat)
    (listed : ∀ a ∈ part, a ∈ region ∧ LowerHalf a ∧ a ∈ pages) :
    ∃ free', RegionKept root pages region write exec (k.mapPages root write exec part) free' ∧
      (∀ a ∈ part, walk (k.mapPages root write exec part).mem root a ≠ none) ∧
      ∀ b, walk k.mem root b ≠ none → walk (k.mapPages root write exec part).mem root b ≠ none := by
  induction part generalizing k free with
  | nil => exact ⟨free, kept, fun a member => absurd member List.not_mem_nil,
      fun _ present => present⟩
  | cons a rest ih =>
      rw [List.forall_mem_cons] at listed
      rcases listed with ⟨⟨inRegion, lower, inLoop⟩, later⟩
      rcases kept.step inRegion lower inLoop with ⟨free1, kept1, here, keeps1⟩
      rcases ih kept1 later with ⟨free2, kept2, mapped, keeps2⟩
      refine ⟨free2, kept2, ?_, fun b present => keeps2 b (keeps1 b present)⟩
      rw [List.forall_mem_cons]
      exact ⟨keeps2 a here, mapped⟩

/-- A page outside the region that the loop maps last leaves the region alone, even if memory runs
out. -/
theorem RegionKept.beyond (kept : RegionKept root pages region write exec k free)
    (inLoop : a ∈ pages) {b : Nat} (other : indices b ≠ indices a) :
    walk (k.vmMap root a true write exec).1.mem root b = walk k.mem root b := by
  have wf := kept.wellFormed
  rcases vmMap_outcomes true write exec wf (kept.small a inLoop) with
    ⟨last, before, i, rest, split, grown, absent, call⟩ | ⟨k', free', frame, grown, found, call⟩ |
    ⟨k', free', more, leaf, call⟩
  · rw [call, walk_outside
      (exhausted_outside grown.more.wellFormed.base (grown.more.noTable wf kept.noTable))]
    exact grown.more.walks b other
  · rw [call]
    exact grown.more.walks b other
  · rw [call]
    exact more.walks b other

end Region

/-! The other direction: what the loop must find to map the region. -/

section Spare

variable {root a : Nat} {k k' : Kernel} {free free' pages region : List Nat} {write exec : Bool}

theorem vmMap_spare (write exec : Bool) (wf : WellFormed UserPath k root free)
    (small : SlotsHold (SmallOn (indices a)) k.mem root) (spare : Spare UserPath k root) :
    ∃ free', Grown UserPath root (indices a) true write exec k free
      (k.vmMap root a true write exec).1 free' ∧
      Spare UserPath (k.vmMap root a true write exec).1 root := by
  rcases vmMap_cases true write exec wf small with
    ⟨last, before, i, rest, split, grown, absent, call⟩ | ⟨k', free', frame, grown, found, call⟩ |
    ⟨k', free', more, call⟩
  · rcases exhausted_grown grown.more.wellFormed (grown.more.spare wf spare) with ⟨ended, later⟩
    rw [call]
    exact ⟨[], grown.more.grown.trans ended, later⟩
  · rw [call]
    exact ⟨free', grown.more.grown, grown.more.spare wf spare⟩
  · rw [call]
    exact ⟨free', more.grown, more.spare wf spare⟩

structure Enlarged (root : Nat) (pages : List Nat) (k : Kernel) (free : List Nat) (k' : Kernel)
    (free' : List Nat) : Prop where
  wellFormed : WellFormed UserPath k' root free'
  small : ∀ a ∈ pages, SlotsHold (SmallOn (indices a)) k'.mem root
  spare : Spare UserPath k' root
  rest : ∀ page ∈ free', page ∈ free
  added : ∀ path page, pageAt k'.mem root path = some page →
    pageAt k.mem root path = some page ∨ page ∈ free
  walks : ∀ b, walk k.mem root b ≠ none → walk k'.mem root b = walk k.mem root b

theorem Enlarged.trans {k'' : Kernel} {free'' : List Nat}
    (first : Enlarged root pages k free k' free')
    (second : Enlarged root pages k' free' k'' free'') : Enlarged root pages k free k'' free'' where
  wellFormed := second.wellFormed
  small := second.small
  spare := second.spare
  rest := fun page member => first.rest page (second.rest page member)
  added := by
    intro path page reached
    rcases second.added path page reached with before | member
    · exact first.added path page before
    · exact .inr (first.rest page member)
  walks := by
    intro b present
    have same := first.walks b present
    rw [← same] at present
    exact (second.walks b present).trans same

theorem Enlarged.refl (wf : WellFormed UserPath k root free)
    (small : ∀ a ∈ pages, SlotsHold (SmallOn (indices a)) k.mem root)
    (spare : Spare UserPath k root) :
    Enlarged root pages k free k free :=
  ⟨wf, small, spare, fun _ member => member, fun _ _ reached => .inl reached, fun _ _ => rfl⟩

theorem vmMap_enlarged (write exec : Bool) (wf : WellFormed UserPath k root free)
    (small : ∀ a ∈ pages, SlotsHold (SmallOn (indices a)) k.mem root)
    (spare : Spare UserPath k root) (listed : a ∈ pages) :
    ∃ free', Enlarged root pages k free (k.vmMap root a true write exec).1 free' := by
  cases reached : pageAt k.mem root (indices a) with
  | some frame =>
      rw [vmMap_mapped wf reached]
      exact ⟨free, .refl wf small spare⟩
  | none =>
      rcases vmMap_spare write exec wf (small a listed) spare with ⟨free', grown, later⟩
      refine ⟨free', grown.wellFormed, fun b member => ?_, later, grown.rest, grown.added,
        fun b present => ?_⟩
      · exact grown.slots _ (smallOn_stable _ _ _ _ _) (small b member)
      · apply grown.walks
        intro same
        rw [walk_indices _ _ same] at present
        exact present (walk_of_unmapped (small a listed) reached)

theorem mapPages_enlarged (write exec : Bool) (wf : WellFormed UserPath k root free)
    (small : ∀ a ∈ pages, SlotsHold (SmallOn (indices a)) k.mem root)
    (spare : Spare UserPath k root) (part : List Nat) (listed : ∀ a ∈ part, a ∈ pages) :
    ∃ free', Enlarged root pages k free (k.mapPages root write exec part) free' := by
  induction part generalizing k free with
  | nil => exact ⟨free, .refl wf small spare⟩
  | cons a rest ih =>
      rw [List.forall_mem_cons] at listed
      rcases vmMap_enlarged write exec wf small spare listed.1 with ⟨free1, first⟩
      rcases ih first.wellFormed first.small first.spare listed.2 with ⟨free2, second⟩
      exact ⟨free2, first.trans second⟩

theorem Enlarged.stocked (enlarged : Enlarged root pages k free k' free')
    (listed : ∀ a ∈ region, a ∈ pages) (lower : ∀ a ∈ region, LowerHalf a)
    (mapped : ∀ a ∈ region, walk k'.mem root a ≠ none) :
    (missing k.mem root region).card ≤ free.length := by
  have filled : ∀ path ∈ missing k.mem root region, ∃ page ∈ free, pageAt k'.mem root path =
      some page := by
    intro path member
    rcases mem_missing.mp member with ⟨⟨a, inRegion, rest, split⟩, absent⟩
    have reached := (walk_none_iff (enlarged.small a (listed a inRegion))).not.mp
      (mapped a inRegion)
    rcases Option.ne_none_iff_exists'.mp reached with ⟨frame, found⟩
    rw [← split] at found
    rcases follow_front path rest found with ⟨page, here⟩
    rcases enlarged.added path page here with before | taken
    · rw [absent] at before
      cases before
    · exact ⟨page, taken, here⟩
  have card : (missing k.mem root region).card ≤ free.toFinset.card := by
    apply Finset.card_le_card_of_injOn fun path => (pageAt k'.mem root path).getD 0
    · intro path member
      rcases filled path member with ⟨page, taken, here⟩
      simp [here, taken]
    · intro left memberLeft right memberRight same
      rcases filled left memberLeft with ⟨page, _, here⟩
      rcases filled right memberRight with ⟨other, _, there⟩
      simp only [here, there, Option.getD_some] at same
      subst same
      rcases mem_missing.mp memberLeft with ⟨⟨a, inRegionA, insideA⟩, _⟩
      rcases mem_missing.mp memberRight with ⟨⟨b, inRegionB, insideB⟩, _⟩
      exact enlarged.wellFormed.unshared left right page
        (.inr (lowerPath_indices (lower a inRegionA) insideA))
        (.inr (lowerPath_indices (lower b inRegionB) insideB)) here there
  exact card.trans (List.toFinset_card_le free)

end Spare

section Mmap

variable {s : System} {free : List Nat} {addr len prot : UInt64}

theorem mapPages_append (root : Nat) (write exec : Bool) (front back : List Nat) (k : Kernel) :
    k.mapPages root write exec (front ++ back) =
      (k.mapPages root write exec front).mapPages root write exec back := List.foldl_append

theorem mapPages_singleton (root : Nat) (write exec : Bool) (a : Nat) (k : Kernel) :
    k.mapPages root write exec [a] = (k.vmMap root a true write exec).1 := rfl

theorem walk_page (m : Mem) (root b : Nat) : walk m root (b / 4096 * 4096) = walk m root b := by
  apply walk_indices
  rw [indices_eq_iff]
  unfold pageNumber
  omega

theorem System.RegionFits.end_le (fits : s.RegionFits free addr len prot)
    (positive : len.toNat ≠ 0) :
    (s.pick addr).toNat + len.toNat ≤ 2 ^ 47 := by
  have last := fits.lower _
    (mem_touchedPages.mpr ⟨(s.pick addr).toNat + len.toNat - 1, by omega, by omega, rfl⟩)
  omega

theorem regionPages_le (positive : len.toNat ≠ 0)
    (bound : addr.toNat + len.toNat ≤ 2 ^ 47) {a : Nat} (member : a ∈ System.regionPages addr len) :
    a ≤ 2 ^ 47 := by
  rw [regionPages_eq (by omega), List.mem_append, extraPages, if_neg positive] at member
  rcases member with touched | extra
  · rcases mem_touchedPages.mp touched with ⟨b, _, below, rfl⟩
    omega
  · split at extra
    · rw [List.mem_singleton.mp extra]
      exact bound
    · cases extra

/-- A region that fits is mapped. -/
theorem System.RegionFits.maps (space : s.Mappable free addr len)
    (fits : s.RegionFits free addr len prot) (positive : len.toNat ≠ 0) {b : Nat}
    (above : (s.pick addr).toNat ≤ b) (below : b < (s.pick addr).toNat + len.toNat) :
    ∃ mapping, walk (s.kernel.mapPages s.kernel.activeRoot (prot.toNat.testBit 1)
      (prot.toNat.testBit 2)
        (System.regionPages (s.pick addr) len)).mem s.kernel.activeRoot b = some mapping ∧
      mapping.user = true ∧ mapping.writable = prot.toNat.testBit 1 ∧
      mapping.executable = prot.toNat.testBit 2 := by
  have bound := fits.end_le positive
  have pages : System.regionPages (s.pick addr) len = _ := regionPages_eq (by omega)
  have kept : RegionKept s.kernel.activeRoot (System.regionPages (s.pick addr) len)
      (touchedPages (s.pick addr).toNat len.toNat) (prot.toNat.testBit 1) (prot.toNat.testBit 2)
        s.kernel free :=
    ⟨space.wellFormed, fun a member => space.small a member (regionPages_le positive bound member),
      space.granted,
      space.noTable, fits.rights, fits.stocked⟩
  rcases kept.run (touchedPages (s.pick addr).toNat len.toNat) (fun a member =>
    ⟨member, lowerHalf_of_lt (fits.lower a member), pages ▸ List.mem_append_left _ member⟩) with
    ⟨free', after, mapped, _⟩
  have listed : b / 4096 * 4096 ∈ touchedPages (s.pick addr).toNat len.toNat :=
    mem_touchedPages.mpr ⟨b, above, below, rfl⟩
  rcases Option.ne_none_iff_exists'.mp (mapped _ listed) with ⟨mapping, found⟩
  refine ⟨mapping, ?_, after.rights _ listed mapping found⟩
  rw [← walk_page, pages, mapPages_append, extraPages, if_neg positive]
  split
  · rename_i whole
    have last : (s.pick addr).toNat + len.toNat ∈ System.regionPages (s.pick addr) len := by
      rw [pages, extraPages, if_neg positive, if_pos whole]
      exact List.mem_append_right _ List.mem_cons_self
    have other : indices (b / 4096 * 4096) ≠ indices ((s.pick addr).toNat + len.toNat) := by
      rw [ne_eq, indices_eq_iff]
      unfold pageNumber
      omega
    rw [mapPages_singleton, after.beyond last other]
    exact found
  · exact found

theorem mapsRegion_of_ready (space : s.Mappable free addr len)
    (ready : s.RegionReady free addr len prot) :
    s.MapsRegion addr len prot := by
  have call := sysMmap_loop s addr len prot
  rw [if_pos ready.1] at call
  rcases sysMmap_returns call with ⟨kernel, active, _, _, _⟩
  refine ⟨_, _, call, ?_⟩
  rcases ready.2 with null | fits
  · left
    rw [← UInt64.toNat_inj, startPage_toNat]
    show (s.pick addr).toNat / 4096 * 4096 = 0
    omega
  · right
    intro b above below
    have positive : len.toNat ≠ 0 := by omega
    have bound := fits.end_le positive
    rw [active, kernel]
    exact ⟨by omega, fits.maps space positive above below⟩

theorem regionFits_empty (empty : len.toNat = 0) : s.RegionFits free addr len prot := by
  constructor <;> rw [touchedPages, if_pos empty]
  · exact fun _ member => absurd member List.not_mem_nil
  · exact fun _ member => absurd member List.not_mem_nil
  · exact Nat.zero_le _

theorem regionFits_of_mapped (space : s.Mappable free addr len)
    (spare : Spare UserPath s.kernel s.kernel.activeRoot) (positive : len.toNat ≠ 0)
    (region : ∀ b, (s.pick addr).toNat ≤ b → b < (s.pick addr).toNat + len.toNat → b < 2 ^ 47 ∧
      ∃ mapping, walk (s.kernel.mapPages s.kernel.activeRoot (prot.toNat.testBit 1)
        (prot.toNat.testBit 2) (System.regionPages (s.pick addr) len)).mem s.kernel.activeRoot b =
          some mapping ∧ mapping.user = true ∧
        mapping.writable = prot.toNat.testBit 1 ∧ mapping.executable = prot.toNat.testBit 2) :
    s.RegionFits free addr len prot := by
  have last := (region ((s.pick addr).toNat + len.toNat - 1) (by omega) (by omega)).1
  have bound : (s.pick addr).toNat + len.toNat ≤ 2 ^ 47 := by omega
  have pages : System.regionPages (s.pick addr) len = _ := regionPages_eq (by omega)
  have lower : ∀ a ∈ touchedPages (s.pick addr).toNat len.toNat, a < 2 ^ 47 := by
    intro a member
    rcases mem_touchedPages.mp member with ⟨b, above, below, rfl⟩
    omega
  have listed : ∀ a ∈ touchedPages (s.pick addr).toNat len.toNat,
      a ∈ System.regionPages (s.pick addr) len := by
    intro a member
    rw [pages]
    exact List.mem_append_left _ member
  rcases mapPages_enlarged (prot.toNat.testBit 1) (prot.toNat.testBit 2) space.wellFormed
    (fun a member => space.small a member (regionPages_le positive bound member)) spare
    (System.regionPages (s.pick addr) len) (fun _ member => member) with ⟨free', enlarged⟩
  have mapped : ∀ a ∈ touchedPages (s.pick addr).toNat len.toNat, ∃ mapping,
      walk (s.kernel.mapPages s.kernel.activeRoot (prot.toNat.testBit 1) (prot.toNat.testBit 2)
        (System.regionPages (s.pick addr) len)).mem s.kernel.activeRoot a = some mapping ∧
      mapping.user = true ∧ mapping.writable = prot.toNat.testBit 1 ∧
      mapping.executable = prot.toNat.testBit 2 := by
    intro a member
    rcases mem_touchedPages.mp member with ⟨b, above, below, rfl⟩
    rw [walk_page]
    exact (region b above below).2
  refine ⟨lower, fun a member mapping found => ?_, ?_⟩
  · rcases mapped a member with ⟨after, here, rights⟩
    rw [enlarged.walks a (found ▸ Option.some_ne_none mapping), found, Option.some.injEq] at here
    exact here ▸ rights
  · apply enlarged.stocked listed fun a member => lowerHalf_of_lt (lower a member)
    intro a member
    rcases mapped a member with ⟨after, here, _⟩
    exact here ▸ Option.some_ne_none after

theorem System.MapsRegion.ready (maps : s.MapsRegion addr len prot)
    (space : s.Mappable free addr len) (spare : Spare UserPath s.kernel s.kernel.activeRoot) :
    s.RegionReady free addr len prot := by
  rcases maps with ⟨s', rax, call, result⟩
  rcases sysMmap_returns call with ⟨kernel, active, _, rfl, safe⟩
  refine ⟨safe, ?_⟩
  by_cases null : (s.pick addr).toNat < 4096
  · exact .inl null
  right
  by_cases empty : len.toNat = 0
  · exact regionFits_empty empty
  have start := startPage_toNat (s.pick addr)
  rcases result with zero | region
  · rw [zero] at start
    have none : (0 : UInt64).toNat = 0 := rfl
    omega
  · rw [active, kernel] at region
    exact regionFits_of_mapped space spare empty region

/-- `sys_mmap` returns memory that it mapped exactly when the region is ready for it. The condition
is always enough; that it is needed rests on the end of the free list being harmless. The message
about a page that could not be mapped is taken to return, as every `kprintf` here. -/
theorem sysMmap_maps_iff (space : s.Mappable free addr len) :
    (s.RegionReady free addr len prot → s.MapsRegion addr len prot) ∧
      (Spare UserPath s.kernel s.kernel.activeRoot → s.MapsRegion addr len prot →
        s.RegionReady free addr len prot) :=
  ⟨mapsRegion_of_ready space, fun spare maps => maps.ready space spare⟩

end Mmap

theorem bare_mappable (addr len : UInt64) : bareSystem.Mappable barePages addr len := by
  constructor <;> rw [bareSystem_root]
  · exact bare_wellFormed fun _ short => .inl short
  · exact fun _ _ _ => bare_slots fun _ _ _ => rfl
  · exact openLower_of_empty bare_empty
  · intro path _ reached
    cases (bare_pageAt reached).2

theorem bare_maps_region :
    bareSystem.MapsRegion 0x400000 100 3 ∧ bareSystem.RegionReady barePages 0x400000 100 3 := by
  have picked : bareSystem.pick 0x400000 = 0x400000 := if_neg (by decide)
  have pages : touchedPages (0x400000 : UInt64).toNat (100 : UInt64).toNat = [0x400000] := by decide
  have spare : Spare UserPath bareSystem.kernel bareSystem.kernel.activeRoot := by
    rw [bareSystem_root]
    exact bare_spare
  have ready : bareSystem.RegionReady barePages 0x400000 100 3 := by
    refine ⟨?_, .inr ⟨?_, ?_, ?_⟩⟩ <;> rw [picked]
    · decide
    · rw [pages]
      decide
    · rw [bareSystem_root]
      intro a _ mapping found
      cases (bare_walk a).symm.trans found
    · have inits : ([0x400000].flatMap fun a => (indices a).inits).toFinset.card ≤ 5 :=
        List.toFinset_card_le _
      rw [pages]
      exact (Finset.card_filter_le _ _).trans (inits.trans (by decide))
  rcases sysMmap_maps_iff (bare_mappable 0x400000 100) with ⟨enough, needed⟩
  exact ⟨enough ready, needed spare (enough ready)⟩

def scarceSystem : System := { bareSystem with kernel := scarceKernel }

theorem scarce_region_unmapped :
    ∃ s', scarceSystem.sysMmap 0x400000 1 3 = some (s', .returns 0x400000) ∧
    walk s'.kernel.mem s'.kernel.activeRoot 0x400000 = none ∧
      ¬ scarceSystem.MapsRegion 0x400000 1 3 := by
  have root : scarceSystem.kernel.activeRoot = 0x1000 := bareSystem_root
  have pages : System.regionPages (scarceSystem.pick 0x400000) 1 = [0x400000] := by decide
  have bits : (3 : UInt64).toNat.testBit 1 = true ∧ (3 : UInt64).toNat.testBit 2 = false := by
    decide
  rcases scarce_abandoned with ⟨k', failed, abandoned⟩
  have unmapped : walk k'.mem 0x1000 0x400000 = none := by
    rw [abandoned.walks]
    exact walk_of_unmapped scarce_small (scarce_unmapped (by simp [indices]))
  have last : ∀ s' rax, scarceSystem.sysMmap 0x400000 1 3 = some (s', .returns rax) →
      walk s'.kernel.mem s'.kernel.activeRoot 0x400000 = none := by
    intro s' rax call
    rcases sysMmap_returns call with ⟨kernel, active, _⟩
    have page : scarceSystem.kernel = scarceKernel := rfl
    rw [active, kernel, root, pages, bits.1, bits.2, page, mapPages_singleton, failed]
    exact unmapped
  have call := sysMmap_loop scarceSystem 0x400000 1 3
  rw [if_pos (by decide)] at call
  refine ⟨_, call, last _ _ call, ?_⟩
  rintro ⟨s', rax, other, null | region⟩
  · rw [other, Option.some.injEq, Prod.mk.injEq] at call
    rw [null] at call
    exact absurd call.2 (by decide)
  · rcases (region 0x400000 (by decide) (by decide)).2 with ⟨mapping, found, _⟩
    rw [last _ _ other] at found
    cases found

end PaintKernel
