import Mathlib
import PaintKernel.PageTree

set_option autoImplicit false

/-! Well-formed address spaces and the effect of allocating a page into one. -/

namespace PaintKernel

open ByteMemory RadixTree LinkedList

/-- The tree under the root, the free list, and their separation. The `owned` paths reach
pairwise different pages; they include every path to a table. -/
structure WellFormed (owned : List (Fin 512) → Prop) (k : Kernel) (root : Nat) (free : List Nat) :
    Prop where
  base : PageBase root
  tables : ∀ path : List (Fin 512), path.length < 4 → owned path
  unshared : ∀ left right page, owned left → owned right →
    pageAt k.mem root left = some page → pageAt k.mem root right = some page → left = right
  list : k.FreeList free
  pages : ∀ page ∈ free, PageBase page ∧ page + k.virtualOffset < 2 ^ 64
  disjoint : ∀ path page, pageAt k.mem root path = some page → page ∉ free

theorem WellFormed.mono {owned fewer : List (Fin 512) → Prop} {k : Kernel} {root : Nat}
    {free : List Nat} (wf : WellFormed owned k root free) (weaker : ∀ path, fewer path → owned path)
    (tables : ∀ path : List (Fin 512), path.length < 4 → fewer path) :
    WellFormed fewer k root free :=
  { wf with
    tables := tables
    unshared := fun left right page ownedLeft ownedRight =>
      wf.unshared left right page (weaker left ownedLeft) (weaker right ownedRight) }

def SlotsHold (Φ : List (Fin 512) → PageTableEntry → Prop) (m : Mem) (root : Nat) : Prop :=
  ∀ path table index, path.length < 4 → pageAt m root path = some table →
    Φ (path ++ [index]) (slot m table index)

theorem wellFormed_of_blank {owned : List (Fin 512) → Prop} {k : Kernel} {root : Nat}
    {free : List Nat} (base : PageBase root) (blank : ∀ i, (slot k.mem root i).present = false)
    (tables : ∀ path : List (Fin 512), path.length < 4 → owned path) (list : k.FreeList free)
    (pages : ∀ page ∈ free, PageBase page ∧ page + k.virtualOffset < 2 ^ 64)
    (outside : root ∉ free) :
    WellFormed owned k root free where
  base := base
  tables := tables
  unshared := fun left right page _ _ reachedLeft reachedRight =>
    (pageAt_of_blank blank reachedLeft).1.trans (pageAt_of_blank blank reachedRight).1.symm
  list := list
  pages := pages
  disjoint := by
    intro path page reached
    rw [(pageAt_of_blank blank reached).2]
    exact outside

theorem slotsHold_of_blank {Φ : List (Fin 512) → PageTableEntry → Prop} {m : Mem} {root : Nat}
    (blank : ∀ i, slot m root i = .decode 0) (zero : ∀ path, Φ path (.decode 0)) :
    SlotsHold Φ m root := by
  intro path table index _ reached
  rw [(pageAt_of_blank (fun i => by rw [blank i]; rfl) reached).2, blank]
  exact zero _

def populate (e : PageTableEntry) (page : Nat) (user writable executable : Bool) : PageTableEntry :=
  { e with
    present := true
    physicalAddr := BitVec.ofNat 40 (page >>> 12)
    kernel := user
    writable := writable
    noExecute := !executable }

theorem populate_target (e : PageTableEntry) {page : Nat} (base : PageBase page)
    (user writable executable : Bool) :
    (populate e page user writable executable).target = page := by
  have aligned := base.1
  have bound := base.2
  simp only [PageTableEntry.target_eq, populate, BitVec.toNat_ofNat, Nat.shiftRight_eq_div_pow]
  omega

theorem nextTable_populate {depth page : Nat} {e : PageTableEntry} (base : PageBase page)
    (short : depth < 4) (small : depth = 1 ∨ depth = 2 → e.pageSize = false)
    (user writable executable : Bool) :
    nextTable depth (populate e page user writable executable) = some page := by
  rw [nextTable_present (e := populate e page user writable executable) short rfl small,
    populate_target e base]

theorem walk_of_link {m m' : Mem} {root t q : Nat} {path : List (Fin 512)} {i : Fin 512}
    {outside : Nat → Prop} (link : Link nextTable (slot m) (slot m') 4 root path t i q outside)
    (absent : (slot m t i).present = false) (blank : ∀ j, (slot m' q j).present = false) {b : Nat}
    (other : indices b ≠ path ++ [i]) : walk m' root b = walk m root b := by
  by_cases inside : path ++ [i] <+: indices b
  · obtain ⟨rest, split⟩ := inside
    rw [List.append_assoc, List.singleton_append] at split
    have before : walk m root b = none := by
      rw [walk_eq_resolve, ← split, entries_slot rest link.update.located, link.empty]
      exact resolve_absent b _ _ absent
    cases rest with
    | nil => exact absurd split.symm other
    | cons j rest =>
        have after : walk m' root b = none := by
          rw [walk_eq_resolve, ← split, link.update.entries_through, link.linked]
          simp only [entries, link.blank]
          have last := resolve_absent b (entries nextTable (slot m) 0 root path ++ [slot m' t i])
            (slot m' q j) (blank j)
          simpa using last
        rw [before, after]
  · exact walk_congr (link.update.entries_off (by simp [indices]) inside)

/-- Bytes outside a page `q` and one slot are kept, so only that slot and `q` change. -/
theorem slotUpdate_of_bytes {m m' : Mem} {root t q : Nat} {path : List (Fin 512)} {i : Fin 512}
    (base : PageBase root) (pageQ : PageBase q) (short : path.length < 4)
    (located : pageAt m root path = some t)
    (alone : ∀ other : List (Fin 512), other.length < 4 → pageAt m root other = some t →
      other = path)
    (fresh : ∀ other, pageAt m root other ≠ some q)
    (agree : ∀ n, (n < q ∨ q + 4096 ≤ n) → (n < t + 8 * i ∨ t + 8 * i + 8 ≤ n) → m' n = m n) :
    SlotUpdate nextTable (slot m) (slot m') 4 root path t i
      (fun page => ¬ PageBase page ∨ page = q) where
  deep := fun depth e => nextTable_deep depth e
  short := short
  located := located
  alone := alone
  spared := by
    intro other page _ reached outside
    rcases outside with unaligned | same
    · exact unaligned (pageAt_pageBase base reached)
    · exact fresh other (same ▸ reached)
  frame := by
    intro page j inside different
    simp only [not_or, not_not] at inside
    obtain ⟨pageBase, notQ⟩ := inside
    have aligned := pageBase.1
    have alignedQ := pageQ.1
    have alignedT := (pageAt_pageBase base located).1
    have boundI := i.isLt
    have boundJ := j.isLt
    have apart : page ≠ t ∨ j.val ≠ i.val := by
      by_contra same
      simp only [ne_eq, not_or, not_not] at same
      exact different ⟨same.1, Fin.ext same.2⟩
    apply slot_congr
    intro n lower upper
    exact agree n (by omega) (by omega)

section Outside

variable {m m' : Mem} {root : Nat}
  (agree : ∀ (path : List (Fin 512)) table, path.length < 4 → pageAt m root path = some table →
    ∀ n, table ≤ n → n < table + 4096 → m' n = m n)

include agree

theorem pageAt_outside (path : List (Fin 512)) : pageAt m' root path = pageAt m root path := by
  apply follow_congr
  intro before i after table _ reached
  by_cases short : before.length < 4
  · have bound := i.isLt
    rw [slot_congr fun n lower upper => agree before table short reached n (by omega) (by omega)]
  · rw [nextTable_deep _ _ (by omega), nextTable_deep _ _ (by omega)]

theorem walk_outside (address : Nat) : walk m' root address = walk m root address := by
  apply walk_congr
  apply entries_congr
  intro before i after table split reached
  have bound := i.isLt
  have level := before_short split.symm rfl
  exact slot_congr fun n lower upper =>
    agree before table (by omega) reached n (by omega) (by omega)

theorem slotsHold_outside {Φ : List (Fin 512) → PageTableEntry → Prop}
    (holds : SlotsHold Φ m root) :
    SlotsHold Φ m' root := by
  intro path table index short reached
  have bound := index.isLt
  rw [pageAt_outside agree] at reached
  rw [slot_congr fun n lower upper => agree path table short reached n (by omega) (by omega)]
  exact holds path table index short reached

end Outside

theorem WellFormed.outside {owned : List (Fin 512) → Prop} {k : Kernel} {root : Nat}
    {free : List Nat} {m' : Mem} (wf : WellFormed owned k root free)
    (tables : ∀ (path : List (Fin 512)) table, path.length < 4 →
      pageAt k.mem root path = some table →
      ∀ n, table ≤ n → n < table + 4096 → m' n = k.mem n)
    (listed : ∀ page ∈ free, ∀ n, page ≤ n → n < page + 4096 → m' n = k.mem n) :
    WellFormed owned { k with mem := m' } root free where
  base := wf.base
  tables := wf.tables
  unshared := by
    intro left right page ownedLeft ownedRight
    simp only [pageAt_outside tables]
    exact wf.unshared left right page ownedLeft ownedRight
  list := by
    refine Kernel.freeList_congr (k := k) wf.list rfl ?_
    intro page member
    apply readLE_congr
    intro n lower upper
    exact listed page member n (by omega) (by omega)
  pages := wf.pages
  disjoint := by
    intro path page
    simp only [pageAt_outside tables]
    exact wf.disjoint path page

section Malloc

variable {owned : List (Fin 512) → Prop} {k : Kernel} {root t q : Nat} {free rest : List Nat}
  {path : List (Fin 512)} {i : Fin 512}

theorem WellFormed.ptov_ne_zero (wf : WellFormed owned k root free) {page : Nat}
    (member : page ∈ free) : k.ptov page ≠ 0 := by
  have nonzero := chain_ne_null wf.list page member
  have bound := (wf.pages page member).2
  unfold Kernel.ptov
  omega

theorem WellFormed.table_ne_free (wf : WellFormed owned k root free) {page : Nat}
    (member : page ∈ free) (reached : pageAt k.mem root path = some t) : t ≠ page :=
  fun same => wf.disjoint path t reached (same ▸ member)

def mallocMem (m : Mem) (t : Nat) (i : Fin 512) (q : Nat) (user writable executable : Bool) : Mem :=
  fill (setSlot (writeLE m q 8 0) t i (populate (slot m t i) q user writable executable)) q 4096 0

/-- `malloc_page` takes the head of the free list, whatever else that page is used for. -/
theorem mallocPage_head {k : Kernel} (list : k.FreeList (q :: rest)) (pageQ : PageBase q)
    (mapped : k.ptov q ≠ 0) (boundT : t < 2 ^ 52) (user writable executable : Bool) :
    k.mallocPage (k.entryPtr t i) user writable executable =
      ({ k with
          mem := fill (setSlot (writeLE k.mem q 8 0) t i
            (populate (slot (writeLE k.mem q 8 0) t i) q user writable executable)) q 4096 0
          freelist := nextNode k.mem q }, false) := by
  have bound := pageQ.2
  have nonzero : q ≠ 0 := list.2.1
  let k1 : Kernel := { k with mem := writeLE k.mem q 8 0, freelist := nextNode k.mem q }
  have alloc : k.pmemAlloc = (k1, q) := k.pmemAlloc_cons q rest list (by omega) mapped
  unfold Kernel.mallocPage
  simp only [alloc, nonzero, if_false]
  change ((k1.storeEntry (k1.entryPtr t i)
    (populate (k1.loadEntry (k1.entryPtr t i)) q user writable
    executable)).memset (k1.ptov q) 0 4096, false) = _
  rw [k1.loadEntry_eq_slot i boundT, k1.storeEntry_eq_setSlot i _ boundT]
  let k2 : Kernel := { k1 with
    mem := setSlot k1.mem t i (populate (slot k1.mem t i) q user writable executable) }
  change (k2.memset (k2.ptov q) 0 4096, false) = _
  rw [k2.memset_eq_fill q 4096 0 (by omega)]

theorem mallocPage_eq (wf : WellFormed owned k root (q :: rest))
    (reached : pageAt k.mem root path = some t) (user writable executable : Bool) :
    k.mallocPage (k.entryPtr t i) user writable executable =
      ({ k with
          mem := mallocMem k.mem t i q user writable executable
          freelist := nextNode k.mem q }, false) := by
  have member : q ∈ q :: rest := List.mem_cons_self
  have different := wf.table_ne_free member reached
  have alignedQ := (wf.pages q member).1.1
  have alignedT := (pageAt_pageBase wf.base reached).1
  have inRange := i.isLt
  have entry : slot (writeLE k.mem q 8 0) t i = slot k.mem t i :=
    slot_agree (writeLE_agreeOutside _ _ _ _) (by omega)
  rw [mallocPage_head wf.list (wf.pages q member).1 (wf.ptov_ne_zero member)
    (pageAt_pageBase wf.base reached).2, entry]
  rfl

variable (user writable executable : Bool)

theorem mallocMem_agree {n : Nat} (outQ : n < q ∨ q + 4096 ≤ n)
    (outSlot : n < t + 8 * i ∨ t + 8 * i + 8 ≤ n) (m : Mem) :
    mallocMem m t i q user writable executable n = m n := by
  rw [mallocMem, fill_agreeOutside _ _ _ _ n outQ, setSlot_agreeOutside _ _ _ _ n outSlot,
    writeLE_outside _ _ _ _ _ (by omega)]

theorem mallocMem_zero (m : Mem) {n : Nat} (lower : q ≤ n) (upper : n < q + 4096) :
    mallocMem m t i q user writable executable n = 0 :=
  fill_inside _ _ _ _ _ lower upper

theorem mallocMem_blank (m : Mem) (j : Fin 512) :
    slot (mallocMem m t i q user writable executable) q j = .decode 0 :=
  slot_zero (fun _ lower upper => mallocMem_zero user writable executable m lower upper) j

theorem mallocMem_slot (m : Mem) (pageQ : PageBase q) (pageT : PageBase t) (different : t ≠ q) :
    slot (mallocMem m t i q user writable executable) t i =
      populate (slot m t i) q user writable executable := by
  have alignedQ := pageQ.1
  have alignedT := pageT.1
  have bound := i.isLt
  rw [mallocMem, slot_agree (fill_agreeOutside _ _ _ _) (by omega), slot_setSlot]

theorem mallocMem_link (wf : WellFormed owned k root (q :: rest)) (short : path.length < 4)
    (reached : pageAt k.mem root path = some t) (absent : (slot k.mem t i).present = false)
    (small : path.length = 1 ∨ path.length = 2 → (slot k.mem t i).pageSize = false) :
    Link nextTable (slot k.mem) (slot (mallocMem k.mem t i q user writable executable)) 4 root
      path t i q (fun page => ¬ PageBase page ∨ page = q) := by
  have member : q ∈ q :: rest := List.mem_cons_self
  have pageQ := (wf.pages q member).1
  have pageT := pageAt_pageBase wf.base reached
  refine ⟨?_, ?_, ?_, ?_⟩
  · apply slotUpdate_of_bytes wf.base pageQ short reached
    · intro other bounded same
      exact wf.unshared other path t (wf.tables other bounded) (wf.tables path short) same reached
    · exact fun other same => wf.disjoint other q same member
    · exact fun n outQ outSlot => mallocMem_agree user writable executable outQ outSlot k.mem
  · exact nextTable_absent absent _
  · rw [mallocMem_slot user writable executable k.mem pageQ pageT (wf.table_ne_free member reached)]
    exact nextTable_populate pageQ short small user writable executable
  · intro depth j
    rw [mallocMem_blank]
    exact nextTable_absent rfl _

/-- Linking the first free page keeps the address space well-formed. -/
theorem mallocPage_wellFormed (wf : WellFormed owned k root (q :: rest)) (short : path.length < 4)
    (reached : pageAt k.mem root path = some t) (absent : (slot k.mem t i).present = false)
    (small : path.length = 1 ∨ path.length = 2 → (slot k.mem t i).pageSize = false) :
    WellFormed owned { k with
      mem := mallocMem k.mem t i q user writable executable
      freelist := nextNode k.mem q } root rest := by
  have member : q ∈ q :: rest := List.mem_cons_self
  have distinct := List.nodup_cons.mp (chain_nodup wf.list)
  have pageQ := (wf.pages q member).1
  have pageT := pageAt_pageBase wf.base reached
  have link := mallocMem_link user writable executable wf short reached absent small
  refine ⟨wf.base, wf.tables, ?_, ?_, ?_, ?_⟩
  · exact link.unshared owned (fun other _ same => wf.disjoint other q same member) wf.unshared
  · refine chain_congr ?_ wf.list.2.2
    intro page inside
    have pageP := (wf.pages page (List.mem_cons_of_mem _ inside)).1
    have notQ : page ≠ q := fun same => distinct.1 (same ▸ inside)
    have notT := wf.table_ne_free (List.mem_cons_of_mem _ inside) reached
    have alignedP := pageP.1
    have alignedQ := pageQ.1
    have alignedT := pageT.1
    have inRange := i.isLt
    apply readLE_congr
    intro n lower upper
    exact mallocMem_agree user writable executable (by omega) (by omega) k.mem
  · exact fun page inside => wf.pages page (List.mem_cons_of_mem _ inside)
  · intro other page found inside
    by_cases here : other = path ++ [i]
    · have same : q = page := by
        rw [here, pageAt, link.follow_here, Option.some.injEq] at found
        exact found
      exact distinct.1 (same ▸ inside)
    · rw [pageAt, link.follow_other here] at found
      exact wf.disjoint other page found (List.mem_cons_of_mem _ inside)

theorem mallocMem_slots (wf : WellFormed owned k root (q :: rest)) (short : path.length < 4)
    (reached : pageAt k.mem root path = some t) (absent : (slot k.mem t i).present = false)
    (small : path.length = 1 ∨ path.length = 2 → (slot k.mem t i).pageSize = false)
    {Φ : List (Fin 512) → PageTableEntry → Prop} (holds : SlotsHold Φ k.mem root)
    (blank : ∀ other, Φ other (.decode 0))
    (populated : Φ (path ++ [i]) (populate (slot k.mem t i) q user writable executable)) :
    SlotsHold Φ (mallocMem k.mem t i q user writable executable) root := by
  have member : q ∈ q :: rest := List.mem_cons_self
  have pageQ := (wf.pages q member).1
  have pageT := pageAt_pageBase wf.base reached
  have link := mallocMem_link user writable executable wf short reached absent small
  intro other table j bounded found
  by_cases here : other = path ++ [i]
  · rw [here, pageAt, link.follow_here, Option.some.injEq] at found
    rw [← found, mallocMem_blank]
    exact blank _
  · rw [pageAt, link.follow_other here] at found
    by_cases same : table = t ∧ j = i
    · obtain ⟨rfl, rfl⟩ := same
      rw [link.update.alone other bounded found,
        mallocMem_slot user writable executable k.mem pageQ pageT (wf.table_ne_free member reached)]
      exact populated
    · rw [link.update.frame table j (link.update.spared other table bounded found) same]
      exact holds other table j bounded found

end Malloc

end PaintKernel
