import Mathlib
import PaintKernel.Traversal

set_option autoImplicit false

/-! The effect of `vm_map` on a well-formed address space. -/

namespace PaintKernel

open ByteMemory RadixTree LinkedList

/-- Entry properties that populating the absent entries of `path` keeps: tables get every
right, the leaf gets the requested ones. -/
structure Stable (Φ : List (Fin 512) → PageTableEntry → Prop) (path : List (Fin 512))
    (user writable executable : Bool) : Prop where
  blank : ∀ other, Φ other (.decode 0)
  table : ∀ other e page, other <+: path → other.length < 4 → e.present = false → Φ other e →
    Φ other (populate e page true true true)
  leaf : ∀ e page, e.present = false → Φ path e → Φ path (populate e page user writable executable)

/-- `k'` adds pages of the free list to the tree of `k`, only along `path`. -/
structure Extends (owned : List (Fin 512) → Prop) (root : Nat) (path : List (Fin 512))
    (user writable executable : Bool) (k : Kernel) (free : List Nat) (k' : Kernel)
    (free' : List Nat) : Prop where
  wellFormed : WellFormed owned k' root free'
  suffix : free' <:+ free
  kept : ∀ other page, pageAt k.mem root other = some page → pageAt k'.mem root other = some page
  added : ∀ other page, pageAt k'.mem root other = some page →
    pageAt k.mem root other = some page ∨ other <+: path ∧ page ∈ free
  taken : ∀ page ∈ free, page ∈ free' ∨ ∃ other, pageAt k'.mem root other = some page
  walks : ∀ b, indices b ≠ path → walk k'.mem root b = walk k.mem root b
  slots : ∀ Φ, Stable Φ path user writable executable → SlotsHold Φ k.mem root →
    SlotsHold Φ k'.mem root
  bytes : ∀ n, (∀ page ∈ free, n < page ∨ page + 4096 ≤ n) →
    (∀ other table, other.length < 4 → pageAt k.mem root other = some table →
      n < table ∨ table + 4096 ≤ n) → k'.mem n = k.mem n
  offset : k'.virtualOffset = k.virtualOffset
  control : k'.cr0 = k.cr0 ∧ k'.cr3 = k.cr3

variable {owned : List (Fin 512) → Prop} {root : Nat} {path : List (Fin 512)}
  {user writable executable : Bool} {k k' k'' : Kernel} {free free' free'' : List Nat}

theorem Extends.refl (wf : WellFormed owned k root free) :
    Extends owned root path user writable executable k free k free where
  wellFormed := wf
  suffix := List.suffix_refl free
  kept := fun _ _ reached => reached
  added := fun _ _ reached => .inl reached
  taken := fun _ member => .inl member
  walks := fun _ _ => rfl
  slots := fun _ _ holds => holds
  bytes := fun _ _ _ => rfl
  offset := rfl
  control := ⟨rfl, rfl⟩

theorem Extends.trans (first : Extends owned root path user writable executable k free k' free')
    (second : Extends owned root path user writable executable k' free' k'' free'') :
    Extends owned root path user writable executable k free k'' free'' where
  wellFormed := second.wellFormed
  suffix := second.suffix.trans first.suffix
  kept := fun other page reached => second.kept other page (first.kept other page reached)
  added := by
    intro other page reached
    rcases second.added other page reached with before | ⟨inside, member⟩
    · exact first.added other page before
    · exact .inr ⟨inside, first.suffix.subset member⟩
  taken := by
    intro page member
    rcases first.taken page member with left | ⟨other, reached⟩
    · exact second.taken page left
    · exact .inr ⟨other, second.kept other page reached⟩
  walks := fun b other => (second.walks b other).trans (first.walks b other)
  slots := fun Φ stable holds => second.slots Φ stable (first.slots Φ stable holds)
  bytes := by
    intro n outFree outTables
    have firstSame := first.bytes n outFree outTables
    rw [← firstSame]
    apply second.bytes n (fun page member => outFree page (first.suffix.subset member))
    intro other table short reached
    rcases first.added other table reached with before | ⟨_, member⟩
    · exact outTables other table short before
    · exact outFree table member
  offset := second.offset.trans first.offset
  control := ⟨second.control.1.trans first.control.1, second.control.2.trans first.control.2⟩

section Malloc

variable {t q : Nat} {rest before : List (Fin 512)} {left : List Nat} {i : Fin 512}

theorem extends_malloc (path rest : List (Fin 512)) (wf : WellFormed owned k root (q :: left))
    (split : before ++ i :: rest = path) (whole : path.length = 4)
    (reached : pageAt k.mem root before = some t) (absent : (slot k.mem t i).present = false)
    (small : before.length = 1 ∨ before.length = 2 → (slot k.mem t i).pageSize = false)
    (u w x : Bool) (rights : (rest = [] ∧ u = user ∧ w = writable ∧ x = executable) ∨
      (rest ≠ [] ∧ u = true ∧ w = true ∧ x = true)) :
    Extends owned root path user writable executable k (q :: left)
      { k with mem := mallocMem k.mem t i q u w x, freelist := nextNode k.mem q } left := by
  have level := before_short split whole
  have short : before.length < 4 := by omega
  have member : q ∈ q :: left := List.mem_cons_self
  have inside : before ++ [i] <+: path := ⟨rest, by simpa using split⟩
  have link := mallocMem_link u w x wf short reached absent small
  refine ⟨mallocPage_wellFormed u w x wf short reached absent small, List.suffix_cons q left,
    fun other page found => link.kept found, ?_, ?_, ?_, ?_, ?_, rfl, rfl, rfl⟩
  · intro other page found
    by_cases here : other = before ++ [i]
    · rw [here, pageAt, link.follow_here, Option.some.injEq] at found
      exact .inr ⟨here ▸ inside, found ▸ member⟩
    · rw [pageAt, link.follow_other here] at found
      exact .inl found
  · intro page inFree
    rcases List.mem_cons.mp inFree with rfl | later
    · exact .inr ⟨before ++ [i], link.follow_here⟩
    · exact .inl later
  · intro b other
    apply walk_of_link link absent (fun j => by rw [mallocMem_blank]; rfl)
    intro same
    have size := congrArg List.length same
    simp only [indices, List.length_cons, List.length_append, List.length_nil] at size
    have whole' : before ++ [i] = path := inside.eq_of_length (by simp; omega)
    exact other (same.trans whole')
  · intro Φ stable holds
    apply mallocMem_slots u w x wf short reached absent small holds stable.blank
    have old := holds before t i short reached
    rcases rights with ⟨rfl, rfl, rfl, rfl⟩ | ⟨more, rfl, rfl, rfl⟩
    · rw [show before ++ [i] = path from split] at old ⊢
      exact stable.leaf _ q absent old
    · apply stable.table _ _ q inside _ absent old
      have positive := List.length_pos_iff.mpr more
      rw [List.length_append, List.length_singleton]
      omega
  · intro n outFree outTables
    have outQ := outFree q member
    have outT := outTables before t short reached
    have bound := i.isLt
    exact mallocMem_agree u w x outQ (by omega) k.mem

end Malloc

theorem smallOn_stable (other path : List (Fin 512)) (user writable executable : Bool) :
    Stable (SmallOn other) path user writable executable where
  blank := fun _ _ _ => rfl
  table := fun _ _ _ _ _ _ small => small
  leaf := fun _ _ _ small => small

def absentLevels (m : Mem) (root : Nat) : List (Fin 512) → List (Fin 512) → Nat
  | _, [] => 0
  | before, i :: rest =>
      match pageAt m root (before ++ [i]) with
      | none => rest.length + 1
      | some _ => absentLevels m root (before ++ [i]) rest

theorem absentLevels_le (m : Mem) (root : Nat) (before rest : List (Fin 512)) :
    absentLevels m root before rest ≤ rest.length := by
  induction rest generalizing before with
  | nil => exact Nat.le_refl _
  | cons i rest ih =>
      simp only [absentLevels, List.length_cons]
      split
      · exact Nat.le_refl _
      · exact Nat.le_trans (ih _) (Nat.le_succ _)

section Ensure

variable {t table : Nat} {before rest : List (Fin 512)} {i : Fin 512}

theorem ensureTable_found (base : PageBase t) (present : (slot k.mem t i).present = true) :
    k.ensureTable (k.entryPtr t i) = (k, some (slot k.mem t i).target) := by
  simp only [Kernel.ensureTable, k.loadEntry_eq_slot i base.2, present, if_true]

theorem ensureTable_present (reached : pageAt k.mem root before = some t) (base : PageBase root)
    (found : pageAt k.mem root (before ++ [i]) = some table) :
    k.ensureTable (k.entryPtr t i) = (k, some table) := by
  rw [pageAt_snoc reached] at found
  obtain ⟨present, target⟩ := nextTable_eq_some found
  rw [ensureTable_found (pageAt_pageBase base reached) present, target]

theorem ensureTable_absent {q : Nat} {left : List Nat} (user writable executable : Bool)
    (wf : WellFormed owned k root (q :: left)) (split : before ++ i :: rest = path)
    (whole : path.length = 4) (more : rest ≠ []) (reached : pageAt k.mem root before = some t)
    (small : before.length = 1 ∨ before.length = 2 → (slot k.mem t i).pageSize = false)
    (absent : (slot k.mem t i).present = false) :
    ∃ k', k.ensureTable (k.entryPtr t i) = (k', some q) ∧
      Extends owned root path user writable executable k (q :: left) k' left ∧
      pageAt k'.mem root (before ++ [i]) = some q ∧
      ∀ other, other ≠ before ++ [i] → pageAt k'.mem root other = pageAt k.mem root other := by
  have level := before_short split whole
  have bound := (pageAt_pageBase wf.base reached).2
  have pageQ := (wf.pages q List.mem_cons_self).1
  have pageT := pageAt_pageBase wf.base reached
  have different := wf.table_ne_free List.mem_cons_self reached
  have link := mallocMem_link true true true wf (by omega) reached absent small
  let k1 : Kernel := { k with
    mem := mallocMem k.mem t i q true true true, freelist := nextNode k.mem q }
  have entry : k1.loadEntry (k1.entryPtr t i) = populate (slot k.mem t i) q true true true := by
    rw [k1.loadEntry_eq_slot i bound]
    exact mallocMem_slot true true true k.mem pageQ pageT different
  refine ⟨k1, ?_, ?_, link.follow_here, fun other different => link.follow_other different⟩
  · simp only [Kernel.ensureTable, k.loadEntry_eq_slot i bound, absent, Bool.false_eq_true,
      if_false, mallocPage_eq wf reached]
    change (k1, some (k1.loadEntry (k1.entryPtr t i)).target) = _
    rw [entry, populate_target _ pageQ]
  · exact extends_malloc path rest wf split whole reached absent small true true true
      (.inr ⟨more, rfl, rfl, rfl⟩)

/-- One level of the traversal: the table exists afterwards, at the price of one free page
when it did not exist before. -/
theorem ensureTable_spec (user writable executable : Bool) (before : List (Fin 512))
    (wf : WellFormed owned k root free) (split : before ++ i :: rest = path)
    (whole : path.length = 4) (more : rest ≠ []) (reached : pageAt k.mem root before = some t)
    (small : SlotsHold (SmallOn path) k.mem root)
    (room : absentLevels k.mem root before (i :: rest) ≤ free.length) :
    ∃ k' free' table, k.ensureTable (k.entryPtr t i) = (k', some table) ∧
      Extends owned root path user writable executable k free k' free' ∧
      pageAt k'.mem root (before ++ [i]) = some table ∧
      absentLevels k'.mem root (before ++ [i]) rest ≤ free'.length ∧
      free.length ≤ free'.length + 1 ∧
      ∀ other, other.length ≠ before.length + 1 →
        pageAt k'.mem root other = pageAt k.mem root other := by
  have level := before_short split whole
  have smallHere := smallOn_step split whole reached small
  cases present : (slot k.mem t i).present with
  | true =>
      have found : pageAt k.mem root (before ++ [i]) = some (slot k.mem t i).target :=
        pageAt_present reached (by omega) present smallHere
      refine ⟨k, free, _, ensureTable_present reached wf.base found, .refl wf, found, ?_, by omega,
        fun _ _ => rfl⟩
      simpa only [absentLevels, found] using room
  | false =>
      have missing : pageAt k.mem root (before ++ [i]) = none := pageAt_absent reached present
      simp only [absentLevels, missing] at room
      cases free with
      | nil => simp at room
      | cons q left =>
          rcases ensureTable_absent user writable executable wf split whole more reached smallHere
            present with
            ⟨k', call, grown, found, others⟩
          refine ⟨k', left, q, call, grown, found, ?_, by simp, ?_⟩
          · simp only [List.length_cons] at room
            exact Nat.le_trans (absentLevels_le _ _ _ _) (by omega)
          · intro other different
            apply others
            rintro rfl
            simp at different

end Ensure

theorem Extends.invalidate
    (grown : Extends owned root path user writable executable k free k' free') (address : Nat) :
    Extends owned root path user writable executable k free (k'.invalidateTlb address) free' :=
  { grown with
    wellFormed := { grown.wellFormed with }
    control := grown.control }

section VmMap

variable {address frame : Nat}

theorem vmMap_mapped (wf : WellFormed owned k root free)
    (mapped : pageAt k.mem root (indices address) = some frame) :
    k.vmMap root address user writable executable = (k, false) := by
  obtain ⟨t3, t2, t1, tables⟩ := traversed_of_mapped mapped
  have first := ensureTable_present (show pageAt k.mem root [] = some root from rfl) wf.base
    tables.table3
  have second := ensureTable_present tables.table3 wf.base tables.table2
  have third := ensureTable_present tables.table2 wf.base tables.table1
  rw [tables.leaf] at mapped
  have present := (nextTable_eq_some mapped).1
  have entry := k.loadEntry_eq_slot (level1 address) (pageAt_pageBase wf.base tables.table1).2
  simp only [Kernel.vmMap, first, second, third, entry, present, if_true]

/-- With a free page for every missing level, an unmapped page gets a zeroed free frame. -/
theorem vmMap_unmapped (user writable executable : Bool) (wf : WellFormed owned k root free)
    (small : SlotsHold (SmallOn (indices address)) k.mem root)
    (unmapped : pageAt k.mem root (indices address) = none)
    (room : absentLevels k.mem root [] (indices address) ≤ free.length) :
    ∃ k' free' frame, k.vmMap root address user writable executable = (k', true) ∧
      Extends owned root (indices address) user writable executable k free k' free' ∧
      pageAt k'.mem root (indices address) = some frame ∧ frame ∈ free ∧
      (∀ n, frame ≤ n → n < frame + 4096 → k'.mem n = 0) ∧
      (∃ table old, pageAt k'.mem root [level4 address, level3 address, level2 address] =
        some table ∧
        slot k'.mem table (level1 address) = populate old frame user writable executable) ∧
      free.length ≤ free'.length + 4 := by
  have whole : (indices address).length = 4 := rfl
  have stable := smallOn_stable (indices address) (indices address) user writable executable
  obtain ⟨k3, free3, t3, call3, grow3, reached3, room3, cost3, same3⟩ :=
    ensureTable_spec user writable executable [] wf rfl whole (by simp) rfl small room
  obtain ⟨k2, free2, t2, call2, grow2, reached2, room2, cost2, same2⟩ :=
    ensureTable_spec user writable executable [level4 address] grow3.wellFormed rfl whole
      (by simp) reached3
      (grow3.slots _ stable small) room3
  have grow02 := grow3.trans grow2
  obtain ⟨k1, free1, t1, call1, grow1, reached1, room1, cost1, same1⟩ :=
    ensureTable_spec user writable executable [level4 address,
      level3 address] grow2.wellFormed rfl whole
      (by simp) reached2 (grow02.slots _ stable small) room2
  have grow01 := grow02.trans grow1
  have wf1 := grow1.wellFormed
  have reached1 : pageAt k1.mem root [level4 address, level3 address, level2 address] = some t1 :=
    reached1
  have unmapped1 : pageAt k1.mem root (indices address) = none := by
    rw [same1 _ (by simp [indices]), same2 _ (by simp [indices]),
      same3 _ (by simp [indices]), unmapped]
  have pageT := pageAt_pageBase wf1.base reached1
  have absent : (slot k1.mem t1 (level1 address)).present = false :=
    absent_of_pageAt reached1 (by simp) (by simp) unmapped1
  have leafRoom : free1 ≠ [] := by
    rintro rfl
    have missing : pageAt k1.mem root [level4 address, level3 address, level2 address,
        level1 address] =
        none := unmapped1
    simp [absentLevels, missing] at room1
  obtain ⟨q, left, rfl⟩ := List.exists_cons_of_ne_nil leafRoom
  have member : q ∈ q :: left := List.mem_cons_self
  have link := mallocMem_link user writable executable wf1 (by simp) reached1 absent (by simp)
  have leaf := extends_malloc (indices address) [] wf1 rfl whole reached1 absent
    (by simp) user writable executable (.inl ⟨rfl, rfl, rfl, rfl⟩)
  let k0 : Kernel := { k1 with
    mem := mallocMem k1.mem t1 (level1 address) q user writable executable
    freelist := nextNode k1.mem q }
  refine ⟨k0.invalidateTlb address, left, q, ?_, (grow01.trans leaf).invalidate address,
    link.follow_here, grow01.suffix.subset member, ?_, ⟨t1, slot k1.mem t1 (level1 address),
    link.update.follow_table, ?_⟩, ?_⟩
  · simp only [Kernel.vmMap, call3, call2, call1, k1.loadEntry_eq_slot _ pageT.2, absent,
      Bool.false_eq_true, if_false, mallocPage_eq wf1 reached1]
    rfl
  · exact fun n lower upper => mallocMem_zero user writable executable k1.mem lower upper
  · exact mallocMem_slot user writable executable k1.mem (wf1.pages q member).1 pageT
      (wf1.table_ne_free member reached1)
  · simp only [List.length_cons] at cost1
    omega

end VmMap

end PaintKernel
