import Mathlib
import PaintKernel.PageMap

set_option autoImplicit false

/-! `vm_map` when the free list may run out.

At the end of the list `pmem_alloc` tests the translated null pointer, so it clears the first
word of page 0 and takes the second one as the rest of the list. -/

namespace PaintKernel

open ByteMemory RadixTree LinkedList

def Kernel.exhausted (k : Kernel) : Kernel :=
  if k.virtualOffset = 0 then k
  else { k with mem := writeLE k.mem 0 8 0, freelist := nextNode k.mem 0 }

/-- Treating page 0 as the last node of the free list is harmless: nothing owns it and its `next`
field is null. Without an offset the null test works. -/
def Spare (owned : List (Fin 512) → Prop) (k : Kernel) (root : Nat) : Prop :=
  k.virtualOffset = 0 ∨ nextNode k.mem 0 = 0 ∧ ∀ path, owned path → pageAt k.mem root path ≠ some 0

def missing (m : Mem) (root : Nat) (addresses : List Nat) : Finset (List (Fin 512)) :=
  (addresses.flatMap fun a => (indices a).inits).toFinset.filter fun path =>
    pageAt m root path = none

/-- The free list holds all the pages that mapping the addresses takes, or its end is harmless. -/
def Supplied (owned : List (Fin 512) → Prop) (k : Kernel) (root : Nat) (free : List Nat)
    (addresses : List Nat) : Prop :=
  (missing k.mem root addresses).card ≤ free.length ∨ Spare owned k root

/-- `k'` is `k` with more tables and frames along `path`, taken from the free list. -/
structure Grown (owned : List (Fin 512) → Prop) (root : Nat) (path : List (Fin 512))
    (user writable executable : Bool) (k : Kernel) (free : List Nat) (k' : Kernel)
    (free' : List Nat) : Prop where
  wellFormed : WellFormed owned k' root free'
  rest : ∀ page ∈ free', page ∈ free
  kept : ∀ other page, pageAt k.mem root other = some page → pageAt k'.mem root other = some page
  added : ∀ other page, pageAt k'.mem root other = some page →
    pageAt k.mem root other = some page ∨ page ∈ free
  walks : ∀ b, indices b ≠ path → walk k'.mem root b = walk k.mem root b
  slots : ∀ Φ, Stable Φ path user writable executable → SlotsHold Φ k.mem root →
    SlotsHold Φ k'.mem root
  offset : k'.virtualOffset = k.virtualOffset
  control : k'.cr0 = k.cr0 ∧ k'.cr3 = k.cr3

structure Prepared (owned : List (Fin 512) → Prop) (root a : Nat) (user writable executable : Bool)
    (k : Kernel) (free : List Nat) (k' : Kernel) (free' : List Nat) : Prop where
  more : Extends owned root (indices a) user writable executable k free k' free'
  leaf : pageAt k'.mem root (indices a) = pageAt k.mem root (indices a)

def LeafGrants (m : Mem) (root a : Nat) (user writable executable : Bool) : Prop :=
  ∃ frame table old, pageAt m root (indices a) = some frame ∧
    pageAt m root [level4 a, level3 a, level2 a] = some table ∧
    slot m table (level1 a) = populate old frame user writable executable

variable {owned : List (Fin 512) → Prop} {root : Nat} {path : List (Fin 512)}
  {user writable executable : Bool} {k k' k'' : Kernel} {free free' free'' : List Nat}

theorem Extends.grown (more : Extends owned root path user writable executable k free k' free') :
    Grown owned root path user writable executable k free k' free' where
  wellFormed := more.wellFormed
  rest := fun _ member => more.suffix.mem member
  kept := more.kept
  added := fun other page reached => (more.added other page reached).imp_right And.right
  walks := more.walks
  slots := more.slots
  offset := more.offset
  control := more.control

theorem Grown.refl (wf : WellFormed owned k root free) :
    Grown owned root path user writable executable k free k free :=
  (Extends.refl wf).grown

theorem Grown.trans (first : Grown owned root path user writable executable k free k' free')
    (second : Grown owned root path user writable executable k' free' k'' free'') :
    Grown owned root path user writable executable k free k'' free'' where
  wellFormed := second.wellFormed
  rest := fun page member => first.rest page (second.rest page member)
  kept := fun other page reached => second.kept other page (first.kept other page reached)
  added := by
    intro other page reached
    rcases second.added other page reached with before | member
    · exact first.added other page before
    · exact .inr (first.rest page member)
  walks := fun b other => (second.walks b other).trans (first.walks b other)
  slots := fun Φ stable holds => second.slots Φ stable (first.slots Φ stable holds)
  offset := second.offset.trans first.offset
  control := ⟨second.control.1.trans first.control.1, second.control.2.trans first.control.2⟩

theorem Prepared.refl {a : Nat} (wf : WellFormed owned k root free) :
    Prepared owned root a user writable executable k free k free := ⟨.refl wf, rfl⟩

theorem Prepared.trans {a : Nat}
    (first : Prepared owned root a user writable executable k free k' free')
    (second : Prepared owned root a user writable executable k' free' k'' free'') :
    Prepared owned root a user writable executable k free k'' free'' :=
  ⟨first.more.trans second.more, second.leaf.trans first.leaf⟩

theorem mem_missing {m : Mem} {addresses : List Nat} :
    path ∈ missing m root addresses ↔
      (∃ a ∈ addresses, path <+: indices a) ∧ pageAt m root path = none := by
  simp only [missing, Finset.mem_filter, List.mem_toFinset, List.mem_flatMap, List.mem_inits]

theorem missing_pos {a : Nat} {m : Mem} {addresses : List Nat} {before rest : List (Fin 512)}
    {i : Fin 512} (listed : a ∈ addresses) (split : before ++ i :: rest = indices a)
    (absent : pageAt m root (before ++ [i]) = none) : 0 < (missing m root addresses).card := by
  apply Finset.card_pos.mpr
  exact ⟨before ++ [i], mem_missing.mpr ⟨⟨a, listed, rest, by simpa using split⟩, absent⟩⟩

section Exhausted

variable {a : Nat}

theorem pmemAlloc_nil (list : k.FreeList []) : k.pmemAlloc = (k.exhausted, 0) := by
  have head : k.freelist = 0 := list
  have offset := k.offset_lt
  have start : k.ptov 0 = k.virtualOffset := by
    unfold Kernel.ptov
    omega
  unfold Kernel.pmemAlloc Kernel.exhausted
  by_cases none : k.virtualOffset = 0
  · simp [head, start, none]
  · have nextField := k.deref_ptov_add 0 8 (by decide)
    have here := k.deref_ptov 0 (by decide)
    rw [start] at nextField here
    simp only [head, start, ne_eq, none, not_false_eq_true, if_true, if_false, Kernel.load64,
      Kernel.store64, nextField]
    simp only [Kernel.deref] at here ⊢
    rw [here]
    rfl

theorem mallocPage_nil (list : k.FreeList []) (table : Nat) (u w x : Bool) :
    k.mallocPage table u w x = (k.exhausted, true) := by
  simp [Kernel.mallocPage, pmemAlloc_nil list]

theorem ensureTable_nil {t : Nat} {i : Fin 512} (list : k.FreeList []) (bound : t < 2 ^ 52)
    (absent : (slot k.mem t i).present = false) :
    k.ensureTable (k.entryPtr t i) = (k.exhausted, none) := by
  simp [Kernel.ensureTable, k.loadEntry_eq_slot i bound, absent, mallocPage_nil list]

theorem ensureTable_cases (user writable executable : Bool) (before : List (Fin 512))
    {rest : List (Fin 512)} {i : Fin 512} {t : Nat} (wf : WellFormed owned k root free)
    (split : before ++ i :: rest = indices a) (inner : rest ≠ [])
    (reached : pageAt k.mem root before = some t)
    (small : SlotsHold (SmallOn (indices a)) k.mem root) :
    (∃ k' free' table, k.ensureTable (k.entryPtr t i) = (k', some table) ∧
      Prepared owned root a user writable executable k free k' free' ∧
      pageAt k'.mem root (before ++ [i]) = some table) ∨
    free = [] ∧ pageAt k.mem root (before ++ [i]) = none ∧
      k.ensureTable (k.entryPtr t i) = (k.exhausted, none) := by
  cases present : (slot k.mem t i).present with
  | true =>
      have found := small_step small before split reached present
      exact .inl ⟨k, free, _, ensureTable_present reached wf.base found, .refl wf, found⟩
  | false =>
      cases free with
      | nil =>
          exact .inr ⟨rfl, pageAt_absent reached present,
            ensureTable_nil wf.list (pageAt_pageBase wf.base reached).2 present⟩
      | cons q left =>
          have smallHere := smallOn_step split rfl reached small
          rcases ensureTable_absent user writable executable wf split rfl inner reached smallHere
            present with
            ⟨k', call, more, found, others⟩
          have leaf : indices a ≠ before ++ [i] := by
            rw [← split]
            simpa using inner
          exact .inl ⟨k', left, q, call, ⟨more, others _ leaf⟩, found⟩

/-- `vm_map` runs out of pages at an absent entry, finds the page mapped, or maps it. -/
theorem vmMap_outcomes (user writable executable : Bool) (wf : WellFormed owned k root free)
    (small : SlotsHold (SmallOn (indices a)) k.mem root) :
    (∃ last before i rest, before ++ i :: rest = indices a ∧
      Prepared owned root a user writable executable k free last [] ∧
      pageAt last.mem root (before ++ [i]) = none ∧
      k.vmMap root a user writable executable = (last.exhausted, false)) ∨
    (∃ k' free' frame, Prepared owned root a user writable executable k free k' free' ∧
      pageAt k'.mem root (indices a) = some frame ∧
        k.vmMap root a user writable executable = (k', false)) ∨
    ∃ k' free', Extends owned root (indices a) user writable executable k free k' free' ∧
      LeafGrants k'.mem root a user writable executable ∧ k.vmMap root a user writable executable =
        (k', true) := by
  have stable := smallOn_stable (indices a) (indices a) user writable executable
  rcases ensureTable_cases user writable executable [] wf rfl (by simp) rfl small with
    ⟨k3, free3, t3, call3, grow3, found3⟩ | ⟨rfl, absent, call⟩
  case inr =>
    exact .inl ⟨k, [], _, _, rfl, .refl wf, absent, by simp only [Kernel.vmMap, call]⟩
  rcases ensureTable_cases user writable executable [level4 a] grow3.more.wellFormed
    rfl (by simp) found3
    (grow3.more.slots _ stable small) with ⟨k2, free2, t2, call2, grow2, found2⟩ | ⟨rfl,
      absent, call⟩
  case inr =>
    exact .inl ⟨k3, [level4 a], _, _, rfl, grow3, absent, by simp only [Kernel.vmMap, call3, call]⟩
  have grow02 := grow3.trans grow2
  rcases ensureTable_cases user writable executable [level4 a, level3 a] grow2.more.wellFormed
    rfl (by simp)
    found2 (grow02.more.slots _ stable small) with ⟨k1, free1, t1, call1, grow1, found1⟩ | ⟨rfl,
      absent, call⟩
  case inr =>
    exact .inl ⟨k2, [level4 a, level3 a], _, _, rfl, grow02,
      absent, by simp only [Kernel.vmMap, call3, call2, call]⟩
  have grow01 := grow02.trans grow1
  have wf1 := grow01.more.wellFormed
  have reached : pageAt k1.mem root [level4 a, level3 a, level2 a] = some t1 := found1
  have entry := k1.loadEntry_eq_slot (level1 a) (pageAt_pageBase wf1.base reached).2
  cases present : (slot k1.mem t1 (level1 a)).present with
  | true =>
      have found := small_step (grow01.more.slots _ stable small) _ (indices_split a).symm
        reached present
      refine .inr (.inl ⟨k1, free1, _, grow01, found, ?_⟩)
      simp only [Kernel.vmMap, call3, call2, call1, entry, present, if_true]
  | false =>
      cases free1 with
      | nil =>
          have absent : pageAt k1.mem root ([level4 a, level3 a, level2 a] ++ [level1 a]) = none :=
            pageAt_absent reached present
          refine .inl ⟨k1, [level4 a, level3 a, level2 a], _, [], rfl, grow01, absent, ?_⟩
          simp only [Kernel.vmMap, call3, call2, call1, entry, present,
            Bool.false_eq_true, if_false, mallocPage_nil wf1.list]
      | cons q left =>
          have leaf := extends_malloc (indices a) [] wf1 rfl rfl reached present
            (by simp) user writable
            executable (.inl ⟨rfl, rfl, rfl, rfl⟩)
          have link := mallocMem_link user writable executable wf1
            (by simp) reached present (by simp)
          refine .inr (.inr ⟨_, left, (grow01.more.trans leaf).invalidate a,
            ⟨q, t1, slot k1.mem t1 (level1 a), link.follow_here, link.update.follow_table, ?_⟩, ?_⟩)
          · exact mallocMem_slot user writable executable k1.mem (wf1.pages q List.mem_cons_self).1
              (pageAt_pageBase wf1.base reached) (wf1.table_ne_free List.mem_cons_self reached)
          · simp only [Kernel.vmMap, call3, call2, call1, entry, present,
              Bool.false_eq_true, if_false, mallocPage_eq wf1 reached]

theorem vmMap_cases (user writable executable : Bool) (wf : WellFormed owned k root free)
    (small : SlotsHold (SmallOn (indices a)) k.mem root) :
    (∃ last before i rest, before ++ i :: rest = indices a ∧
      Prepared owned root a user writable executable k free last [] ∧
      pageAt last.mem root (before ++ [i]) = none ∧
      k.vmMap root a user writable executable = (last.exhausted, false)) ∨
    (∃ k' free' frame, Prepared owned root a user writable executable k free k' free' ∧
      pageAt k'.mem root (indices a) = some frame ∧
        k.vmMap root a user writable executable = (k', false)) ∨
    ∃ k' free', Extends owned root (indices a) user writable executable k free k' free' ∧
      k.vmMap root a user writable executable = (k', true) := by
  rcases vmMap_outcomes user writable executable wf small with
    failed | found | ⟨k', free', more, _, call⟩
  · exact .inl failed
  · exact .inr (.inl found)
  · exact .inr (.inr ⟨k', free', more, call⟩)

theorem pageZero_outside (base : PageBase root)
    (noTable : ∀ path : List (Fin 512), path.length < 4 → pageAt k.mem root path ≠ some 0) :
    ∀ (path : List (Fin 512)) table, path.length < 4 → pageAt k.mem root path = some table →
      ∀ n, table ≤ n → n < table + 4096 → writeLE k.mem 0 8 0 n = k.mem n := by
  intro path table short reached n lower upper
  have aligned := (pageAt_pageBase base reached).1
  have nonzero : table ≠ 0 := fun same => noTable path short (same ▸ reached)
  exact writeLE_outside _ _ _ _ _ (by omega)

/-- With page 0 spare, failing to allocate keeps the address space and the empty list. -/
theorem exhausted_grown (wf : WellFormed owned k root []) (spare : Spare owned k root) :
    Grown owned root path user writable executable k [] k.exhausted [] ∧
      Spare owned k.exhausted root := by
  unfold Kernel.exhausted
  split
  · exact ⟨.refl wf, spare⟩
  · rename_i offset
    rcases spare with zero | ⟨ended, noTable⟩
    · exact absurd zero offset
    have tables := pageZero_outside wf.base fun path short => noTable path (wf.tables path short)
    have next : nextNode (writeLE k.mem 0 8 0) 0 = 0 :=
      (Kernel.nextNode_agree (writeLE_agreeOutside _ _ _ _) (by omega)).trans ended
    refine ⟨⟨?_, by simp, ?_, ?_, fun b _ => walk_outside tables b,
      fun Φ _ holds => slotsHold_outside tables holds, rfl, ⟨rfl, rfl⟩⟩, .inr ⟨next, ?_⟩⟩
    · rw [ended]
      exact { wf.outside tables (by simp) with list := rfl }
    · intro other page reached
      rw [pageAt_outside tables]
      exact reached
    · intro other page reached
      rw [pageAt_outside tables] at reached
      exact .inl reached
    · intro path mine
      rw [pageAt_outside tables]
      exact noTable path mine

end Exhausted

section Supply

variable {a : Nat} {addresses : List Nat}

/-- Every page that leaves the free list fills one of the missing places. -/
theorem Extends.missing_le (wf : WellFormed owned k root free) (listed : a ∈ addresses)
    (more : Extends owned root (indices a) user writable executable k free k' free') :
    (missing k'.mem root addresses).card + free.length ≤
      (missing k.mem root addresses).card + free'.length := by
  rcases more.suffix with ⟨front, split⟩
  have distinct := chain_nodup wf.list
  rw [← split, List.nodup_append] at distinct
  let filled := (missing k.mem root addresses).filter fun path => pageAt k'.mem root path ≠ none
  have moved : front.toFinset ⊆ filled.image fun path => (pageAt k'.mem root path).getD 0 := by
    intro page member
    rw [List.mem_toFinset] at member
    have inFree : page ∈ free := split ▸ List.mem_append_left free' member
    rcases more.taken page inFree with left | ⟨other, reached⟩
    · exact absurd rfl (distinct.2.2 page member page left)
    · have absent : pageAt k.mem root other = none := by
        cases before : pageAt k.mem root other with
        | none => rfl
        | some old =>
            rw [more.kept other old before, Option.some.injEq] at reached
            exact absurd inFree (reached ▸ wf.disjoint other old before)
      rcases more.added other page reached with before | ⟨inside, _⟩
      · rw [absent] at before
        cases before
      · rw [Finset.mem_image]
        refine ⟨other, Finset.mem_filter.mpr ⟨mem_missing.mpr ⟨⟨a, listed, inside⟩, absent⟩, ?_⟩,
          ?_⟩
        · simp [reached]
        · simp [reached]
  have count : front.length ≤ filled.card := by
    rw [← List.toFinset_card_of_nodup distinct.1]
    exact (Finset.card_le_card moved).trans Finset.card_image_le
  have rest : missing k'.mem root addresses ⊆
      (missing k.mem root addresses).filter fun path => ¬ pageAt k'.mem root path ≠ none := by
    intro path member
    rcases mem_missing.mp member with ⟨inside, absent⟩
    refine Finset.mem_filter.mpr ⟨mem_missing.mpr ⟨inside, ?_⟩, by simp [absent]⟩
    cases before : pageAt k.mem root path with
    | none => rfl
    | some old =>
        rw [more.kept path old before] at absent
        cases absent
  have parts : filled.card + ((missing k.mem root addresses).filter fun path =>
      ¬ pageAt k'.mem root path ≠ none).card = (missing k.mem root addresses).card :=
    Finset.card_filter_add_card_filter_not _
  have bound := Finset.card_le_card rest
  have size := congrArg List.length split
  rw [List.length_append] at size
  omega

theorem Extends.spare (wf : WellFormed owned k root free) (spare : Spare owned k root)
    (more : Extends owned root path user writable executable k free k' free') :
    Spare owned k' root := by
  rcases spare with zero | ⟨ended, noTable⟩
  · exact .inl (more.offset.trans zero)
  · refine .inr ⟨?_, ?_⟩
    · have same : nextNode k'.mem 0 = nextNode k.mem 0 := by
        apply readLE_congr
        intro n lower upper
        apply more.bytes n
        · intro page member
          have aligned := (wf.pages page member).1.1
          have nonzero := chain_ne_null wf.list page member
          omega
        · intro other table short reached
          have aligned := (pageAt_pageBase wf.base reached).1
          have nonzero : table ≠ 0 := fun same =>
            noTable other (wf.tables other short) (same ▸ reached)
          omega
      exact same.trans ended
    · intro other mine reached
      rcases more.added other 0 reached with before | ⟨_, member⟩
      · exact noTable other mine before
      · exact chain_ne_null wf.list 0 member rfl

theorem Extends.supplied (wf : WellFormed owned k root free) (listed : a ∈ addresses)
    (supplied : Supplied owned k root free addresses)
    (more : Extends owned root (indices a) user writable executable k free k' free') :
    Supplied owned k' root free' addresses := by
  rcases supplied with enough | spare
  · have cost := more.missing_le wf listed
    exact .inl (by omega)
  · exact .inr (more.spare wf spare)

theorem Supplied.spare {before rest : List (Fin 512)} {i : Fin 512}
    (supplied : Supplied owned k root [] addresses) (listed : a ∈ addresses)
    (split : before ++ i :: rest = indices a) (absent : pageAt k.mem root (before ++ [i]) = none) :
    Spare owned k root := by
  rcases supplied with enough | spare
  · have positive := missing_pos listed split absent
    rw [List.length_nil] at enough
    omega
  · exact spare

theorem exhausted_supplied (wf : WellFormed owned k root []) (listed : a ∈ addresses)
    (supplied : Supplied owned k root [] addresses) {before rest : List (Fin 512)} {i : Fin 512}
    (split : before ++ i :: rest = indices a) (absent : pageAt k.mem root (before ++ [i]) = none) :
    Grown owned root (indices a) user writable executable k [] k.exhausted [] ∧
      Supplied owned k.exhausted root [] addresses := by
  rcases exhausted_grown wf (supplied.spare listed split absent) with ⟨grown, spare⟩
  exact ⟨grown, .inr spare⟩

def Enough (n : Nat) (k : Kernel) (root : Nat) (free addresses : List Nat) : Prop :=
  (missing k.mem root addresses).card + n ≤ free.length

theorem Extends.enough {n : Nat} (wf : WellFormed owned k root free) (listed : a ∈ addresses)
    (enough : Enough n k root free addresses)
    (more : Extends owned root (indices a) user writable executable k free k' free') :
    Enough n k' root free' addresses := by
  have cost := more.missing_le wf listed
  unfold Enough at enough ⊢
  omega

/-- `vm_map` succeeds or fails, and in both cases only grows the address space along its address.
With enough pages the address is mapped. -/
theorem vmMap_supplied (user writable executable : Bool) (wf : WellFormed owned k root free)
    (small : SlotsHold (SmallOn (indices a)) k.mem root) (listed : a ∈ addresses)
    (supplied : Supplied owned k root free addresses) :
    ∃ k' free' mapped, k.vmMap root a user writable executable = (k', mapped) ∧
      Grown owned root (indices a) user writable executable k free k' free' ∧
      Supplied owned k' root free' addresses ∧
      ∀ n, Enough n k root free addresses →
        Enough n k' root free' addresses ∧ pageAt k'.mem root (indices a) ≠ none := by
  rcases vmMap_outcomes user writable executable wf small with
    ⟨last, before, i, rest, split, grown, absent, call⟩ | ⟨k', free', frame, grown, found, call⟩ |
    ⟨k', free', more, grants, call⟩
  · have more := grown.more
    rcases exhausted_supplied more.wellFormed listed (more.supplied wf listed supplied)
      split absent with
      ⟨ended, later⟩
    refine ⟨last.exhausted, [], false, call, more.grown.trans ended, later, fun n enough => ?_⟩
    have none : Enough n last root [] addresses := more.enough wf listed enough
    have positive := missing_pos listed split absent
    unfold Enough at none
    rw [List.length_nil] at none
    omega
  · refine ⟨k', free', false, call, grown.more.grown, grown.more.supplied wf listed supplied,
      fun n enough => ?_⟩
    exact ⟨grown.more.enough wf listed enough, by rw [found]; exact Option.some_ne_none frame⟩
  · obtain ⟨frame, _, _, found, _⟩ := grants
    refine ⟨k', free', true, call, more.grown, more.supplied wf listed supplied, fun n enough => ?_⟩
    exact ⟨more.enough wf listed enough, by rw [found]; exact Option.some_ne_none frame⟩

end Supply

end PaintKernel
