import Mathlib
import PaintKernel.MappedRegions

set_option autoImplicit false

/-! The pages that `sys_mmap` maps when none of its mappings fails, and where its cursor goes. -/

namespace PaintKernel

open ByteMemory RadixTree LinkedList

def Canonical (v : Nat) : Prop := v < 2 ^ 47 ∨ 2 ^ 64 - 2 ^ 47 ≤ v ∧ v < 2 ^ 64

def pageStart (page : Nat) : Nat :=
  if page < 2 ^ 35 then 4096 * page else 4096 * (page + (2 ^ 52 - 2 ^ 36))

namespace System

variable (s : System)

/-- The call newly maps the pages that meet the region and no others, and if it picked the region
the cursor is then at their end. -/
def MapsExactly (addr len prot : UInt64) : Prop :=
  ∃ s' rax, s.sysMmap addr len prot = some (s', .returns rax) ∧
    (∀ v, Canonical v →
      (walk s.kernel.mem s.kernel.activeRoot v = none ∧
        walk s'.kernel.mem s'.kernel.activeRoot v ≠ none ↔
        ∃ b, (s.pick addr).toNat ≤ b ∧ b < (s.pick addr).toNat + len.toNat ∧ b / 4096 = v / 4096)) ∧
    (addr = 0 → s'.addre.toNat = ((s.pick addr).toNat + len.toNat + 4095) / 4096 * 4096 % 2 ^ 64)

/-- No page offset overflows, the region does not end with a page, it consists of canonical
addresses, and the cursor, if it is used, is the start of a page. -/
def ExactRegion (addr len : UInt64) : Prop :=
  (∀ j < pageCount (s.pick addr) len, NoOverflow (startPage (s.pick addr)).toNat j) ∧
    ((s.pick addr).toNat + len.toNat) % 4096 ≠ 0 ∧
    ((s.pick addr).toNat + len.toNat ≤ 2 ^ 47 ∨ 2 ^ 64 - 2 ^ 47 ≤ (s.pick addr).toNat) ∧
    (addr = 0 → s.addre.toNat % 4096 = 0)

end System

section Canonical

variable {v b page : Nat}

theorem canonical_page (canonical : Canonical v) (other : Canonical b)
    (same : pageNumber v = pageNumber b) :
    v / 4096 = b / 4096 := by
  unfold Canonical at canonical other
  unfold pageNumber at same
  omega

theorem pageStart_canonical (bound : page < 2 ^ 36) :
    Canonical (pageStart page) ∧ pageNumber (pageStart page) = page := by
  unfold Canonical pageStart pageNumber
  split <;> omega

theorem canonical_congr (canonical : Canonical v) (same : b / 4096 = v / 4096) : Canonical b := by
  unfold Canonical at canonical ⊢
  omega

end Canonical

section Loop

variable {owned : List (Fin 512) → Prop} {root a : Nat} {k k' : Kernel} {free pages : List Nat}
  {write exec : Bool} {s : System}

/-- A call of `vm_map` that succeeds maps its page, which was not mapped before, and nothing else.
-/
theorem vmMap_true (wf : WellFormed owned k root free)
    (small : SlotsHold (SmallOn (indices a)) k.mem root)
    (mapped : (k.vmMap root a true write exec).2 = true) :
    ∃ free', Extends owned root (indices a) true write exec k free
      (k.vmMap root a true write exec).1 free' ∧
      walk k.mem root a = none ∧ walk (k.vmMap root a true write exec).1.mem root a ≠ none := by
  have unmapped : walk k.mem root a = none := by
    rw [walk_none_iff small]
    cases reached : pageAt k.mem root (indices a) with
    | none => rfl
    | some frame =>
        rw [vmMap_mapped wf reached] at mapped
        cases mapped
  rcases vmMap_outcomes true write exec wf small with
    ⟨last, before, i, rest, split, grown, absent, call⟩ | ⟨k', free', frame, grown, found, call⟩ |
    ⟨k', free', more, ⟨frame, table, old, found, _⟩, call⟩
  · rw [call] at mapped
    cases mapped
  · rw [call] at mapped
    cases mapped
  · rcases walk_of_mapped found with ⟨mapping, here, _⟩
    rw [call]
    exact ⟨free', more, unmapped, here ▸ Option.some_ne_none mapping⟩

structure NewPages (root : Nat) (pages : List Nat) (m m' : Mem) : Prop where
  distinct : (pages.map indices).Nodup
  fresh : ∀ v, walk m root v = none ∧ walk m' root v ≠ none ↔ ∃ a ∈ pages, indices v = indices a
  kept : ∀ v, walk m root v ≠ none → walk m' root v ≠ none

theorem mapPages_new (wf : WellFormed owned s.kernel root free)
    (small : ∀ a ∈ pages, SlotsHold (SmallOn (indices a)) s.kernel.mem root)
    (all : s.MapsAll root write exec pages) :
    NewPages root pages s.kernel.mem (s.kernel.mapPages root write exec pages).mem := by
  induction pages generalizing s free with
  | nil => exact ⟨List.nodup_nil, fun v => ⟨fun new => absurd new.1 new.2, by simp⟩,
      fun v present => present⟩
  | cons a rest ih =>
      rw [List.forall_mem_cons] at small
      rcases all with ⟨mapped, later⟩
      rcases vmMap_true wf small.1 mapped with ⟨free', more, unmapped, here⟩
      have kernel := (mapUserPage_kernel s root write exec a).1
      rw [← kernel] at more here
      have new := ih more.wellFormed (fun b member =>
        more.slots _ (smallOn_stable _ _ _ _ _) (small.2 b member)) later
      have cons : s.kernel.mapPages root write exec (a :: rest) =
          (s.mapUserPage root write exec a).kernel.mapPages root write exec rest := by
        rw [kernel]
        rfl
      rw [cons]
      generalize (s.mapUserPage root write exec a).kernel = k' at new here more
      have other : ∀ v, indices v ≠ indices a → walk k'.mem root v = walk s.kernel.mem root v :=
        more.walks
      have same : ∀ v, indices v = indices a → walk s.kernel.mem root v = none ∧
          walk k'.mem root v ≠ none := by
        intro v equal
        rw [walk_indices _ _ equal, walk_indices _ _ equal]
        exact ⟨unmapped, here⟩
      refine ⟨?_, fun v => ?_, fun v present => ?_⟩
      · rw [List.map_cons, List.nodup_cons]
        refine ⟨fun member => ?_, new.distinct⟩
        rcases List.mem_map.mp member with ⟨b, listed, equal⟩
        exact (same b equal).2 ((new.fresh b).mpr ⟨b, listed, rfl⟩).1
      · rw [List.exists_mem_cons_iff]
        by_cases equal : indices v = indices a
        · exact iff_of_true ⟨(same v equal).1, new.kept v (same v equal).2⟩ (.inl equal)
        · rw [or_iff_right equal, ← new.fresh v, other v equal]
      · by_cases equal : indices v = indices a
        · exact absurd (same v equal).1 present
        · rw [← other v equal] at present
          exact new.kept v present

theorem NewPages.mem_iff {m m' : Mem} {b : Nat} (new : NewPages root pages m m') (first : a ∈ pages)
    (second : b ∈ pages) :
    a = b ↔ pageNumber a = pageNumber b := by
  rw [← indices_eq_iff]
  exact ⟨congrArg indices, fun same => List.inj_on_of_nodup_map new.distinct first second same⟩

end Loop

section Mmap

variable {owned : List (Fin 512) → Prop} {s : System} {free : List Nat} {addr len prot : UInt64}

theorem advance_exact (null : addr = 0) (inside : ((s.pick addr).toNat + len.toNat) % 4096 ≠ 0) :
    (s.advance addr len).addre.toNat =
      ((s.pick addr).toNat + len.toNat + 4095) / 4096 * 4096 % 2 ^ 64 ↔
      s.addre.toNat % 4096 = 0 := by
  rw [advance_cursor null]
  rw [System.pick, if_pos null] at inside ⊢
  omega

theorem canonical_region {p n : Nat} (positive : 0 < n) (noWrap : p + n < 2 ^ 64) :
    (∀ b, p ≤ b → b < p + n → Canonical b) ↔ p + n ≤ 2 ^ 47 ∨ 2 ^ 64 - 2 ^ 47 ≤ p := by
  unfold Canonical
  constructor
  · intro region
    have first := region p (by omega) (by omega)
    have middle := region (max p (2 ^ 47)) (by omega)
    omega
  · intro ends b above below
    omega

theorem NewPages.exact {root p n v : Nat} {m m' : Mem} (new : NewPages root (touchedPages p n) m m')
    (region : ∀ b, p ≤ b → b < p + n → Canonical b) (canonical : Canonical v) :
    walk m root v = none ∧ walk m' root v ≠ none ↔ ∃ b, p ≤ b ∧ b < p + n ∧
      b / 4096 = v / 4096 := by
  rw [new.fresh]
  constructor
  · rintro ⟨a, member, same⟩
    rcases mem_touchedPages.mp member with ⟨b, above, below, rfl⟩
    rw [indices_eq_iff] at same
    have page : pageNumber v = pageNumber b := by
      rw [same]
      unfold pageNumber
      omega
    exact ⟨b, above, below, (canonical_page canonical (region b above below) page).symm⟩
  · rintro ⟨b, above, below, same⟩
    refine ⟨b / 4096 * 4096, mem_touchedPages.mpr ⟨b, above, below, rfl⟩, ?_⟩
    rw [indices_eq_iff]
    unfold pageNumber
    omega

theorem NewPages.inside {root p n a : Nat} {pages : List Nat} {m m' : Mem}
    (new : NewPages root pages m m')
    (exact : ∀ v, Canonical v → (walk m root v = none ∧ walk m' root v ≠ none ↔
      ∃ b, p ≤ b ∧ b < p + n ∧ b / 4096 = v / 4096))
    (region : ∀ b, p ≤ b → b < p + n → b / 4096 * 4096 ∈ pages) (member : a ∈ pages) :
    Canonical a ∧ ∃ b, p ≤ b ∧ b < p + n ∧ a = b / 4096 * 4096 := by
  -- the hardware finds the page at the canonical address with its number
  rcases pageStart_canonical (Nat.mod_lt (a / 4096) (by decide)) with ⟨canonical, number⟩
  have mapped : ∃ c ∈ pages, indices (pageStart (a / 4096 % 2 ^ 36)) = indices c := by
    refine ⟨a, member, ?_⟩
    rw [indices_eq_iff, number, pageNumber]
  rcases (exact _ canonical).mp ((new.fresh _).mpr mapped) with ⟨b, above, below, same⟩
  have equal : a = b / 4096 * 4096 := by
    apply (new.mem_iff member (region b above below)).mpr
    unfold pageNumber at number ⊢
    omega
  refine ⟨?_, b, above, below, equal⟩
  exact canonical_congr canonical (by omega)

/-- What the call has mapped when every mapping succeeded. -/
theorem sysMmap_new (wf : WellFormed owned s.kernel s.kernel.activeRoot free)
    (small : ∀ a ∈ System.regionPages (s.pick addr) len,
      SlotsHold (SmallOn (indices a)) s.kernel.mem s.kernel.activeRoot)
    (all : (s.advance addr len).MapsAll s.kernel.activeRoot (prot.toNat.testBit 1)
      (prot.toNat.testBit 2) (System.regionPages (s.pick addr) len)) :
    NewPages s.kernel.activeRoot (System.regionPages (s.pick addr) len) s.kernel.mem
      (s.kernel.mapPages s.kernel.activeRoot (prot.toNat.testBit 1) (prot.toNat.testBit 2)
        (System.regionPages (s.pick addr) len)).mem := by
  have new := @mapPages_new owned s.kernel.activeRoot free (System.regionPages (s.pick addr) len)
    (prot.toNat.testBit 1) (prot.toNat.testBit 2) (s.advance addr len)
  rw [advance_kernel] at new
  exact new wf small all

theorem region_listed (noWrap : (s.pick addr).toNat + len.toNat < 2 ^ 64) {b : Nat}
    (above : (s.pick addr).toNat ≤ b) (below : b < (s.pick addr).toNat + len.toNat) :
    b / 4096 * 4096 ∈ System.regionPages (s.pick addr) len := by
  rw [regionPages_eq noWrap]
  exact List.mem_append_left _ (mem_touchedPages.mpr ⟨b, above, below, rfl⟩)

/-- A region that ends with a page gets one page too many. -/
theorem System.MapsExactly.inside (exact : s.MapsExactly addr len prot)
    (new : NewPages s.kernel.activeRoot (System.regionPages (s.pick addr) len) s.kernel.mem
      (s.kernel.mapPages s.kernel.activeRoot (prot.toNat.testBit 1) (prot.toNat.testBit 2)
        (System.regionPages (s.pick addr) len)).mem)
    (positive : 0 < len.toNat) (noWrap : (s.pick addr).toNat + len.toNat < 2 ^ 64) :
    ((s.pick addr).toNat + len.toNat) % 4096 ≠ 0 ∧
      ∀ b, (s.pick addr).toNat ≤ b → b < (s.pick addr).toNat + len.toNat → Canonical b := by
  rcases exact with ⟨s', rax, call, exact, _⟩
  rcases sysMmap_returns call with ⟨mapped, active, _⟩
  rw [active, mapped] at exact
  constructor
  · intro whole
    have extra : (s.pick addr).toNat + len.toNat ∈ System.regionPages (s.pick addr) len := by
      rw [regionPages_eq noWrap, extraPages, if_neg (by omega), if_pos whole]
      exact List.mem_append_right _ List.mem_cons_self
    rcases (new.inside exact (fun b => region_listed noWrap) extra).2 with ⟨b, _, below, equal⟩
    omega
  · intro b above below
    have page := region_listed noWrap above below
    exact canonical_congr (new.inside exact (fun b => region_listed noWrap) page).1 (by omega)

/-- When every mapping succeeds, `sys_mmap` maps the pages of the region and moves its cursor past
them exactly when the region ends within a page. -/
theorem mapsExactly_iff (wf : WellFormed owned s.kernel s.kernel.activeRoot free)
    (small : ∀ a ∈ System.regionPages (s.pick addr) len,
      SlotsHold (SmallOn (indices a)) s.kernel.mem s.kernel.activeRoot)
    (all : (s.advance addr len).MapsAll s.kernel.activeRoot (prot.toNat.testBit 1)
      (prot.toNat.testBit 2) (System.regionPages (s.pick addr) len))
    (positive : 0 < len.toNat) (noWrap : (s.pick addr).toNat + len.toNat < 2 ^ 64) :
    s.MapsExactly addr len prot ↔ s.ExactRegion addr len := by
  have new := sysMmap_new wf small all
  constructor
  · intro exact
    rcases exact.inside new positive noWrap with ⟨inside, region⟩
    rcases exact with ⟨s', rax, call, _, cursor⟩
    rcases sysMmap_returns call with ⟨_, _, addre, _, safe⟩
    refine ⟨safe, inside, (canonical_region positive noWrap).mp region, fun null => ?_⟩
    rw [← advance_exact null inside, ← addre]
    exact cursor null
  · rintro ⟨safe, inside, ends, aligned⟩
    have call := sysMmap_loop s addr len prot
    rw [if_pos safe] at call
    rcases sysMmap_returns call with ⟨mapped, active, addre, _⟩
    refine ⟨_, _, call, fun v canonical => ?_, fun null => ?_⟩
    · rw [active, mapped]
      rw [regionPages_eq noWrap, extraPages, if_neg (by omega), if_neg inside,
        List.append_nil] at new ⊢
      exact new.exact ((canonical_region positive noWrap).mpr ends) canonical
    · rw [addre, advance_exact null inside]
      exact aligned null

end Mmap

theorem mapsAll_of_room {owned : List (Fin 512) → Prop} {root : Nat} {write exec : Bool}
    {pages : List Nat} (distinct : (pages.map indices).Nodup) {s : System} {free : List Nat}
    (wf : WellFormed owned s.kernel root free)
    (unmapped : ∀ a ∈ pages, SlotsHold (SmallOn (indices a)) s.kernel.mem root ∧
      pageAt s.kernel.mem root (indices a) = none)
    (room : 4 * pages.length ≤ free.length) : s.MapsAll root write exec pages := by
  induction pages generalizing s free with
  | nil => trivial
  | cons a rest ih =>
      rw [List.map_cons, List.nodup_cons] at distinct
      rw [List.forall_mem_cons] at unmapped
      rw [List.length_cons] at room
      have four : absentLevels s.kernel.mem root [] (indices a) ≤ 4 := absentLevels_le _ _ _ _
      rcases vmMap_unmapped true write exec wf unmapped.1.1 unmapped.1.2 (by omega) with
        ⟨k', free', frame, call, grown, _, _, _, _, cost⟩
      refine ⟨congrArg Prod.snd call, ?_⟩
      rw [System.mapUserPage_mapped call]
      apply ih distinct.2 grown.wellFormed
      · intro b member
        rcases unmapped.2 b member with ⟨small, absent⟩
        refine ⟨grown.slots _ (smallOn_stable _ _ _ _ _) small, ?_⟩
        have other : indices b ≠ indices a := by
          intro same
          exact distinct.1 (same ▸ List.mem_map_of_mem member)
        cases reached : pageAt k'.mem root (indices b) with
        | none => rfl
        | some page =>
            rcases grown.added _ page reached with before | ⟨inside, _⟩
            · rw [absent] at before
              cases before
            · exact absurd (inside.eq_of_length rfl) other
      · show 4 * rest.length ≤ free'.length
        omega

theorem bare_maps_all {addr len prot : UInt64}
    (distinct : ((System.regionPages (bareSystem.pick addr) len).map indices).Nodup)
    (few : (System.regionPages (bareSystem.pick addr) len).length ≤ 3) :
    (bareSystem.advance addr len).MapsAll bareSystem.kernel.activeRoot (prot.toNat.testBit 1)
      (prot.toNat.testBit 2) (System.regionPages (bareSystem.pick addr) len) := by
  have wf : WellFormed (fun _ => True) bareKernel 0x1000 barePages :=
    bare_wellFormed fun _ _ => trivial
  have room : barePages.length = 12 := by decide
  have kernel : (bareSystem.advance addr len).kernel = bareKernel :=
    advance_kernel bareSystem addr len
  rw [bareSystem_root]
  apply mapsAll_of_room distinct (kernel.symm ▸ wf)
  · intro a _
    rw [kernel]
    refine ⟨bare_slots fun _ _ _ => rfl, ?_⟩
    cases reached : pageAt bareKernel.mem 0x1000 (indices a) with
    | none => rfl
    | some page => cases (bare_pageAt reached).1
  · omega

theorem bare_small (addr len : UInt64) : ∀ a ∈ System.regionPages (bareSystem.pick addr) len,
    SlotsHold (SmallOn (indices a)) bareSystem.kernel.mem bareSystem.kernel.activeRoot := by
  intro a _
  rw [bareSystem_root]
  exact bare_slots fun _ _ _ => rfl

theorem bare_maps_exactly : bareSystem.MapsExactly 0x400000 100 3 := by
  have pages : System.regionPages (bareSystem.pick 0x400000) 100 = [0x400000] := by decide
  have distinct : ((System.regionPages (bareSystem.pick 0x400000) 100).map indices).Nodup := by
    rw [pages]
    exact List.nodup_singleton _
  have all := @bare_maps_all 0x400000 100 3 distinct (by rw [pages]; decide)
  have wf := (bare_mappable 0x400000 100).wellFormed
  apply (mapsExactly_iff wf (bare_small 0x400000 100) all (by decide) (by decide)).mpr
  exact ⟨by decide, by decide, .inl (by decide), fun null => absurd null (by decide)⟩

/-- A region of one page takes two. -/
theorem whole_page_maps_next :
    (bareSystem.advance 0x400000 4096).MapsAll bareSystem.kernel.activeRoot true false [0x400000,
      0x401000] ∧
      ∃ s', bareSystem.sysMmap 0x400000 4096 3 = some (s', .returns 0x400000) ∧
        walk bareSystem.kernel.mem bareSystem.kernel.activeRoot 0x401000 = none ∧
        walk s'.kernel.mem s'.kernel.activeRoot 0x401000 ≠ none ∧
        ¬ bareSystem.MapsExactly 0x400000 4096 3 := by
  have pages : System.regionPages (bareSystem.pick 0x400000) 4096 = [0x400000, 0x401000] := by
    decide
  have distinct : ((System.regionPages (bareSystem.pick 0x400000) 4096).map indices).Nodup := by
    rw [pages]
    decide
  have wf := (bare_mappable 0x400000 4096).wellFormed
  have bits : (3 : UInt64).toNat.testBit 1 = true ∧ (3 : UInt64).toNat.testBit 2 = false := by
    decide
  have all := @bare_maps_all 0x400000 4096 3 distinct (by rw [pages]; decide)
  have new := sysMmap_new wf (bare_small 0x400000 4096) all
  have call := sysMmap_loop bareSystem 0x400000 4096 3
  rw [if_pos (by decide)] at call
  rcases sysMmap_returns call with ⟨kernel, active, _⟩
  have mapped := (new.fresh 0x401000).mpr ⟨0x401000, by rw [pages]; decide, rfl⟩
  rw [pages, bits.1, bits.2] at all
  refine ⟨all, _, call, mapped.1, ?_, fun exact => ?_⟩
  · rw [active, kernel]
    exact mapped.2
  · exact (exact.inside new (by decide) (by decide)).1 (by decide)

end PaintKernel
