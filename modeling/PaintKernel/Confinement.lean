import Mathlib
import PaintKernel.Exhaustion
import PaintKernel.LowerHalf
import PaintKernel.ElfSegments

set_option autoImplicit false

/-! Steps of the kernel that leave the higher half alone. -/

namespace PaintKernel

open ByteMemory RadixTree LinkedList

/-- What is kept: the translations of the higher half, bytes that are neither tables nor free, the
pages that the lower half may hold and the cursor of `mmap`. -/
structure Guard where
  root : Nat
  offset : Nat
  higher : Nat → Option Mapping
  device : Nat → Prop
  placed : Nat → Prop
  cursor : UInt64

/-- The pages and tables of some addresses in an empty lower half. -/
def demand (addresses : List Nat) : Finset (List (Fin 512)) :=
  (addresses.flatMap fun a => (indices a).inits).toFinset.erase []

structure Guarded (g : Guard) (k : Kernel) (free : List Nat) : Prop where
  wellFormed : WellFormed UserPath k g.root free
  small : SlotsHold SmallLower k.mem g.root
  active : k.activeRoot = g.root
  offset : k.virtualOffset = g.offset
  higher : ∀ v, ¬ LowerHalf v → walk k.mem g.root v = g.higher v
  mapped : ∀ v, LowerHalf v → walk k.mem g.root v ≠ none → g.placed (pageNumber v)
  device : ∀ n, g.device n → 4096 ≤ n ∧ Unmanaged k.mem g.root free n

theorem indices_halves {a b : Nat} (lower : LowerHalf a) (higher : ¬ LowerHalf b) :
    indices b ≠ indices a := by
  intro same
  simp only [indices, List.cons.injEq] at same
  exact higher (by rw [LowerHalf, same.1]; exact lower)

theorem pageAt_of_lowerEmpty {m : Mem} {root a : Nat} (empty : LowerHalfEmpty m root)
    (lower : LowerHalf a) :
    pageAt m root (indices a) = none := by
  simp only [pageAt, indices, follow, nextTable_absent (empty (level4 a) lower), Option.bind_none]

theorem Supplied.congr {owned : List (Fin 512) → Prop} {root : Nat} {k k' : Kernel}
    {free addresses : List Nat} (supplied : Supplied owned k root free addresses)
    (pages : ∀ path, pageAt k'.mem root path = pageAt k.mem root path)
    (offset : k'.virtualOffset = k.virtualOffset)
    (next : (∀ path, owned path → pageAt k.mem root path ≠ some 0) →
      nextNode k'.mem 0 = nextNode k.mem 0) :
    Supplied owned k' root free addresses := by
  rcases supplied with enough | spare
  · left
    simpa only [missing, pages] using enough
  · rcases spare with zero | ⟨ended, noTable⟩
    · exact .inr (.inl (offset.trans zero))
    · refine .inr (.inr ⟨(next noTable).trans ended, fun path mine => ?_⟩)
      rw [pages]
      exact noTable path mine

/-- The tables and frames of `k'` are those of `k` and pages of its free list, to which nothing was
given back. -/
structure TakesPages (root : Nat) (k : Kernel) (free : List Nat) (k' : Kernel)
    (free' : List Nat) : Prop where
  rest : ∀ page ∈ free', page ∈ free
  added : ∀ path page, pageAt k'.mem root path = some page →
    pageAt k.mem root path = some page ∨ page ∈ free

section Takes

variable {root : Nat} {k k' k'' : Kernel} {free free' free'' : List Nat}

theorem TakesPages.of_pages (free : List Nat)
    (same : ∀ path, pageAt k'.mem root path = pageAt k.mem root path) :
    TakesPages root k free k' free where
  rest := fun _ member => member
  added := fun path _ reached => .inl ((same path).symm.trans reached)

theorem TakesPages.refl (root : Nat) (k : Kernel) (free : List Nat) :
    TakesPages root k free k free :=
  .of_pages free fun _ => rfl

theorem TakesPages.trans (first : TakesPages root k free k' free')
    (second : TakesPages root k' free' k'' free'') :
    TakesPages root k free k'' free'' where
  rest := fun page member => first.rest page (second.rest page member)
  added := by
    intro path page reached
    rcases second.added path page reached with before | member
    · exact first.added path page before
    · exact .inr (first.rest page member)

theorem Grown.takes {owned : List (Fin 512) → Prop} {path : List (Fin 512)}
    {user writable executable : Bool}
    (grown : Grown owned root path user writable executable k free k' free') :
    TakesPages root k free k' free' :=
  ⟨grown.rest, grown.added⟩

end Takes

section Steps

variable {g : Guard} {k k' : Kernel} {free addresses : List Nat} {a v : Nat}
  {user writable executable : Bool}

theorem Grown.unmanaged {owned : List (Fin 512) → Prop} {root n : Nat} {path : List (Fin 512)}
    {free' : List Nat} (grown : Grown owned root path user writable executable k free k' free')
    (outside : Unmanaged k.mem root free n) : Unmanaged k'.mem root free' n := by
  refine ⟨fun page member => outside.1 page (grown.rest page member), ?_⟩
  intro other table short reached
  rcases grown.added other table reached with before | member
  · exact outside.2 other table short before
  · exact outside.1 table member

theorem Guarded.vmMap (guarded : Guarded g k free)
    (supplied : Supplied UserPath k g.root free addresses) (listed : a ∈ addresses)
    (user writable executable : Bool)
    (target : LowerHalf a ∧ g.placed (pageNumber a) ∨ pageAt k.mem g.root (indices a) ≠ none) :
    ∃ k' free' mapped, k.vmMap g.root a user writable executable = (k', mapped) ∧
      Guarded g k' free' ∧
      Supplied UserPath k' g.root free' addresses ∧
      (∀ path page, pageAt k.mem g.root path = some page → pageAt k'.mem g.root path = some page) ∧
      TakesPages g.root k free k' free' ∧
      ∀ n, Enough n k g.root free addresses →
        Enough n k' g.root free' addresses ∧ pageAt k'.mem g.root (indices a) ≠ none := by
  cases reached : pageAt k.mem g.root (indices a) with
  | some frame =>
      exact ⟨k, free, false, vmMap_mapped guarded.wellFormed reached, guarded, supplied,
        fun _ _ found => found, .refl g.root k free,
        fun n enough => ⟨enough, by rw [reached]; exact Option.some_ne_none frame⟩⟩
  | none =>
      rcases target with ⟨lower, placed⟩ | present
      · have small := smallOn_of_lower lower guarded.small
        rcases vmMap_supplied user writable executable guarded.wellFormed small listed supplied with
          ⟨k', free', mapped, call, grown, later, whole⟩
        refine ⟨k', free', mapped, call, ⟨grown.wellFormed,
          grown.slots _ (smallLower_stable _ _ _ _) guarded.small,
          (Kernel.activeRoot_congr grown.control.2).trans guarded.active,
          grown.offset.trans guarded.offset, ?_, ?_, ?_⟩, later, grown.kept, grown.takes, whole⟩
        · intro b high
          rw [grown.walks b (indices_halves lower high)]
          exact guarded.higher b high
        · intro b low found
          by_cases same : indices b = indices a
          · rw [(indices_eq_iff b a).mp same]
            exact placed
          · rw [grown.walks b same] at found
            exact guarded.mapped b low found
        · exact fun n inside =>
            ⟨(guarded.device n inside).1, grown.unmanaged (guarded.device n inside).2⟩
      · exact absurd reached present

theorem Guarded.vmProtect (guarded : Guarded g k free)
    (supplied : Supplied UserPath k g.root free addresses) (lower : LowerHalf a)
    (user writable executable : Bool) :
    ∃ k' changed, k.vmProtect g.root a user writable executable = (k', changed) ∧
      Guarded g k' free ∧
      Supplied UserPath k' g.root free addresses ∧ ∀ path, pageAt k'.mem g.root path =
        pageAt k.mem g.root path := by
  have small := smallOn_of_lower lower guarded.small
  cases reached : pageAt k.mem g.root (indices a) with
  | none =>
      exact ⟨k, false, vmProtect_unmapped guarded.wellFormed small reached, guarded, supplied,
        fun _ => rfl⟩
  | some frame =>
      rcases vmProtect_mapped user writable executable guarded.wellFormed reached with
        ⟨k', call, changed⟩
      refine ⟨k', true, call,
        ⟨changed.wellFormed, changed.slots _ (fun _ kept => kept) guarded.small,
        (Kernel.activeRoot_congr changed.control.2).trans guarded.active,
        changed.offset.trans guarded.offset, ?_, ?_, ?_⟩, ?_, changed.same⟩
      · intro b high
        rw [changed.walks b (indices_halves lower high)]
        exact guarded.higher b high
      · intro b low found
        by_cases same : indices b = indices a
        · rcases walk_of_mapped reached with ⟨mapping, here, _⟩
          refine guarded.mapped b low ?_
          rw [walk_indices _ _ same, here]
          exact Option.some_ne_none _
        · rw [changed.walks b same] at found
          exact guarded.mapped b low found
      · intro n inside
        rcases guarded.device n inside with ⟨above, listed, tables⟩
        refine ⟨above, listed, fun path table short found => tables path table short ?_⟩
        rwa [changed.same] at found
      · refine supplied.congr changed.same changed.offset ?_
        intro noTable
        apply readLE_congr
        intro n _ upper
        apply changed.bytes n
        intro path table short found
        have aligned := (pageAt_pageBase guarded.wellFormed.base found).1
        have nonzero : table ≠ 0 := fun same => noTable path (.inl short) (same ▸ found)
        omega

/-- Bytes that are neither in a table nor free may change. -/
theorem Guarded.outside {m' : Mem} (guarded : Guarded g k free)
    (changes : ∀ n, m' n ≠ k.mem n → Unmanaged k.mem g.root free n) :
    Guarded g { k with mem := m' } free ∧ ∀ path, pageAt m' g.root path =
      pageAt k.mem g.root path := by
  have tables : ∀ (path : List (Fin 512)) table, path.length < 4 →
      pageAt k.mem g.root path = some table →
      ∀ n, table ≤ n → n < table + 4096 → m' n = k.mem n := by
    intro path table short reached n lower upper
    by_contra changed
    have out := (changes n changed).2 path table short reached
    omega
  have listed : ∀ page ∈ free, ∀ n, page ≤ n → n < page + 4096 → m' n = k.mem n := by
    intro page member n lower upper
    by_contra changed
    have out := (changes n changed).1 page member
    omega
  have same := pageAt_outside tables
  refine ⟨⟨guarded.wellFormed.outside tables listed, slotsHold_outside tables guarded.small,
    guarded.active, guarded.offset, ?_, ?_, ?_⟩, same⟩
  · intro b high
    rw [walk_outside tables]
    exact guarded.higher b high
  · intro b low found
    rw [walk_outside tables] at found
    exact guarded.mapped b low found
  · intro n inside
    rcases guarded.device n inside with ⟨above, free, tables⟩
    refine ⟨above, free, fun path table short found => tables path table short ?_⟩
    rwa [same] at found

theorem storeVirt_effect {byte : UInt8} (stored : k.storeVirt v byte = some k') :
    ∃ n, k' = { k with mem := store k.mem n byte } ∧
      (v < 2 ^ 47 ∧ (∃ mapping, walk k.mem k.activeRoot v = some mapping ∧
        n = mapping.frame + v % 4096) ∨ ¬ v < 2 ^ 47 ∧ n = k.deref v) := by
  unfold Kernel.storeVirt at stored
  split at stored
  · rename_i low
    split at stored
    · cases stored
    · rename_i mapping found
      split at stored
      · cases stored
        exact ⟨_, rfl, .inl ⟨low, mapping, found, rfl⟩⟩
      · cases stored
  · rename_i high
    split at stored
    · cases stored
      exact ⟨_, rfl, .inr ⟨high, rfl⟩⟩
    · cases stored

theorem Guarded.reached (guarded : Guarded g k free) (lower : LowerHalf v) {mapping : Mapping}
    (found : walk k.mem k.activeRoot v = some mapping) :
    pageAt k.mem g.root (indices v) = some mapping.frame := by
  rw [guarded.active] at found
  cases reached : pageAt k.mem g.root (indices v) with
  | none =>
      rw [walk_of_unmapped (smallOn_of_lower lower guarded.small) reached] at found
      cases found
  | some frame =>
      rcases walk_of_mapped reached with ⟨other, found', rfl⟩
      rw [found, Option.some.injEq] at found'
      rw [found']

theorem Guarded.storeVirt {byte : UInt8} (guarded : Guarded g k free)
    (stored : k.storeVirt v byte = some k')
    (harmless : v < 2 ^ 47 ∨ Unmanaged k.mem g.root free (k.deref v)) :
    Guarded g k' free ∧ (∀ path, pageAt k'.mem g.root path = pageAt k.mem g.root path) ∧
      (v < 2 ^ 47 → ∀ addresses, Supplied UserPath k g.root free addresses →
        Supplied UserPath k' g.root free addresses) := by
  rcases storeVirt_effect stored with ⟨n, rfl, cases⟩
  have written : ∀ i, store k.mem n byte i ≠ k.mem i → i = n := by
    intro i changed
    by_contra other
    exact changed (store_elsewhere _ _ _ _ other)
  rcases cases with ⟨low, mapping, found, place⟩ | ⟨high, rfl⟩
  · have reached := guarded.reached (lowerHalf_of_lt low) found
    have aligned := (pageAt_pageBase guarded.wellFormed.base reached).1
    have unmanaged : Unmanaged k.mem g.root free n :=
      guarded.wellFormed.frame_unmanaged reached (userPath_indices low) (by omega)
    rcases guarded.outside fun i changed => written i changed ▸ unmanaged with ⟨after, same⟩
    refine ⟨after, same, fun _ addresses supplied => supplied.congr same rfl ?_⟩
    intro noTable
    have nonzero : mapping.frame ≠ 0 :=
      fun zero => noTable _ (userPath_indices low) (zero ▸ reached)
    apply readLE_congr
    intro i _ upper
    exact store_elsewhere _ _ _ _ (by omega)
  · have unmanaged := harmless.resolve_left high
    rcases guarded.outside fun i changed => written i changed ▸ unmanaged with ⟨after, same⟩
    exact ⟨after, same, fun low => absurd low high⟩

/-- The addresses need no more than in an empty lower half. -/
theorem enough_of_demand {n root : Nat} (stocked : (demand addresses).card + n ≤ free.length) :
    Enough n k root free addresses := by
  refine (Nat.add_le_add_right (Finset.card_le_card ?_) n).trans stocked
  intro path member
  rw [missing, Finset.mem_filter] at member
  refine Finset.mem_erase.mpr ⟨?_, member.1⟩
  rintro rfl
  cases member.2

theorem Guarded.unmapLowerHalf (guarded : Guarded g k free) (placed : Nat → Prop) :
    ∃ k', k.unmapLowerHalf g.root = k' ∧ Guarded { g with placed := placed } k' free ∧
      ((demand addresses).card ≤ free.length ∨ Spare UserPath k g.root →
        Supplied UserPath k' g.root free addresses) ∧
      TakesPages g.root k free k' free ∧ LowerHalfEmpty k'.mem g.root := by
  rcases unmapLowerHalf_cleared guarded.wellFormed with ⟨k', call, cleared, empty, _⟩
  refine ⟨k', call, ⟨cleared.wellFormed, smallLower_of_empty empty,
    (Kernel.activeRoot_congr cleared.active).trans guarded.active,
      cleared.offset.trans guarded.offset,
    ?_, ?_, ?_⟩, ?_, ⟨fun _ member => member, fun path page reached =>
      .inl (cleared.fewer path page reached)⟩, empty⟩
  · intro b high
    rw [cleared.others b (fun member => high (mem_lowerIndices.mp member))]
    exact guarded.higher b high
  · intro b low found
    have absent := empty (level4 b) low
    exact absurd (by simp [walk, absent]) found
  · intro n inside
    rcases guarded.device n inside with ⟨above, free, tables⟩
    exact ⟨above, free, fun path table short found =>
      tables path table short (cleared.fewer path table found)⟩
  · rintro (enough | zero | ⟨ended, noTable⟩)
    · exact .inl (enough_of_demand (n := 0) enough)
    · exact .inr (.inl (cleared.offset.trans zero))
    · refine .inr (.inr ⟨?_, fun path mine found => noTable path mine (cleared.fewer path 0 found)⟩)
      have aligned := guarded.wellFormed.base.1
      have nonzero : g.root ≠ 0 := fun zero => noTable [] (.inl (by simp)) (congrArg some zero)
      have next : nextNode k'.mem 0 = nextNode k.mem 0 := by
        apply readLE_congr
        intro n _ upper
        exact cleared.bytes n (by omega)
      exact next.trans ended

end Steps

namespace Phdr

def addresses (h : Phdr) : List Nat :=
  (List.range h.pageCount).map fun i => (h.pageBase + 4096 * i) % 2 ^ 64

end Phdr

def segmentAddresses (image : Mem) : List Nat :=
  ((segments image).filter fun h => h.Loads).flatMap Phdr.addresses

def LinkedLow (image : Mem) : Prop := ∀ h ∈ segments image, h.Loads → h.Lower

theorem addresses_low {h : Phdr} (lower : h.Lower) {a : Nat} (member : a ∈ h.addresses) :
    a < 2 ^ 47 := by
  rcases List.mem_map.mp member with ⟨i, bound, rfl⟩
  rcases loopAddress lower (List.mem_range.mp bound) with ⟨address, low, _⟩
  omega

/-- The pages of the addresses may be mapped, and there are enough free ones. -/
structure Provisioned (g : Guard) (addresses : List Nat) (k : Kernel) (free : List Nat) : Prop where
  guarded : Guarded g k free
  supplied : Supplied UserPath k g.root free addresses
  placed : ∀ a ∈ addresses, g.placed (pageNumber a)

theorem Enough.of_pages {n root : Nat} {k k' : Kernel} {free addresses : List Nat}
    (enough : Enough n k root free addresses)
    (same : ∀ path, pageAt k'.mem root path = pageAt k.mem root path) :
    Enough n k' root free addresses := by
  simpa only [Enough, missing, same] using enough

def Ready (g : Guard) (addresses : List Nat) (k : Kernel) (free : List Nat) (s : Loader) : Prop :=
  ∃ free', Provisioned g addresses s.kernel free' ∧ TakesPages g.root k free s.kernel free' ∧
    ∀ n, Enough n k g.root free addresses → Enough n s.kernel g.root free' addresses

section Load

variable {g : Guard} {addresses free : List Nat} {k : Kernel} {s s' : Loader} {a : Nat}

theorem mapPage_ready (before : Ready g addresses k free s)
    (listed : a ∈ addresses) (low : a < 2 ^ 47) :
    Ready g addresses k free (mapPage g.root a s) := by
  rcases before with ⟨left, ready, taken, stocked⟩
  rcases ready.guarded.vmMap ready.supplied listed true true false
    (.inl ⟨lowerHalf_of_lt low, ready.placed a listed⟩) with ⟨k', free', mapped, call, after,
      supplied, _, takes, whole⟩
  rw [mapPage, call]
  refine ⟨free', ?_, taken.trans takes, fun n enough => (whole n (stocked n enough)).1⟩
  exact ⟨after, supplied, ready.placed⟩

theorem protectPage_ready (before : Ready g addresses k free s)
    (readable writable executable : Bool) (low : a < 2 ^ 47) :
    Ready g addresses k free (protectPage g.root readable writable executable a s) := by
  rcases before with ⟨left, ready, taken, stocked⟩
  rcases ready.guarded.vmProtect ready.supplied (lowerHalf_of_lt low) readable writable
    executable with
    ⟨k', changed, call, after, supplied, same⟩
  rw [protectPage, call]
  refine ⟨left, ?_, taken.trans (.of_pages left same), fun n enough =>
    (stocked n enough).of_pages same⟩
  exact ⟨after, supplied, ready.placed⟩

theorem loadSegment_ready {image : Mem} {h : Phdr} (run : loadSegment image g.root h s = some s')
    (each : h.Loads → h.Lower ∧ ∀ a ∈ h.addresses, a ∈ addresses)
    (before : Ready g addresses k free s) : Ready g addresses k free s' := by
  unfold loadSegment at run
  split at run
  · rename_i loads
    rcases each loads with ⟨low, listed⟩
    have page : ∀ i < 0 + h.pageCount, (h.pageBase + 4096 * i) % 2 ^ 64 ∈ h.addresses :=
      fun i bound => List.mem_map.mpr ⟨i, List.mem_range.mpr (by omega), rfl⟩
    split at run
    · cases run
    rename_i s1 mapped
    split at run
    · cases run
    rename_i s2 copied
    have ready1 : Ready g addresses k free s1 :=
      forPages_invariant mapped (fun i _ _ bound held => mapPage_ready held
        (listed _ (page i bound)) (addresses_low low (page i bound))) before
    have ready2 : Ready g addresses k free s2 := by
      refine copyBytes_invariant (Ready g addresses k free) copied ?_ ready1
      rintro n s k' byte _ _ _ _ bound ⟨left, ready, taken, stocked⟩ stored
      have target : (h.vaddr + n) % 2 ^ 64 < 2 ^ 47 := by
        unfold Phdr.Lower at low
        omega
      rcases ready.guarded.storeVirt stored (.inl target) with ⟨after, same, supplied⟩
      exact ⟨left, ⟨after, supplied target _ ready.supplied, ready.placed⟩,
        taken.trans (.of_pages left same),
        fun n enough => (stocked n enough).of_pages same⟩
    exact forPages_invariant run (fun i _ _ bound held => protectPage_ready held _ _ _
      (addresses_low low (page i bound))) ready2
  · cases run
    exact before

theorem loadSegments_ready {image : Mem} {hs : List Phdr}
    (each : ∀ h ∈ hs, h.Loads → h.Lower ∧ ∀ a ∈ h.addresses, a ∈ addresses)
    (before : Ready g addresses k free s) (run : loadSegments image g.root hs s = some s') :
    Ready g addresses k free s' := by
  induction hs generalizing s with
  | nil =>
      cases run
      exact before
  | cons h rest ih =>
      rw [List.forall_mem_cons] at each
      rw [loadSegments] at run
      split at run
      · cases run
      · rename_i here
        exact ih each.2 (loadSegment_ready here each.1 before) run

/-- The segment loop maps, copies and protects in the lower half only. -/
theorem loadProgram_ready {image : Mem} (lower : LinkedLow image)
    (listed : ∀ a ∈ segmentAddresses image, a ∈ addresses) (ready : Provisioned g addresses k free)
    (run : loadProgram image k = some s') : Ready g addresses k free s' := by
  rw [loadProgram, ready.guarded.active] at run
  have start : Ready g addresses k free ⟨k, []⟩ := ⟨free, ready, .refl g.root k free, fun _ => id⟩
  refine loadSegments_ready ?_ start run
  intro h member loads
  refine ⟨lower h member loads, fun a inside => listed a ?_⟩
  exact List.mem_flatMap.mpr ⟨h, List.mem_filter.mpr ⟨member, by simpa using loads⟩, inside⟩

end Load

end PaintKernel
