import Mathlib
import PaintKernel.Unmap

set_option autoImplicit false

/-! Where the physical pages are while pages are mapped, unmapped and written. -/

namespace PaintKernel

open ByteMemory RadixTree LinkedList Transition

inductive Place where
  | free
  | table (path : List (Fin 512))
  | mapped (page : Nat)

def Occupies (m : Mem) (root : Nat) (free : List Nat) : Place → Nat → Prop
  | .free, p => p ∈ free
  | .table path, p => path.length < 4 ∧ pageAt m root path = some p
  | .mapped page, p =>
      page < 2 ^ 36 ∧ ∃ mapping, walk m root (page * 4096) = some mapping ∧ mapping.frame = p

/-- A well-formed address space in which no page is in two places. The frames that large pages map
count as places, so that no large page may map a free page. -/
structure Partitioned (k : Kernel) (root : Nat) (free : List Nat) : Prop where
  wellFormed : WellFormed (fun _ => True) k root free
  single : ∀ p left right, Occupies k.mem root free left p → Occupies k.mem root free right p →
    left = right

inductive VmAction where
  | map (address : Nat) (user writable executable : Bool)
  | unmap (address : Nat)
  | write (target : Nat) (byte : UInt8)

/-- Calls on page-aligned addresses of a given set, and stores into mapped frames. -/
inductive VmStep (root : Nat) (walked : Nat → Prop) : Kernel → VmAction → Kernel → Prop where
  | map {k : Kernel} {address : Nat} {user writable executable : Bool}
      (aligned : address % 4096 = 0) (listed : walked address) :
      VmStep root walked k (.map address user writable executable)
        (k.vmMap root address user writable executable).1
  | unmap {k k' : Kernel} {address : Nat} {removed : Bool}
      (aligned : address % 4096 = 0) (listed : walked address)
      (returns : k.vmUnmap root address = some (k', removed)) :
      VmStep root walked k (.unmap address) k'
  | write {k : Kernel} {address target : Nat} {byte : UInt8} {mapping : Mapping}
      (mapped : walk k.mem root address = some mapping)
      (inside : mapping.frame ≤ target ∧ target < mapping.frame + 4096) :
      VmStep root walked k (.write target byte) { k with mem := store k.mem target byte }

/-- No mapped page is unmapped, and `vm_map` finds a free page for every missing level. -/
def Harmless (root : Nat) (k : Kernel) : VmAction → Prop
  | .map address .. => walk k.mem root address = none →
      ∃ free, k.FreeList free ∧ absentLevels k.mem root [] (indices address) ≤ free.length
  | .unmap address => walk k.mem root address = none
  | .write .. => True

def Covers (m m' : Mem) (root : Nat) (free free' : List Nat) : Prop :=
  ∀ p, (∃ place, Occupies m root free place p) → ∃ place, Occupies m' root free' place p

section Pages

variable {k k' : Kernel} {root address frame : Nat} {free free' : List Nat}
  {user writable executable : Bool}

theorem pageNumber_mul {page : Nat} (bound : page < 2 ^ 36) : pageNumber (page * 4096) = page := by
  unfold pageNumber
  omega

theorem pageNumber_lt (address : Nat) : pageNumber address < 2 ^ 36 := by
  unfold pageNumber
  omega

theorem walk_pageNumber (m : Mem) (root address : Nat) :
    walk m root (pageNumber address * 4096) = walk m root address :=
  walk_indices m root ((indices_eq_iff _ _).mpr (pageNumber_mul (pageNumber_lt address)))

theorem occupies_mapped {m : Mem} {mapping : Mapping} (found : walk m root address = some mapping) :
    Occupies m root free (.mapped (pageNumber address)) mapping.frame :=
  ⟨pageNumber_lt address, mapping, by rw [walk_pageNumber, found], rfl⟩

theorem partitioned_of_small (wf : WellFormed (fun _ => True) k root free)
    (small : ∀ address, SlotsHold (SmallOn (indices address)) k.mem root) :
    Partitioned k root free where
  wellFormed := wf
  single := by
    intro p left right first second
    have reached : ∀ {place : Place}, Occupies k.mem root free place p → place = .free ∧ p ∈ free ∨
        ∃ path, pageAt k.mem root path = some p ∧ (place = .table path ∧ path.length < 4 ∨
          ∃ page, place = .mapped page ∧ page < 2 ^ 36 ∧ path = indices (page * 4096)) := by
      intro place here
      cases place with
      | free => exact .inl ⟨rfl, here⟩
      | table path => exact .inr ⟨path, here.2, .inl ⟨rfl, here.1⟩⟩
      | mapped page =>
          rcases here with ⟨bound, mapping, found, rfl⟩
          cases mapped : pageAt k.mem root (indices (page * 4096)) with
          | none =>
              rw [walk_of_unmapped (small _) mapped] at found
              cases found
          | some frame =>
              rcases walk_of_mapped mapped with ⟨mapping', found', rfl⟩
              rw [found', Option.some.injEq] at found
              subst found
              exact .inr ⟨_, mapped, .inr ⟨page, rfl, bound, rfl⟩⟩
    rcases reached first with ⟨rfl, member⟩ | ⟨path, reachedLeft, kindLeft⟩
    · rcases reached second with ⟨rfl, _⟩ | ⟨path, found, _⟩
      · rfl
      · exact absurd member (wf.disjoint path p found)
    · rcases reached second with ⟨rfl, member⟩ | ⟨path', reachedRight, kindRight⟩
      · exact absurd member (wf.disjoint path p reachedLeft)
      · have same := wf.unshared path path' p trivial trivial reachedLeft reachedRight
        subst same
        rcases kindLeft with ⟨rfl, short⟩ | ⟨page, rfl, bound, split⟩
        · rcases kindRight with ⟨rfl, _⟩ | ⟨page, rfl, bound, rfl⟩
          · rfl
          · simp [indices] at short
        · rcases kindRight with ⟨rfl, short⟩ | ⟨page', rfl, bound', split'⟩
          · simp [split, indices] at short
          · have number := (indices_eq_iff _ _).mp (split.symm.trans split')
            rw [pageNumber_mul bound, pageNumber_mul bound'] at number
            rw [number]

section Mapped

variable (part : Partitioned k root free)
  (grown : Extends (fun _ => True) root (indices address) user writable executable k free k' free')
  (reached : pageAt k'.mem root (indices address) = some frame) (taken : frame ∈ free)

include grown reached taken

theorem occupies_before {place : Place} {p : Nat} (after : Occupies k'.mem root free' place p) :
    Occupies k.mem root free place p ∨ p ∈ free ∧ ∃ other, pageAt k'.mem root other = some p ∧
      (place = .table other ∨ place = .mapped (pageNumber address) ∧ other = indices address) := by
  cases place with
  | free => exact .inl (grown.suffix.subset after)
  | table path =>
      rcases after with ⟨short, found⟩
      rcases grown.added path p found with before | ⟨_, member⟩
      · exact .inl ⟨short, before⟩
      · exact .inr ⟨member, path, found, .inl rfl⟩
  | mapped page =>
      rcases after with ⟨bound, mapping, found, rfl⟩
      by_cases same : indices (page * 4096) = indices address
      · rcases walk_of_mapped reached with ⟨mapping', found', rfl⟩
        rw [walk_indices _ _ same, found', Option.some.injEq] at found
        subst found
        have number : page = pageNumber address := by
          rw [← (indices_eq_iff _ _).mp same, pageNumber_mul bound]
        exact .inr ⟨taken, indices address, reached, .inr ⟨by rw [number], rfl⟩⟩
      · exact .inl ⟨bound, mapping, (grown.walks _ same).symm.trans found, rfl⟩

include part

theorem mapped_partitioned : Partitioned k' root free' where
  wellFormed := grown.wellFormed
  single := by
    have mixed : ∀ p left right, Occupies k'.mem root free' left p →
      Occupies k.mem root free left p →
        p ∈ free → (∃ other, pageAt k'.mem root other = some p ∧ (right = .table other ∨
          right = .mapped (pageNumber address) ∧ other = indices address)) → left = right := by
      intro p left right after before member new
      rcases new with ⟨other, found, _⟩
      have same := part.single p left .free before member
      subst same
      exact absurd after (grown.wellFormed.disjoint other p found)
    intro p left right afterLeft afterRight
    rcases occupies_before grown reached taken afterLeft with beforeLeft | ⟨member, newLeft⟩
    · rcases occupies_before grown reached taken afterRight with beforeRight | ⟨member, newRight⟩
      · exact part.single p left right beforeLeft beforeRight
      · exact mixed p left right afterLeft beforeLeft member newRight
    · rcases occupies_before grown reached taken afterRight with beforeRight | ⟨_, newRight⟩
      · exact (mixed p right left afterRight beforeRight member newLeft).symm
      · rcases newLeft with ⟨other, foundLeft, kindLeft⟩
        rcases newRight with ⟨other', foundRight, kindRight⟩
        have same := grown.wellFormed.unshared other other' p trivial trivial foundLeft foundRight
        subst same
        rcases kindLeft with rfl | ⟨rfl, rfl⟩
        · rcases kindRight with rfl | ⟨rfl, rfl⟩
          · rfl
          · exact absurd afterLeft.1 (by simp [indices])
        · rcases kindRight with rfl | ⟨rfl, _⟩
          · exact absurd afterRight.1 (by simp [indices])
          · rfl

omit reached taken in
theorem mapped_covers (absent : walk k.mem root address = none) :
    Covers k.mem k'.mem root free free' := by
  rintro p ⟨place, before⟩
  cases place with
  | free =>
      rcases grown.taken p before with left | ⟨other, found⟩
      · exact ⟨.free, left⟩
      · rcases grown.added other p found with old | ⟨inside, _⟩
        · exact absurd before (part.wellFormed.disjoint other p old)
        · by_cases short : other.length < 4
          · exact ⟨.table other, short, found⟩
          · have whole : other = indices address := by
              apply inside.eq_of_length
              have bound := inside.length_le
              simp only [indices, List.length_cons, List.length_nil] at bound ⊢
              omega
            subst whole
            rcases walk_of_mapped found with ⟨mapping, mapped, rfl⟩
            exact ⟨_, occupies_mapped mapped⟩
  | table path => exact ⟨.table path, before.1, grown.kept path p before.2⟩
  | mapped page =>
      rcases before with ⟨bound, mapping, found, rfl⟩
      by_cases same : indices (page * 4096) = indices address
      · rw [walk_indices _ _ same, absent] at found
        cases found
      · exact ⟨.mapped page, bound, mapping, (grown.walks _ same).trans found, rfl⟩

end Mapped

/-- A store into a mapped frame changes no table and no free page. -/
theorem written_bytes (byte : UInt8) (part : Partitioned k root free) {mapping : Mapping}
    {target : Nat} (mapped : walk k.mem root address = some mapping)
    (inside : mapping.frame ≤ target ∧ target < mapping.frame + 4096) :
    (∀ (path : List (Fin 512)) table, path.length < 4 → pageAt k.mem root path = some table →
      ∀ n, table ≤ n → n < table + 4096 → store k.mem target byte n = k.mem n) ∧
    ∀ page ∈ free, ∀ n, page ≤ n → n < page + 4096 → store k.mem target byte n = k.mem n := by
  have aligned := walk_frame_aligned mapped
  have here : Occupies k.mem root free (.mapped (pageNumber address)) mapping.frame :=
    occupies_mapped mapped
  constructor
  · intro path table short reached n lower upper
    have alignedT := (pageAt_pageBase part.wellFormed.base reached).1
    have different : table ≠ mapping.frame := by
      rintro rfl
      cases part.single _ _ (.table path) here ⟨short, reached⟩
    exact store_elsewhere _ _ _ _ (by omega)
  · intro page member n lower upper
    have alignedP := (part.wellFormed.pages page member).1.1
    have different : page ≠ mapping.frame := by
      rintro rfl
      cases part.single _ _ .free here member
    exact store_elsewhere _ _ _ _ (by omega)

theorem occupies_outside {m m' : Mem}
    (tables : ∀ (path : List (Fin 512)) table, path.length < 4 → pageAt m root path = some table →
      ∀ n, table ≤ n → n < table + 4096 → m' n = m n) (place : Place) (p : Nat) :
    Occupies m' root free place p ↔ Occupies m root free place p := by
  cases place with
  | free => rfl
  | table path => simp only [Occupies, pageAt_outside tables]
  | mapped page => simp only [Occupies, walk_outside tables]

end Pages

section Runs

variable {root : Nat} {walked : Nat → Prop} {k k' : Kernel} {free : List Nat}

structure Conserving (root : Nat) (walked : Nat → Prop) (m : Mem) (free : List Nat) (k : Kernel)
    (free' : List Nat) : Prop where
  partitioned : Partitioned k root free'
  small : ∀ address, walked address → SlotsHold (SmallOn (indices address)) k.mem root
  covers : Covers m k.mem root free free'

theorem vmStep_conserving {m : Mem} {free' : List Nat} {action : VmAction}
    (before : Conserving root walked m free k free') (harmless : Harmless root k action)
    (step : VmStep root walked k action k') :
    ∃ free'', Conserving root walked m free k' free'' := by
  have wf := before.partitioned.wellFormed
  cases step with
  | @map address user writable executable aligned listed =>
      have small := before.small address listed
      cases reached : pageAt k.mem root (indices address) with
      | some frame =>
          rw [vmMap_mapped wf reached]
          exact ⟨free', before⟩
      | none =>
          have absent := walk_of_unmapped small reached
          rcases harmless absent with ⟨list, chain, room⟩
          have same : list = free' := chain_unique chain wf.list
          subst same
          rcases vmMap_unmapped user writable executable wf small reached room with
            ⟨k'', free'', frame, call, grown, mapped, taken, _⟩
          rw [call]
          refine ⟨free'', mapped_partitioned before.partitioned grown mapped taken, ?_, ?_⟩
          · intro other member
            exact grown.slots _ (smallOn_stable _ _ _ _ _) (before.small other member)
          · intro p somewhere
            exact mapped_covers before.partitioned grown absent p (before.covers p somewhere)
  | @unmap _ address removed aligned listed returns =>
      have small := before.small address listed
      have unmapped := (walk_none_iff small).mp harmless
      rw [vmUnmap_unmapped wf.base small unmapped, Option.some.injEq, Prod.mk.injEq] at returns
      rcases returns with ⟨rfl, _⟩
      exact ⟨free', before⟩
  | @write address target byte mapping mapped inside =>
      rcases written_bytes byte before.partitioned mapped inside with ⟨tables, listed⟩
      refine ⟨free', ⟨wf.outside tables listed, ?_⟩, ?_, ?_⟩
      · intro p left right
        simp only [occupies_outside tables]
        exact before.partitioned.single p left right
      · exact fun other member => slotsHold_outside tables (before.small other member)
      · intro p somewhere
        simp only [occupies_outside tables]
        exact before.covers p somewhere

/-- As long as no mapped page is unmapped and `vm_map` does not run out of pages, every page
that was free or below the root is in exactly one place after every step. -/
theorem pages_conserved {actions : List VmAction} (part : Partitioned k root free)
    (small : ∀ address, walked address → SlotsHold (SmallOn (indices address)) k.mem root)
    (run : Run (fun s action s' => VmStep root walked s action s' ∧
      Harmless root s action) k actions k') :
    ∃ free', k'.FreeList free' ∧ free'.Nodup ∧
      ∀ p, (∃ place, Occupies k.mem root free place p) →
        ∃! place, Occupies k'.mem root free' place p := by
  have preserved : ∀ s action next, (∃ free', Conserving root walked k.mem free s free') →
      VmStep root walked s action next ∧ Harmless root s action →
      ∃ free', Conserving root walked k.mem free next free' := by
    rintro s action next ⟨free', before⟩ ⟨step, harmless⟩
    exact vmStep_conserving before harmless step
  rcases invariant preserved run ⟨free, part, small, fun _ somewhere => somewhere⟩ with
    ⟨free', last⟩
  have list := last.partitioned.wellFormed.list
  refine ⟨free', list, chain_nodup list, fun p somewhere => ?_⟩
  rcases last.covers p somewhere with ⟨place, here⟩
  exact ⟨place, here, fun other there => last.partitioned.single p other place there here⟩

end Runs

theorem bare_pages_conserved :
    ∃ free', Kernel.FreeList (bareKernel.vmMap 0x1000 0x400000 true true false).1 free' ∧
      free'.Nodup ∧
      ∀ p, (∃ place, Occupies bareKernel.mem 0x1000 barePages place p) →
        ∃! place, Occupies (bareKernel.vmMap 0x1000 0x400000 true true false).1.mem 0x1000 free'
          place p := by
  have small : ∀ address, SlotsHold (SmallOn (indices address)) bareKernel.mem 0x1000 :=
    fun _ => bare_slots fun _ _ _ => rfl
  have harmless : Harmless 0x1000 bareKernel (.map 0x400000 true true false) := fun _ =>
    ⟨barePages, bare_freeList, Nat.le_trans (absentLevels_le _ _ _ _) (by decide)⟩
  exact pages_conserved (partitioned_of_small (bare_wellFormed fun _ _ => trivial) small)
    (fun address (_ : True) => small address) (.cons ⟨.map (by decide) trivial, harmless⟩ (.nil _))

/-! Virtual pages 2 to 5 under one chain of tables. The frames behind pages 2, 3 and 4 start
with an odd word, so they show the tables at those physical addresses as not empty. -/

def leakBytes : List (Nat × UInt8) :=
  [(0x1000, 7), (0x1001, 0x20), (0x2000, 7), (0x2001, 0x30), (0x3000, 7), (0x3001, 0x40),
    (0x4010, 7), (0x4011, 0x80), (0x4018, 7), (0x4019, 0x70), (0x4020, 7), (0x4021, 0x60),
    (0x4028, 7), (0x4029, 0x50), (0x6000, 1), (0x7000, 1), (0x8000, 1)]

def leakKernel : Kernel :=
  { bareKernel with mem := fun n => (leakBytes.lookup n).getD 0, freelist := 0 }

theorem leak_blank (table : Nat) (i : Fin 512)
    (off : ∀ entry ∈ leakBytes, entry.1 < table + 8 * i ∨ table + 8 * i + 8 ≤ entry.1) :
    slot leakKernel.mem table i = .decode 0 := by
  rw [slot, readLE_zero]
  intro n lower upper
  have missing : leakBytes.lookup n = none := by
    rw [List.lookup_eq_none_iff]
    intro entry member
    have apart := off entry member
    simp
    omega
  simp only [leakKernel, missing, Option.getD_none]

theorem leak_slot4 (i : Fin 512) :
    slot leakKernel.mem 0x1000 i = if i = 0 then .decode 0x2007 else .decode 0 := by
  split
  · subst i
    decide
  · apply leak_blank
    simp [leakBytes]
    omega

theorem leak_slot3 (i : Fin 512) :
    slot leakKernel.mem 0x2000 i = if i = 0 then .decode 0x3007 else .decode 0 := by
  split
  · subst i
    decide
  · apply leak_blank
    simp [leakBytes]
    omega

theorem leak_slot2 (i : Fin 512) :
    slot leakKernel.mem 0x3000 i = if i = 0 then .decode 0x4007 else .decode 0 := by
  split
  · subst i
    decide
  · apply leak_blank
    simp [leakBytes]
    omega

theorem leak_slot1 (i : Fin 512) : slot leakKernel.mem 0x4000 i =
    if i = 2 then .decode 0x8007 else if i = 3 then .decode 0x7007 else
      if i = 4 then .decode 0x6007 else if i = 5 then .decode 0x5007 else .decode 0 := by
  split_ifs
  iterate 4
    · subst i
      decide
  · apply leak_blank
    simp [leakBytes]
    omega

def leakTree : List (List (Fin 512) × Nat) :=
  [([], 0x1000), ([0], 0x2000), ([0, 0], 0x3000), ([0, 0, 0], 0x4000), ([0, 0, 0, 2], 0x8000),
    ([0, 0, 0, 3], 0x7000), ([0, 0, 0, 4], 0x6000), ([0, 0, 0, 5], 0x5000)]

theorem leak_below {page target : Nat} {path : List (Fin 512)}
    (reached : follow nextTable (slot leakKernel.mem) 4 page path = some target) :
    path = [] ∧ target = page := by
  cases path with
  | nil =>
      cases reached
      exact ⟨rfl, rfl⟩
  | cons i path =>
      rw [follow, nextTable_deep _ _ (by omega)] at reached
      cases reached

theorem leak_chain {depth word table child target : Nat} {path : List (Fin 512)}
    (entries : ∀ i : Fin 512, slot leakKernel.mem table i = if i = 0 then .decode word
      else .decode 0)
    (points : nextTable depth (.decode word) = some child)
    (reached : follow nextTable (slot leakKernel.mem) depth table path = some target) :
    path = [] ∧ target = table ∨
      ∃ rest, path = 0 :: rest ∧ follow nextTable (slot leakKernel.mem) (depth + 1) child rest =
        some target := by
  cases path with
  | nil =>
      cases reached
      exact .inl ⟨rfl, rfl⟩
  | cons i rest =>
      simp only [follow, entries] at reached
      split at reached
      · subst i
        rw [points] at reached
        exact .inr ⟨rest, rfl, reached⟩
      · rw [nextTable_absent PageTableEntry.decode_zero_present] at reached
        cases reached

theorem leak_pageAt {path : List (Fin 512)} {page : Nat}
    (reached : pageAt leakKernel.mem 0x1000 path = some page) : (path, page) ∈ leakTree := by
  rcases leak_chain leak_slot4 (show nextTable 0 (.decode 0x2007) = some 0x2000 by decide)
    reached with
    ⟨rfl, rfl⟩ | ⟨path, rfl, reached3⟩
  · decide
  rcases leak_chain leak_slot3 (show nextTable 1 (.decode 0x3007) = some 0x3000 by decide)
    reached3 with
    ⟨rfl, rfl⟩ | ⟨path, rfl, reached2⟩
  · decide
  rcases leak_chain leak_slot2 (show nextTable 2 (.decode 0x4007) = some 0x4000 by decide)
    reached2 with
    ⟨rfl, rfl⟩ | ⟨path, rfl, reached1⟩
  · decide
  cases path with
  | nil =>
      cases reached1
      decide
  | cons i path =>
      simp only [follow, leak_slot1] at reached1
      split_ifs at reached1
      iterate 4
        · subst i
          rcases leak_below reached1 with ⟨rfl, rfl⟩
          decide
      · rw [nextTable_absent PageTableEntry.decode_zero_present] at reached1
        cases reached1

theorem leak_unshared {left right : List (Fin 512)} {page : Nat}
    (reachedLeft : pageAt leakKernel.mem 0x1000 left = some page)
    (reachedRight : pageAt leakKernel.mem 0x1000 right = some page) : left = right := by
  have distinct : ∀ first ∈ leakTree, ∀ second ∈ leakTree, first.2 = second.2 →
      first.1 = second.1 := by
    decide
  exact distinct _ (leak_pageAt reachedLeft) _ (leak_pageAt reachedRight) rfl

theorem leak_wellFormed : WellFormed (fun _ => True) leakKernel 0x1000 [] where
  base := ⟨by decide, by decide⟩
  tables := fun _ _ => trivial
  unshared := fun _ _ _ _ _ => leak_unshared
  list := rfl
  pages := by simp
  disjoint := by simp

theorem leak_pageSize {path : List (Fin 512)} {table : Nat} (short : path.length < 4)
    (reached : pageAt leakKernel.mem 0x1000 path = some table) (i : Fin 512) :
    (slot leakKernel.mem table i).pageSize = false := by
  have tables : ∀ entry ∈ leakTree, entry.1.length < 4 →
      entry.2 = 0x1000 ∨ entry.2 = 0x2000 ∨ entry.2 = 0x3000 ∨ entry.2 = 0x4000 := by decide
  rcases tables _ (leak_pageAt reached) short with same | same | same | same <;> simp only at same
  · rw [same, leak_slot4]
    split_ifs <;> decide
  · rw [same, leak_slot3]
    split_ifs <;> decide
  · rw [same, leak_slot2]
    split_ifs <;> decide
  · rw [same, leak_slot1]
    split_ifs <;> decide

theorem leak_small (address : Nat) : SlotsHold (SmallOn (indices address)) leakKernel.mem 0x1000 :=
  fun _ _ i short reached _ _ => leak_pageSize short reached i

theorem leak_partitioned : Partitioned leakKernel 0x1000 [] :=
  partitioned_of_small leak_wellFormed leak_small

theorem leak_tables : Traversed leakKernel.mem 0x1000 0x5000 0x2000 0x3000 0x4000 :=
  ⟨by decide, by decide, by decide⟩

theorem leak_tests :
    let detached := leakKernel.detach 0x1000 0x5000 0x2000 0x3000 0x4000 false false false
    detached.freePageTable 0x4000 = some false ∧ detached.freePageTable 0x3000 = some false ∧
      detached.freePageTable 0x2000 = some false := by
  decide +kernel

theorem leak_mapped : pageAt leakKernel.mem 0x1000 (indices 0x5000) = some 0x5000 := by decide

theorem leak_call : leakKernel.vmUnmap 0x1000 0x5000 =
    some ((leakKernel.cutEntry true 0x4000 (level1 0x5000)).invalidateTlb 0x5000, true) := by
  rw [vmUnmap_mapped leak_wellFormed.base leak_tables leak_mapped]
  simp only [leak_tests, Option.bind_some]
  rfl

theorem leak_nowhere (place : Place) :
    ¬ Occupies (cutIf true leakKernel.mem 0x4000 (level1 0x5000)) 0x1000 [] place 0x5000 := by
  have wf : WellFormed TablePath leakKernel 0x1000 [] :=
    leak_wellFormed.mono (fun _ _ => trivial) (fun _ short => short)
  have short : [level4 0x5000, level3 0x5000, level2 0x5000].length < 4 := by simp
  intro here
  cases place with
  | free => cases here
  | table path =>
      rcases cut_fewer wf short leak_tables.table1 here.2 with ⟨before, _⟩
      have same := leak_unshared before leak_mapped
      have long := here.1
      rw [same] at long
      simp [indices] at long
  | mapped page =>
      rcases here with ⟨bound, mapping, found, atFrame⟩
      by_cases inside : [level4 0x5000, level3 0x5000, level2 0x5000] ++ [level1 0x5000] <+:
          indices (page * 4096)
      · rw [cut_inside wf short leak_tables.table1 inside] at found
        cases found
      · rw [cut_outside wf short leak_tables.table1 inside] at found
        have before : Occupies leakKernel.mem 0x1000 [] (.mapped page) 0x5000 :=
          ⟨bound, mapping, found, atFrame⟩
        have here : Occupies leakKernel.mem 0x1000 [] (.mapped 5) 0x5000 :=
          ⟨by decide, ⟨0x5000, true, true, true⟩, by decide, rfl⟩
        have same := leak_partitioned.single _ _ _ before here
        cases same
        exact inside (List.prefix_refl (indices 0x5000))

/-- Unmapping page 5 succeeds, and its frame is lost. -/
theorem leak_unmap :
    Partitioned leakKernel 0x1000 [] ∧
      (∀ address, SlotsHold (SmallOn (indices address)) leakKernel.mem 0x1000) ∧
      Occupies leakKernel.mem 0x1000 [] (.mapped 5) 0x5000 ∧
      ∃ k', Run (VmStep 0x1000 fun _ => True) leakKernel [.unmap 0x5000] k' ∧
        ∀ free' place, k'.FreeList free' → ¬ Occupies k'.mem 0x1000 free' place 0x5000 := by
  refine ⟨leak_partitioned, leak_small, ⟨by decide, ⟨0x5000, true, true, true⟩, by decide, rfl⟩, _,
    .cons (.unmap (by decide) trivial leak_call) (.nil _), ?_⟩
  intro free' place list here
  have empty : free' = [] := (chain_nil_iff list).mp rfl
  subst empty
  exact leak_nowhere place here

end PaintKernel
