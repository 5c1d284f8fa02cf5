import Mathlib
import PaintKernel.PageMap

set_option autoImplicit false

/-! The memory of a program as the kernel sees it through the lower half. -/

namespace PaintKernel

open ByteMemory RadixTree LinkedList

structure UserPage where
  byte : Nat → UInt8
  writable : Bool

abbrev UserSpace := Nat → Option UserPage

def zeroPage : UserPage := ⟨fun _ => 0, true⟩

/-- The paths to tables and to the frames of the lower half. -/
def UserPath (path : List (Fin 512)) : Prop := path.length < 4 ∨ LowerPath path

def Unmanaged (m : Mem) (root : Nat) (free : List Nat) (n : Nat) : Prop :=
  (∀ page ∈ free, n < page ∨ page + 4096 ≤ n) ∧
  ∀ (path : List (Fin 512)) table, path.length < 4 → pageAt m root path = some table →
    n < table ∨ table + 4096 ≤ n

theorem WellFormed.frame_unmanaged {root frame n : Nat} {k : Kernel} {free : List Nat}
    (wf : WellFormed UserPath k root free) {address : Nat}
    (reached : pageAt k.mem root (indices address) = some frame) (mine : UserPath (indices address))
    (inside : frame ≤ n ∧ n < frame + 4096) : Unmanaged k.mem root free n := by
  have aligned := (pageAt_pageBase wf.base reached).1
  constructor
  · intro page member
    have alignedPage := (wf.pages page member).1.1
    have different : page ≠ frame := by
      rintro rfl
      exact wf.disjoint _ _ reached member
    omega
  · intro path table short found
    have alignedTable := (pageAt_pageBase wf.base found).1
    have different : table ≠ frame := by
      rintro rfl
      have same := wf.unshared _ _ _ (.inl short) mine found reached
      rw [same] at short
      simp [indices] at short
    omega

/-- The lower half of the active address space holds exactly these pages. -/
structure HoldsUser (root : Nat) (k : Kernel) (free : List Nat) (user : UserSpace) : Prop where
  wellFormed : WellFormed UserPath k root free
  small : SlotsHold SmallLower k.mem root
  granted : SlotsHold OpenLower k.mem root
  active : k.activeRoot = root
  absent : ∀ v, v < 2 ^ 47 → user (v / 4096) = none → walk k.mem root v = none
  pages : ∀ v, v < 2 ^ 47 → ∀ page, user (v / 4096) = some page →
    ∃ mapping, walk k.mem root v = some mapping ∧ mapping.writable = page.writable ∧
      k.mem (mapping.frame + v % 4096) = page.byte (v % 4096)

section Holds

variable {root a v : Nat} {k : Kernel} {free : List Nat} {user : UserSpace}

theorem HoldsUser.smallOn (holds : HoldsUser root k free user) (low : v < 2 ^ 47) :
    SlotsHold (SmallOn (indices v)) k.mem root :=
  smallOn_of_lower (lowerHalf_of_lt low) holds.small

theorem HoldsUser.reached (holds : HoldsUser root k free user) (low : v < 2 ^ 47)
    {mapping : Mapping} (found : walk k.mem root v = some mapping) :
    pageAt k.mem root (indices v) = some mapping.frame := by
  cases mapped : pageAt k.mem root (indices v) with
  | none =>
      rw [walk_of_unmapped (holds.smallOn low) mapped] at found
      cases found
  | some frame =>
      rcases walk_of_mapped mapped with ⟨mapping', found', rfl⟩
      rw [found, Option.some.injEq] at found'
      rw [found']

theorem userPath_indices (low : v < 2 ^ 47) : UserPath (indices v) :=
  .inr (lowerPath_indices (lowerHalf_of_lt low) (List.prefix_refl _))

theorem HoldsUser.frames_apart (holds : HoldsUser root k free user) (low : v < 2 ^ 47)
    (lowA : a < 2 ^ 47) {mapping other : Mapping} (found : walk k.mem root v = some mapping)
    (foundA : walk k.mem root a = some other) (different : v / 4096 ≠ a / 4096) :
    mapping.frame ≠ other.frame := by
  intro same
  have reached := holds.reached low found
  have reachedA := holds.reached lowA foundA
  rw [same] at reached
  exact different ((indices_lower low lowA).mp
    (holds.wellFormed.unshared _ _ _ (userPath_indices low) (userPath_indices lowA)
      reached reachedA))

theorem HoldsUser.frame_outside (holds : HoldsUser root k free user) (low : v < 2 ^ 47)
    {mapping : Mapping} (found : walk k.mem root v = some mapping) {n : Nat}
    (inside : mapping.frame ≤ n ∧ n < mapping.frame + 4096) :
    (∀ page ∈ free, n < page ∨ page + 4096 ≤ n) ∧
    ∀ (path : List (Fin 512)) table, path.length < 4 → pageAt k.mem root path = some table →
      n < table ∨ table + 4096 ≤ n :=
  holds.wellFormed.frame_unmanaged (holds.reached low found) (userPath_indices low) inside

theorem HoldsUser.loadVirt (holds : HoldsUser root k free user) (low : v < 2 ^ 47) :
    k.loadVirt v = (user (v / 4096)).map fun page => page.byte (v % 4096) := by
  rw [Kernel.loadVirt, if_pos low, holds.active]
  cases present : user (v / 4096) with
  | none =>
      rw [holds.absent v low present]
      rfl
  | some page =>
      rcases holds.pages v low page present with ⟨mapping, found, _, byte⟩
      rw [found, Option.map_some, ← byte]

theorem HoldsUser.mapped_iff (holds : HoldsUser root k free user) (low : v < 2 ^ 47) :
    walk k.mem root v = none ↔ user (v / 4096) = none := by
  refine ⟨fun missing => ?_, holds.absent v low⟩
  cases present : user (v / 4096) with
  | none => rfl
  | some page =>
      rcases holds.pages v low page present with ⟨mapping, found, _, _⟩
      rw [missing] at found
      cases found

theorem HoldsUser.writableAt (holds : HoldsUser root k free user) (low : v < 2 ^ 47)
    {page : UserPage} (present : user (v / 4096) = some page) : k.writableAt v = page.writable := by
  rcases holds.pages v low page present with ⟨mapping, found, rights, _⟩
  calc
    k.writableAt v = (walk k.mem root v).any (·.writable) := by rw [Kernel.writableAt, holds.active]
    _ = page.writable := by rw [found, Option.any_some, rights]

theorem HoldsUser.unmapped (holds : HoldsUser root k free user) (low : v < 2 ^ 47)
    (missing : user (v / 4096) = none) : pageAt k.mem root (indices v) = none :=
  (walk_none_iff (holds.smallOn low)).mp (holds.absent v low missing)

theorem HoldsUser.absent_update (holds : HoldsUser root k free user) (low : a < 2 ^ 47)
    {page : UserPage} {m : ByteMemory.Mem}
    (walks : ∀ b, indices b ≠ indices a → walk m root b = walk k.mem root b) (lowV : v < 2 ^ 47)
    (absent : Function.update user (a / 4096) (some page) (v / 4096) = none) :
    walk m root v = none := by
  by_cases same : v / 4096 = a / 4096
  · rw [same, Function.update_self] at absent
    cases absent
  · rw [Function.update_of_ne same] at absent
    rw [walks v fun equal => same ((indices_lower lowV low).mp equal)]
    exact holds.absent v lowV absent

theorem HoldsUser.vmMap_new (holds : HoldsUser root k free user) (low : a < 2 ^ 47)
    (missing : user (a / 4096) = none) (room : 4 ≤ free.length) :
    ∃ k' free', k.vmMap root a true true false = (k', true) ∧
      HoldsUser root k' free' (Function.update user (a / 4096) (some zeroPage)) ∧
      free.length ≤ free'.length + 4 := by
  rcases vmMap_lower true true false holds.wellFormed holds.small holds.granted
    (lowerHalf_of_lt low)
    (holds.unmapped low missing) room with ⟨k', free', frame, call, grown, mapped, taken,
      zero, here, cost⟩
  refine ⟨k', free', call, ⟨grown.wellFormed, grown.slots _ (smallLower_stable _ _ _ _) holds.small,
    grown.slots _ (openLower_stable _ _ _ _) holds.granted, ?_, ?_, ?_⟩, cost⟩
  · rw [Kernel.activeRoot, grown.control.2]
    exact holds.active
  · intro v lowV absent
    exact holds.absent_update low grown.walks lowV absent
  · intro v lowV page present
    by_cases same : v / 4096 = a / 4096
    · rw [same, Function.update_self, Option.some.injEq] at present
      subst present
      refine ⟨_, (walk_indices _ _ ((indices_lower lowV low).mpr same)).trans here, rfl, ?_⟩
      exact zero _ (by simp) (by simp only; omega)
    · rw [Function.update_of_ne same] at present
      rcases holds.pages v lowV page present with ⟨mapping, found, rights, byte⟩
      refine ⟨mapping, ?_, rights, ?_⟩
      · rw [grown.walks v (fun equal => same ((indices_lower lowV low).mp equal)), found]
      · rcases holds.frame_outside lowV found (n := mapping.frame + v % 4096) (by omega) with
          ⟨outFree, outTables⟩
        rw [grown.bytes _ outFree outTables, byte]

theorem HoldsUser.vmMap_old (holds : HoldsUser root k free user) (low : a < 2 ^ 47)
    {page : UserPage} (present : user (a / 4096) = some page) :
    k.vmMap root a true true false = (k, false) := by
  rcases holds.pages a low page present with ⟨mapping, found, _, _⟩
  exact vmMap_mapped holds.wellFormed (holds.reached low found)

/-- `vm_protect` changes the rights of a page and no byte. -/
theorem HoldsUser.vmProtect (holds : HoldsUser root k free user) (low : a < 2 ^ 47)
    {page : UserPage} (present : user (a / 4096) = some page)
    (readable writable executable : Bool) :
    ∃ k', k.vmProtect root a readable writable executable = (k', true) ∧
      HoldsUser root k' free
        (Function.update user (a / 4096) (some { page with writable := writable })) := by
  rcases holds.pages a low page present with ⟨mapping, found, _, _⟩
  rcases vmProtect_lower readable writable executable holds.wellFormed holds.granted
    (lowerHalf_of_lt low) (holds.reached low found) with ⟨k', call, changed, here⟩
  have bytes : ∀ w other, w < 2 ^ 47 → walk k.mem root w = some other →
      k'.mem (other.frame + w % 4096) = k.mem (other.frame + w % 4096) := by
    intro w other lowW foundW
    exact changed.bytes _ (holds.frame_outside lowW foundW (by omega)).2
  refine ⟨k', call, ⟨changed.wellFormed, changed.slots _ (fun _ kept => kept) holds.small,
    changed.slots _ (fun _ _ _ bound => by simp [indices] at bound) holds.granted, ?_, ?_, ?_⟩⟩
  · rw [Kernel.activeRoot, changed.control.2]
    exact holds.active
  · intro v lowV absent
    exact holds.absent_update low changed.walks lowV absent
  · intro v lowV other presentV
    by_cases same : v / 4096 = a / 4096
    · rw [same, Function.update_self, Option.some.injEq] at presentV
      subst presentV
      have equal := (indices_lower lowV low).mpr same
      rcases holds.pages v lowV page (same ▸ present) with ⟨mapping', foundV, _, byte⟩
      have frame : mapping' = mapping := by
        apply Option.some.inj
        calc
          some mapping' = walk k.mem root v := foundV.symm
          _ = walk k.mem root a := walk_indices _ _ equal
          _ = some mapping := found
      subst frame
      refine ⟨_, (walk_indices _ _ equal).trans here, rfl, ?_⟩
      rw [bytes v mapping' lowV foundV, byte]
    · rw [Function.update_of_ne same] at presentV
      rcases holds.pages v lowV other presentV with ⟨mapping', foundV, rights, byte⟩
      refine ⟨mapping', ?_, rights, ?_⟩
      · rw [changed.walks v (fun equal => same ((indices_lower lowV low).mp equal)), foundV]
      · rw [bytes v mapping' lowV foundV, byte]

def UserPage.store (page : UserPage) (offset : Nat) (value : UInt8) : UserPage :=
  { page with byte := fun o => if o = offset then value else page.byte o }

/-- A store that does not fault changes one byte of one page. -/
theorem HoldsUser.stored (holds : HoldsUser root k free user) (low : v < 2 ^ 47) {page : UserPage}
    (present : user (v / 4096) = some page) {mapping : Mapping} (value : UInt8)
    (found : walk k.mem root v = some mapping) :
    HoldsUser root { k with mem := ByteMemory.store k.mem (mapping.frame + v % 4096) value } free
      (Function.update user (v / 4096) (some (page.store (v % 4096) value))) := by
  have aligned := walk_frame_aligned found
  have outside := holds.frame_outside low found (n := mapping.frame + v % 4096) (by omega)
  have tables : ∀ (path : List (Fin 512)) table, path.length < 4 →
    pageAt k.mem root path = some table →
      ∀ n, table ≤ n → n < table + 4096 →
        ByteMemory.store k.mem (mapping.frame + v % 4096) value n = k.mem n := by
    intro path table short reached n lower upper
    have out := outside.2 path table short reached
    exact store_elsewhere _ _ _ _ (by omega)
  have listed : ∀ page ∈ free, ∀ n, page ≤ n → n < page + 4096 →
      ByteMemory.store k.mem (mapping.frame + v % 4096) value n = k.mem n := by
    intro page member n lower upper
    have out := outside.1 page member
    exact store_elsewhere _ _ _ _ (by omega)
  refine ⟨holds.wellFormed.outside tables listed, slotsHold_outside tables holds.small,
    slotsHold_outside tables holds.granted, holds.active, ?_, ?_⟩
  · intro w lowW absent
    exact holds.absent_update low (fun b _ => walk_outside tables b) lowW absent
  · intro w lowW other presentW
    simp only [walk_outside tables]
    by_cases same : w / 4096 = v / 4096
    · rw [same, Function.update_self, Option.some.injEq] at presentW
      subst presentW
      rcases holds.pages w lowW page (same ▸ present) with ⟨mapping', foundW, rights, byte⟩
      have frame : mapping' = mapping := by
        rw [walk_indices _ _ ((indices_lower lowW low).mpr same), found,
          Option.some.injEq] at foundW
        exact foundW.symm
      subst frame
      refine ⟨mapping', foundW, rights, ?_⟩
      simp only [UserPage.store]
      by_cases here : w % 4096 = v % 4096
      · rw [here, store_here, if_pos rfl]
      · rw [store_elsewhere _ _ _ _ (by omega), if_neg here, byte]
    · rw [Function.update_of_ne same] at presentW
      rcases holds.pages w lowW other presentW with ⟨mapping', foundW, rights, byte⟩
      have apart := holds.frames_apart lowW low foundW found same
      have alignedW := walk_frame_aligned foundW
      exact ⟨mapping', foundW, rights, by rw [store_elsewhere _ _ _ _ (by omega), byte]⟩

theorem HoldsUser.storeVirt_writable (holds : HoldsUser root k free user) (low : v < 2 ^ 47)
    {page : UserPage} (present : user (v / 4096) = some page) (rights : page.writable = true)
    (value : UInt8) :
    ∃ k', k.storeVirt v value = some k' ∧
      HoldsUser root k' free
        (Function.update user (v / 4096) (some (page.store (v % 4096) value))) := by
  rcases holds.pages v low page present with ⟨mapping, found, granted, _⟩
  refine ⟨_, ?_, holds.stored low present value found⟩
  rw [Kernel.storeVirt, if_pos low, holds.active, found]
  simp [granted, rights]

end Holds

end PaintKernel
