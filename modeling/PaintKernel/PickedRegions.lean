import Mathlib
import PaintKernel.Isolation
import PaintKernel.MmapPointer

set_option autoImplicit false

/-! The regions that `mmap` picks for a program. -/

namespace PaintKernel

open LinkedList Transition

namespace System

variable (s : System)

def requested : UserEvent → List Nat
  | .syscall _ nr arg0 arg1 .. => if nr = 2 ∧ arg0 ≠ 0 then regionPages arg0 arg1 else []
  | .store .. => []

/-- The pages placed independently of the cursor since the running program was started: those it
started with and those it requested. -/
def record (e : UserEvent) (history : List Nat) : List Nat :=
  match s.launched e with
  | some m => m.addresses.map pageNumber
  | none => history ++ (requested e).map pageNumber

/-- A region of `len` bytes at the cursor ends in the lower half and avoids the pages on record. -/
structure Unobstructed (history : List Nat) (len : UInt64) : Prop where
  below : s.addre.toNat + (len.toNat / 4096 + 1) * 4096 ≤ 2 ^ 47
  avoids : ∀ a ∈ regionPages s.addre len, pageNumber a ∉ history

def PicksSafely (history : List Nat) : UserEvent → Prop
  | .syscall _ nr arg0 arg1 .. => nr = 2 ∧ arg0 = 0 → s.Unobstructed history arg1
  | .store .. => True

end System

structure RecordedStep (t : System × List Nat) (e : UserEvent) (t' : System × List Nat) : Prop where
  step : UserStep t.1 e t'.1
  recorded : t'.2 = t.1.record e t.2
  confined : ∃ free, t.1.kernel.FreeList free ∧ Confined t.1 free e
  picks : t.1.PicksSafely t.2 e

/-- Every mapped page of the lower half is on record or below the cursor. -/
def Accounted (s : System) (t : System × List Nat) : Prop :=
  (∃ cursor free, Contained
    (s.guard (fun p => p ∈ t.2 ∨ 4096 * p < t.1.addre.toNat) cursor) t.1 free) ∧
    t.1.addre.toNat % 4096 = 0

section Regions

variable {addr len : UInt64} {a : Nat}

theorem mem_regionPages (aligned : addr.toNat % 4096 = 0)
    (below : addr.toNat + (len.toNat / 4096 + 1) * 4096 ≤ 2 ^ 47) :
    a ∈ System.regionPages addr len ↔ ∃ j ≤ len.toNat / 4096, a = addr.toNat + 4096 * j := by
  have start : (System.startPage addr).toNat = addr.toNat := by
    rw [startPage_toNat]
    omega
  have count : System.pageCount addr len = len.toNat / 4096 + 1 := by
    rw [pageCount_toNat (by omega), aligned, Nat.zero_add]
  rw [System.regionPages, List.mem_map, count, start]
  constructor
  · rintro ⟨j, bound, rfl⟩
    rw [List.mem_range] at bound
    exact ⟨j, by omega, by unfold System.pageAddress; omega⟩
  · rintro ⟨j, bound, rfl⟩
    exact ⟨j, List.mem_range.mpr (by omega), by unfold System.pageAddress; omega⟩

theorem advance_toNat {s : System}
    (below : s.addre.toNat + (len.toNat / 4096 + 1) * 4096 ≤ 2 ^ 47) :
    (s.advance 0 len).addre.toNat = s.addre.toNat + (len.toNat / 4096 + 1) * 4096 := by
  rw [advance_cursor rfl]
  exact Nat.mod_eq_of_lt (by omega)

end Regions

section Steps

variable {s : System} {t t' : System × List Nat} {e : UserEvent}

theorem cursor_moves (aligned : t.1.addre.toNat % 4096 = 0) (picks : t.1.PicksSafely t.2 e) :
    t.1.addre.toNat ≤ (t.1.cursor e).toNat ∧ (t.1.cursor e).toNat % 4096 = 0 := by
  cases e with
  | store => exact ⟨le_refl _, aligned⟩
  | syscall input nr arg0 arg1 arg2 arg3 arg4 arg5 =>
      rw [System.cursor]
      split
      · rename_i number
        by_cases null : arg0 = 0
        · subst null
          have below := (picks ⟨number, rfl⟩).below
          rw [advance_toNat below]
          omega
        · rw [System.advance, if_neg null]
          exact ⟨le_refl _, aligned⟩
      · exact ⟨le_refl _, aligned⟩

/-- A page that `mmap` maps is put on record or lies below the new cursor. -/
theorem mmapped_accounted {a : Nat} (aligned : t.1.addre.toNat % 4096 = 0)
    (picks : t.1.PicksSafely t.2 e) (quiet : t.1.launched e = none) (member : a ∈ t.1.mmapped e) :
    pageNumber a ∈ t.1.record e t.2 ∨ 4096 * pageNumber a < (t.1.cursor e).toNat := by
  cases e with
  | store => cases member
  | syscall input nr arg0 arg1 arg2 arg3 arg4 arg5 =>
      rw [System.mmapped] at member
      split at member
      · rename_i number
        by_cases null : arg0 = 0
        · subst null
          right
          have below := (picks ⟨number, rfl⟩).below
          rw [System.pick, if_pos rfl, mem_regionPages aligned below] at member
          rcases member with ⟨j, bound, rfl⟩
          rw [System.cursor, if_pos number, advance_toNat below, pageNumber]
          omega
        · left
          rw [System.pick, if_neg null] at member
          rw [System.record, quiet, System.requested, if_pos ⟨number, null⟩]
          exact List.mem_append_right _ (List.mem_map_of_mem member)
      · cases member

theorem recordedStep_accounted (before : Accounted s t) (recorded : RecordedStep t e t') :
    Accounted s t' := by
  rcases before with ⟨⟨cursor, free, contained⟩, aligned⟩
  rcases recorded with ⟨step, record, ⟨list, chain, confined⟩, picks⟩
  have same : list = free := chain_unique chain contained.kernel.wellFormed.list
  subst same
  have moves := cursor_moves aligned picks
  let placed := fun p => p ∈ t.1.record e t.2 ∨ 4096 * p < (t.1.cursor e).toNat
  have kept : t.1.launched e = none → ∀ p, p ∈ t.2 ∨ 4096 * p < t.1.addre.toNat → placed p := by
    rintro quiet p (listed | below)
    · left
      rw [System.record, quiet]
      exact List.mem_append_left _ listed
    · exact .inr (lt_of_lt_of_le below moves.1)
  have region : t.1.launched e = none → ∀ a ∈ t.1.mmapped e, LowerHalf a → placed (pageNumber a) :=
    fun quiet a member _ => mmapped_accounted aligned picks quiet member
  have program : ∀ m, t.1.launched e = some m → ∀ a ∈ m.addresses, placed (pageNumber a) := by
    intro m launched a member
    left
    rw [System.record, launched]
    exact List.mem_map_of_mem member
  rcases userStep_contained contained step confined kept region program with ⟨free', after⟩
  have moved : t'.1.addre = t.1.cursor e := after.cursor
  refine ⟨⟨t.1.cursor e, free', ?_⟩, ?_⟩
  · rw [record, moved]
    exact after
  · rw [moved]
    exact moves.2

/-- Whatever calls came before, a region that the kernel picks is unmapped as long as every region
that it picks is unobstructed. -/
theorem picked_region_free {s' : System} {free history history' : List Nat}
    {events : List UserEvent} {len : UInt64} {a : Nat} (prepared : s.Prepared free)
    (aligned : s.addre.toNat % 4096 = 0)
    (accounted : ∀ v, LowerHalf v → walk s.kernel.mem s.kernel.activeRoot v ≠ none →
      pageNumber v ∈ history ∨ 4096 * pageNumber v < s.addre.toNat)
    (run : Run RecordedStep (s, history) events (s', history'))
    (clear : s'.Unobstructed history' len) (member : a ∈ System.regionPages s'.addre len) :
    walk s'.kernel.mem s'.kernel.activeRoot a = none := by
  have start : Accounted s (s, history) := ⟨⟨_, free, prepared.contained accounted⟩, aligned⟩
  have preserved : ∀ t e next, Accounted s t → RecordedStep t e next → Accounted s next :=
    fun _ _ _ before step => recordedStep_accounted before step
  rcases invariant preserved run start with ⟨⟨cursor, free', contained⟩, moved⟩
  have aligned' : s'.addre.toNat % 4096 = 0 := moved
  have place := member
  rw [mem_regionPages aligned' clear.below] at place
  rcases place with ⟨j, bound, address⟩
  have below := clear.below
  rw [contained.kernel.active]
  by_contra present
  rcases contained.kernel.mapped a (lowerHalf_of_lt (by omega)) present with listed | early
  · exact clear.avoids a member listed
  · simp only [pageNumber] at early
    omega

end Steps

theorem bare_picked_region :
    ∃ s', UserStep bareSystem (mapEvent 0x400000) s' ∧
      ∀ a ∈ System.regionPages s'.addre 8192, walk s'.kernel.mem s'.kernel.activeRoot a = none := by
  rcases bare_mapEvent 0x400000 (by decide) (by decide) with ⟨s', _, _, step, _, _, cursor⟩
  have recorded : RecordedStep (bareSystem, []) (mapEvent 0x400000) (s', [0x400]) := by
    have record : [0x400] = bareSystem.record (mapEvent 0x400000) [] := by decide
    refine ⟨step, record, ⟨barePages, bare_freeList, bare_confined⟩, ?_⟩
    intro null
    exact absurd null.2 (by decide)
  have clear : s'.Unobstructed [0x400] 8192 := by
    constructor
    · rw [cursor]
      decide
    · rw [cursor]
      decide
  have accounted : ∀ v, LowerHalf v →
      walk bareSystem.kernel.mem bareSystem.kernel.activeRoot v ≠ none →
      pageNumber v ∈ [] ∨ 4096 * pageNumber v < bareSystem.addre.toNat := by
    intro v _ found
    rw [bareSystem_root] at found
    exact absurd (bare_walk v) found
  exact ⟨s', step, fun a member => picked_region_free bareSystem_prepared (by decide) accounted
    (.cons recorded (.nil _)) clear member⟩

theorem picked_region_taken :
    bareSystem.Prepared barePages ∧ bareSystem.addre.toNat % 4096 = 0 ∧
      (∀ v, walk bareSystem.kernel.mem bareSystem.kernel.activeRoot v = none) ∧
      ∃ s' s'', Run UserStep bareSystem [mapEvent 0x60001000] s' ∧
        s'.sysMmap 0 8192 3 = some (s'', .returns 0x60000000) ∧
        0x60001000 ∈ System.regionPages s'.addre 8192 ∧
        walk s'.kernel.mem s'.kernel.activeRoot 0x60001000 ≠ none := by
  rcases bare_mapEvent 0x60001000 (by decide) (by decide) with
    ⟨s', _, _, step, grown, mapped, cursor⟩
  have page : (System.startPage 0x60001000).toNat = 0x60001000 := by decide
  rw [page] at mapped
  have active : s'.kernel.activeRoot = 0x1000 :=
    (Kernel.activeRoot_congr grown.control.2).trans bareSystem_root
  have picked : s'.pick 0 = 0x60000000 := by
    rw [System.pick, if_pos rfl]
    exact cursor
  have call := s'.sysMmap_eq 0 8192 3
  rw [picked, if_pos (by decide)] at call
  refine ⟨bareSystem_prepared, by decide, ?_, s', _, .cons step (.nil _), call, ?_, ?_⟩
  · rw [bareSystem_root]
    exact bare_walk
  · rw [cursor]
    decide
  · rcases walk_of_mapped mapped with ⟨mapping, found, _⟩
    rw [active, found]
    exact Option.some_ne_none mapping

end PaintKernel
