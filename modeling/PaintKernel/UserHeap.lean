import Mathlib
import PaintKernel.Library.Run

set_option autoImplicit false

/-! The heap of a user program: `malloc` of the standard library over the regions that `mmap`
returns. -/

namespace PaintKernel

open Transition

def roundUp (x y : Nat) : Nat := if x % y = 0 then x else (x + (y - x % y)) % 2 ^ 64

structure Heap where
  bump : Nat
  spaceRemaining : Nat
  deriving DecidableEq, Repr

def Heap.grab (sz : Nat) (h : Heap) : Nat × Heap :=
  (h.bump, ⟨(h.bump + sz) % 2 ^ 64, (h.spaceRemaining + (2 ^ 64 - sz)) % 2 ^ 64⟩)

/-- The block and the globals after the call; `mmap` answers with a pointer, or with `NULL`. -/
def malloc (mmap : Nat → Nat) (sz : Nat) (h : Heap) : Nat × Heap :=
  let sz := roundUp sz 16
  if h.spaceRemaining < sz then
    let roundedUp := roundUp sz 4096
    let newmem := mmap roundedUp
    if newmem = 0 then (0, h) else Heap.grab sz ⟨newmem, roundedUp⟩
  else h.grab sz

structure Extent where
  start : Nat
  size : Nat
  deriving DecidableEq, Repr

def Extent.addresses (e : Extent) : Set Nat := Set.Ico e.start (e.start + e.size)

structure Region extends Extent where
  requested : Nat
  enough : requested ≤ size
  aligned : start % 4096 = 0
  nonnull : start ≠ 0
  fits : start + size < 2 ^ 64

structure Program where
  heap : Heap
  regions : List Region
  blocks : List Extent

namespace Program

def start : Program := ⟨⟨0, 0⟩, [], []⟩

/-- How much a call of `malloc` asks of `mmap`, if anything. -/
def request (sz : Nat) (p : Program) : Option Nat :=
  if p.heap.spaceRemaining < roundUp sz 16 then some (roundUp (roundUp sz 16) 4096) else none

def call (mmap : Nat → Region) (sz : Nat) (p : Program) : Program :=
  let (result, heap) := malloc (fun n => (mmap n).start) sz p.heap
  { heap
    regions := ((p.request sz).map mmap).toList ++ p.regions
    blocks := if sz = 0 then p.blocks else ⟨result, sz⟩ :: p.blocks }

def Call (p : Program) (sz : Nat) (next : Program) : Prop :=
  ∃ mmap : Nat → Region,
    (∀ n, p.request sz = some n →
      (mmap n).requested = n ∧ ∀ r ∈ p.regions, Disjoint (mmap n).addresses r.addresses) ∧
    next = p.call mmap sz

def enter (r : Region) (p : Program) : Program :=
  { p with heap := ⟨r.start, r.requested⟩, regions := r :: p.regions }

def take (sz : Nat) (p : Program) : Program :=
  let (result, heap) := p.heap.grab (roundUp sz 16)
  { p with heap, blocks := if sz = 0 then p.blocks else ⟨result, sz⟩ :: p.blocks }

/-- A block in the used part of the current region or in a region left behind. -/
def Placed (b : Extent) (bump : Nat) : List Region → Prop
  | [] => False
  | r :: earlier => b.addresses ⊆ Set.Ico r.start bump ∨ ∃ r' ∈ earlier, b.addresses ⊆ r'.addresses

def Current (heap : Heap) : List Region → Prop
  | [] => heap = ⟨0, 0⟩
  | r :: _ => r.start ≤ heap.bump ∧ heap.bump + heap.spaceRemaining = r.start + r.requested

structure Consistent (p : Program) : Prop where
  current : Current p.heap p.regions
  bump_aligned : p.heap.bump % 16 = 0
  blocks_aligned : ∀ b ∈ p.blocks, b.start % 16 = 0
  blocks_placed : ∀ b ∈ p.blocks, Placed b p.heap.bump p.regions
  blocks_apart : p.blocks.Pairwise fun b c => Disjoint b.addresses c.addresses
  regions_apart : p.regions.Pairwise fun r r' => Disjoint r.addresses r'.addresses

end Program

section Rounding

variable {x y : Nat}

theorem roundUp_next (positive : 0 < y) (fits : x + y ≤ 2 ^ 64) :
    x ≤ roundUp x y ∧ roundUp x y < x + y ∧ roundUp x y % y = 0 := by
  have below := Nat.mod_lt x positive
  unfold roundUp
  split_ifs with exact'
  · exact ⟨le_refl x, by omega, exact'⟩
  · rw [Nat.mod_eq_of_lt (by omega)]
    refine ⟨by omega, by omega, ?_⟩
    have quotient : x + (y - x % y) = y * (x / y + 1) := by
      have parts := Nat.div_add_mod x y
      rw [Nat.mul_add_one]
      omega
    rw [quotient, Nat.mul_mod_right]

end Rounding

namespace Program

variable {p : Program} {sz : Nat} {r : Region}

theorem placed_region {b : Extent} (consistent : p.Consistent)
    (placed : Placed b p.heap.bump p.regions) :
    ∃ r ∈ p.regions, b.addresses ⊆ r.addresses := by
  have current := consistent.current
  cases regions : p.regions with
  | nil => simp [regions, Placed] at placed
  | cons last earlier =>
      rw [regions] at placed current
      rcases placed with here | ⟨r', before, inside⟩
      · refine ⟨last, List.mem_cons_self, here.trans (Set.Ico_subset_Ico_right ?_)⟩
        have enough := last.enough
        have room := current.2
        omega
      · exact ⟨r', List.mem_cons_of_mem last before, inside⟩

theorem enter_consistent (consistent : p.Consistent)
    (apart : ∀ r' ∈ p.regions, Disjoint r.addresses r'.addresses) : (p.enter r).Consistent where
  current := ⟨le_refl r.start, rfl⟩
  bump_aligned := by
    have aligned := r.aligned
    show r.start % 16 = 0
    omega
  blocks_aligned := consistent.blocks_aligned
  blocks_placed := by
    intro b member
    exact .inr (placed_region consistent (consistent.blocks_placed b member))
  blocks_apart := consistent.blocks_apart
  regions_apart := List.pairwise_cons.mpr ⟨apart, consistent.regions_apart⟩

theorem rounded (small : sz ≤ 2 ^ 64 - 1 - 8192) :
    sz ≤ roundUp sz 16 ∧ roundUp sz 16 % 16 = 0 ∧ roundUp sz 16 + 4096 ≤ 2 ^ 64 := by
  rcases roundUp_next (x := sz) (y := 16) (by decide) (by omega) with ⟨enough, close, aligned⟩
  exact ⟨enough, aligned, by omega⟩

theorem take_consistent (consistent : p.Consistent) (small : sz ≤ 2 ^ 64 - 1 - 8192)
    (room : roundUp sz 16 ≤ p.heap.spaceRemaining) : (p.take sz).Consistent := by
  rcases rounded small with ⟨enough, aligned, bounded⟩
  rcases p with ⟨⟨bump, spaceRemaining⟩, regions, blocks⟩
  rcases consistent with ⟨current, bumpAligned, blocksAligned, placed, blocksApart, regionsApart⟩
  simp only at current bumpAligned blocksAligned placed blocksApart regionsApart room
  cases regions with
  | nil =>
      -- no region has room, so the block is empty
      have empty : bump = 0 ∧ spaceRemaining = 0 := by simpa [Current] using current
      rcases empty with ⟨rfl, rfl⟩
      have nothing : sz = 0 := by omega
      subst nothing
      have next : (⟨⟨0, 0⟩, [], blocks⟩ : Program).take 0 = ⟨⟨0, 0⟩, [], blocks⟩ := by
        simp [take, Heap.grab, roundUp]
      rw [next]
      exact ⟨rfl, bumpAligned, blocksAligned, placed, blocksApart, regionsApart⟩
  | cons r earlier =>
      have fits := r.fits
      have within := r.enough
      have low : r.start ≤ bump := current.1
      have high : bump + spaceRemaining = r.start + r.requested := current.2
      have next : (⟨⟨bump, spaceRemaining⟩, r :: earlier, blocks⟩ : Program).take sz =
          ⟨⟨bump + roundUp sz 16, spaceRemaining - roundUp sz 16⟩, r :: earlier,
            if sz = 0 then blocks else ⟨bump, sz⟩ :: blocks⟩ := by
        simp only [take, Heap.grab, Nat.mod_eq_of_lt (show bump + roundUp sz 16 < 2 ^ 64 by omega),
          show spaceRemaining + (2 ^ 64 - roundUp sz 16) =
            spaceRemaining - roundUp sz 16 + 2 ^ 64 by omega,
          Nat.add_mod_right,
            Nat.mod_eq_of_lt (show spaceRemaining - roundUp sz 16 < 2 ^ 64 by omega)]
      have kept : ∀ b ∈ blocks, Placed b (bump + roundUp sz 16) (r :: earlier) := fun b member =>
        (placed b member).imp_left fun here =>
          here.trans (Set.Ico_subset_Ico_right (Nat.le_add_right _ _))
      rw [next]
      have remaining : bump + roundUp sz 16 + (spaceRemaining - roundUp sz 16) =
          r.start + r.requested := by
        omega
      have stillAligned : (bump + roundUp sz 16) % 16 = 0 := by omega
      have current' : Current ⟨bump + roundUp sz 16, spaceRemaining - roundUp sz 16⟩
          (r :: earlier) :=
        ⟨low.trans (Nat.le_add_right _ _), remaining⟩
      by_cases zero : sz = 0
      · rw [if_pos zero]
        exact ⟨current', stillAligned, blocksAligned, kept, blocksApart, regionsApart⟩
      · rw [if_neg zero]
        have block : Set.Ico bump (bump + sz) ⊆ Set.Ico r.start (bump + roundUp sz 16) :=
          Set.Ico_subset_Ico low (by omega)
        have inside : Set.Ico bump (bump + sz) ⊆ r.addresses := Set.Ico_subset_Ico low (by omega)
        refine ⟨current', stillAligned, List.forall_mem_cons.mpr ⟨bumpAligned, blocksAligned⟩,
          List.forall_mem_cons.mpr ⟨.inl block, kept⟩, List.pairwise_cons.mpr ⟨?_, blocksApart⟩,
            regionsApart⟩
        intro b member
        rcases placed b member with here | ⟨r', before, inside'⟩
        · exact (Set.Ico_disjoint_Ico_same.mono_left here).symm
        · exact ((List.pairwise_cons.mp regionsApart).1 r' before).mono inside inside'

theorem call_take (mmap : Nat → Region) (reuse : p.request sz = none) :
    p.call mmap sz = p.take sz := by
  have enough : ¬ p.heap.spaceRemaining < roundUp sz 16 := by simpa [request] using reuse
  simp [call, take, malloc, reuse, if_neg enough]

theorem call_enter {mmap : Nat → Region} {n : Nat} (asked : p.request sz = some n)
    (answered : (mmap n).requested = n) : p.call mmap sz = (p.enter (mmap n)).take sz := by
  have parts : p.heap.spaceRemaining < roundUp sz 16 ∧ roundUp (roundUp sz 16) 4096 = n := by
    simpa [request] using asked
  rcases parts with ⟨short, rounded⟩
  simp [call, take, enter, malloc, asked, if_pos short, rounded, answered, (mmap n).nonnull]

theorem call_consistent {next : Program} (small : sz ≤ 2 ^ 64 - 1 - 8192)
    (consistent : p.Consistent) (call : Call p sz next) : next.Consistent := by
  rcases call with ⟨mmap, answers, rfl⟩
  cases request : p.request sz with
  | none =>
      rw [call_take mmap request]
      have enough : ¬ p.heap.spaceRemaining < roundUp sz 16 := by
        simpa [Program.request] using request
      exact take_consistent consistent small (by omega)
  | some n =>
      rcases answers n request with ⟨answered, apart⟩
      rw [call_enter request answered]
      have size : roundUp (roundUp sz 16) 4096 = n := by
        unfold Program.request at request
        split_ifs at request
        exact Option.some.inj request
      have bounded := (rounded small).2.2
      have room := (roundUp_next (x := roundUp sz 16) (y := 4096) (by decide) bounded).1
      refine take_consistent (enter_consistent consistent apart) small ?_
      show roundUp sz 16 ≤ (mmap n).requested
      omega

theorem start_consistent : start.Consistent :=
  ⟨rfl, rfl, fun _ member => absurd member List.not_mem_nil, fun _ member =>
    absurd member List.not_mem_nil,
    .nil, .nil⟩

/-- Blocks are aligned, inside one region each and apart, and `space_remaining` counts up to the
end of the bytes that `malloc` asked for in the current region. -/
theorem malloc_blocks {sizes : List Nat} (small : ∀ sz ∈ sizes, sz ≤ 2 ^ 64 - 1 - 8192)
    (run : Run Call start sizes p) :
    (∀ b ∈ p.blocks, b.start % 16 = 0 ∧ ∃ r ∈ p.regions, b.addresses ⊆ r.addresses) ∧
      (p.blocks.Pairwise fun b c => Disjoint b.addresses c.addresses) ∧
      ∀ r, p.regions.head? = some r → p.heap.bump + p.heap.spaceRemaining =
        r.start + r.requested := by
  have preserved : ∀ p sz next, sz ≤ 2 ^ 64 - 1 - 8192 → Consistent p → Call p sz next →
      Consistent next :=
    fun _ _ _ => call_consistent
  have consistent : p.Consistent := invariant_on preserved run small start_consistent
  refine ⟨fun b member => ⟨consistent.blocks_aligned b member,
    placed_region consistent (consistent.blocks_placed b member)⟩, consistent.blocks_apart, ?_⟩
  intro r last
  rcases List.head?_eq_some_iff.mp last with ⟨earlier, regions⟩
  have current := consistent.current
  rw [regions] at current
  exact current.2

def spareRegion : Region where
  start := 0x60000000
  size := 8192
  requested := 4096
  enough := by decide
  aligned := by decide
  nonnull := by decide
  fits := by decide

theorem spare_call : Call start 16 ⟨⟨0x60000010, 4080⟩, [spareRegion], [⟨0x60000000, 16⟩]⟩ := by
  refine ⟨fun _ => spareRegion, ?_, rfl⟩
  intro n asked
  have size : n = 4096 := (Option.some.inj asked).symm
  exact ⟨size.symm, fun r member => absurd member List.not_mem_nil⟩

theorem spare_blocks :
    (∀ b ∈ [(⟨0x60000000, 16⟩ : Extent)], b.start % 16 = 0 ∧
        ∃ r ∈ [spareRegion], b.addresses ⊆ r.addresses) ∧
      ([(⟨0x60000000, 16⟩ : Extent)].Pairwise fun b c => Disjoint b.addresses c.addresses) ∧
      ∀ r, [spareRegion].head? = some r → 0x60000010 + 4080 = r.start + r.requested :=
  malloc_blocks (fun sz member => by simp [List.mem_singleton.mp member])
    (.cons spare_call (.nil _))

/-- The bytes after the ones asked for are not counted. -/
theorem spare_not_counted :
    ∃ p r, Run Call start [16] p ∧ p.regions.head? = some r ∧
      p.heap.bump + p.heap.spaceRemaining ≠ r.start + r.size :=
  ⟨_, spareRegion, .cons spare_call (.nil _), rfl, by decide⟩

end Program

end PaintKernel
