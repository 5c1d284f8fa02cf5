import Mathlib
import PaintKernel.MappedRegions
import PaintKernel.UserHeap
import PaintKernel.ElfProgram
import PaintKernel.Library.LastWriter

set_option autoImplicit false

/-! The heap of a running program: `malloc` over the pages that the kernel maps for it. -/

namespace PaintKernel

open ByteMemory LinkedList Transition LastWriter

def protReadWrite : UInt64 := 1 ||| 2
def mapAnonymousPrivate : UInt64 := 0x20 ||| 2

def System.malloc (input : Input) (s : System) (h : Heap) (sz : Nat) :
    Option (System × Nat × Heap) :=
  let sz := roundUp sz 16
  if h.spaceRemaining < sz then do
    let roundedUp := roundUp sz 4096
    let (s, newmem) ← s.mmap input 0 (UInt64.ofNat roundedUp) protReadWrite
      mapAnonymousPrivate (-1) 0
    if newmem = 0 then return (s, 0, h)
    return (s, Heap.grab sz ⟨newmem.toNat, roundedUp⟩)
  else return (s, h.grab sz)

structure Running where
  system : System
  heap : Heap
  blocks : List Extent

inductive HeapEvent where
  | malloc (sz : Nat)
  | store (address : Nat) (byte : UInt8)

/-- Memory is also there for what the program has besides its heap: it stores wherever it may. -/
inductive HeapStep : Running → HeapEvent → Running → Prop where
  | malloc {p : Running} {s : System} {h : Heap} {input : Input} {sz result : Nat}
      (call : p.system.malloc input p.heap sz = some (s, result, h)) :
      HeapStep p (.malloc sz) ⟨s, h, if sz = 0 ∨ result = 0 then p.blocks
        else ⟨result, sz⟩ :: p.blocks⟩
  | store {p : Running} {k : Kernel} {address : Nat} {byte : UInt8} (low : address < 2 ^ 47)
      (stored : p.system.kernel.storeVirt address byte = some k) :
      HeapStep p (.store address byte) { p with system := { p.system with kernel := k } }

/-- The pages that a call may take: those of a region for the block and the one that `sys_mmap` maps
behind it. -/
def HeapEvent.pages : HeapEvent → Nat
  | .malloc sz => (sz + 4095) / 4096 + 1
  | .store .. => 0

def lastStored (events : List HeapEvent) (address : Nat) : Option UInt8 :=
  lastWritten (fun (_ : Unit) _ => ()) (fun _ e a =>
    match e with
    | .malloc _ => none
    | .store b byte => if b = a then some byte else none) () events address

section Mapping

variable {root c count : Nat} {k : Kernel} {free : List Nat} {user : UserSpace} {s : System}

def UserSpace.zeroed (user : UserSpace) (c count : Nat) : UserSpace :=
  fun n => if c ≤ n ∧ n < c + count then some zeroPage else user n

theorem zeroed_succ (user : UserSpace) (c count : Nat) :
    Function.update (user.zeroed c count) (c + count) (some zeroPage) =
      user.zeroed c (count + 1) := by
  funext n
  by_cases same : n = c + count
  · rw [same, Function.update_self, UserSpace.zeroed, if_pos (by omega)]
  · rw [Function.update_of_ne same, UserSpace.zeroed, UserSpace.zeroed]
    by_cases inside : c ≤ n ∧ n < c + count
    · rw [if_pos inside, if_pos (by omega)]
    · rw [if_neg inside, if_neg (by omega)]

theorem mapPages_zeroed (holds : HoldsUser root k free user) (low : 4096 * (c + count) ≤ 2 ^ 47)
    (unmapped : ∀ n, c ≤ n → n < c + count → user n = none) (room : 4 * count ≤ free.length) :
    ∃ free', HoldsUser root (k.mapPages root true false ((List.range count).map fun j =>
      4096 * (c + j))) free'
        (user.zeroed c count) ∧ free.length ≤ free'.length + 4 * count := by
  induction count with
  | zero =>
      have none : user.zeroed c 0 = user := by
        funext n
        rw [UserSpace.zeroed, if_neg (by omega)]
      rw [none]
      exact ⟨free, holds, by omega⟩
  | succ count ih =>
      obtain ⟨middle, mapped, left⟩ :=
        ih (by omega) (fun n above below => unmapped n above (by omega)) (by omega)
      have page : 4096 * (c + count) / 4096 = c + count := by omega
      have missing : user.zeroed c count (4096 * (c + count) / 4096) = none := by
        rw [page, UserSpace.zeroed, if_neg (by omega)]
        exact unmapped (c + count) (by omega) (by omega)
      obtain ⟨k', free', call, more, cost⟩ :=
        mapped.vmMap_new (a := 4096 * (c + count)) (by omega) missing (by omega)
      refine ⟨free', ?_, by omega⟩
      rw [page, zeroed_succ] at more
      rw [List.range_succ, List.map_append, mapPages_append, List.map_singleton,
        mapPages_singleton, call]
      exact more

theorem regionPages_zeroed {n : Nat} {len : UInt64} (aligned : s.addre.toNat % 4096 = 0)
    (length : len.toNat = 4096 * n) (low : s.addre.toNat + 4096 * (n + 1) ≤ 2 ^ 31) :
    System.pageCount (s.pick 0) len = n + 1 ∧
      System.regionPages (s.pick 0) len = (List.range (n + 1)).map fun j =>
        4096 * (s.addre.toNat / 4096 + j) := by
  have picked : s.pick 0 = s.addre := if_pos rfl
  have count : System.pageCount s.addre len = n + 1 := by
    rw [pageCount_toNat (by omega), aligned]
    omega
  rw [picked, System.regionPages, count, startPage_toNat]
  refine ⟨rfl, List.map_congr_left ?_⟩
  intro j member
  rw [List.mem_range] at member
  rw [System.pageAddress, Nat.mod_eq_of_lt (by omega)]
  omega

/-- `mmap` gives the program some pages more, and one behind them. -/
theorem mmap_region (input : Input) {n : Nat} {len : UInt64}
    (holds : HoldsUser root s.kernel free user) (aligned : s.addre.toNat % 4096 = 0)
    (length : len.toNat = 4096 * n) (low : s.addre.toNat + 4096 * (n + 1) ≤ 2 ^ 31)
    (unmapped : ∀ i, s.addre.toNat / 4096 ≤ i → i < s.addre.toNat / 4096 + (n + 1) → user i = none)
    (room : 4 * (n + 1) ≤ free.length) :
    ∃ s' free', s.mmap input 0 len protReadWrite mapAnonymousPrivate (-1) 0 = some (s', s.addre) ∧
      HoldsUser root s'.kernel free' (user.zeroed (s.addre.toNat / 4096) (n + 1)) ∧
      free.length ≤ free'.length + 4 * (n + 1) ∧
        s'.addre.toNat = s.addre.toNat + 4096 * (n + 1) := by
  obtain ⟨count, pages⟩ := regionPages_zeroed (s := s) aligned length low
  have picked : s.pick 0 = s.addre := if_pos rfl
  have start : System.startPage s.addre = s.addre := by
    apply UInt64.toNat_inj.mp
    rw [startPage_toNat]
    omega
  have below : 4096 * (s.addre.toNat / 4096 + (n + 1)) ≤ 2 ^ 47 := by
    calc
      4096 * (s.addre.toNat / 4096 + (n + 1)) = 4096 * (s.addre.toNat / 4096) + 4096 * (n + 1) :=
        Nat.mul_add ..
      _ ≤ s.addre.toNat + 4096 * (n + 1) := Nat.add_le_add_right (Nat.mul_div_le _ _) _
      _ ≤ 2 ^ 31 := low
      _ ≤ 2 ^ 47 := by decide
  have small : FitsInt s.addre := Or.inl (by omega)
  have safe : ∀ j < System.pageCount (s.pick 0) len,
      System.NoOverflow (System.startPage (s.pick 0)).toNat j := by
    intro j below
    rw [count] at below
    rw [picked, start]
    constructor
    · omega
    · omega
  obtain ⟨s', looped⟩ : ∃ s', s.sysMmap 0 len protReadWrite = some (s', .returns s.addre) := by
    have call := sysMmap_loop s 0 len protReadWrite
    rw [if_pos safe] at call
    rw [call, picked, start]
    exact ⟨_, rfl⟩
  obtain ⟨kernel, _, cursor, _⟩ := sysMmap_returns looped
  obtain ⟨free', mapped, cost⟩ := mapPages_zeroed holds below unmapped room
  refine ⟨s', free', ?_, ?_, cost, ?_⟩
  · rw [System.mmap, System.syscallHandler_mmap, looped]
    simp only [(intReturn_iff s.addre).mpr small]
  · have bits : protReadWrite.toNat.testBit 1 = true ∧ protReadWrite.toNat.testBit 2 = false :=
      ⟨rfl, rfl⟩
    rw [pages, bits.1, bits.2, holds.active] at kernel
    rw [kernel]
    exact mapped
  · rw [cursor, advance_cursor rfl]
    omega

theorem roundUp_pages {sz : Nat} (small : sz ≤ 2 ^ 31) :
    roundUp (roundUp sz 16) 4096 = 4096 * ((sz + 4095) / 4096) := by
  obtain ⟨enough, close, sixteen⟩ := roundUp_next (x := sz) (y := 16) (by decide) (by omega)
  obtain ⟨more, near, whole⟩ := roundUp_next (x := roundUp sz 16) (y := 4096) (by decide) (by omega)
  omega

end Mapping

/-! What holds while a program allocates and stores. -/

/-- There are pages and addresses for `budget` pages more, and the regions so far are the program's
to write; they are not below `base`. -/
structure HeapReady (root base budget : Nat) (p : Running) (free : List Nat) (user : UserSpace)
    (regions : List Region) :
    Prop where
  holds : HoldsUser root p.system.kernel free user
  aligned : p.system.addre.toNat % 4096 = 0
  positive : 0 < p.system.addre.toNat
  base_le : base ≤ p.system.addre.toNat
  low : p.system.addre.toNat + 4096 * budget ≤ 2 ^ 31
  unmapped : ∀ n, p.system.addre.toNat / 4096 ≤ n → n < 2 ^ 19 → user n = none
  room : 4 * budget ≤ free.length
  consistent : Program.Consistent ⟨p.heap, regions, p.blocks⟩
  above : ∀ r ∈ regions, base ≤ r.start
  below : ∀ r ∈ regions, r.start + r.size ≤ p.system.addre.toNat
  mapped : ∀ r ∈ regions, ∀ a ∈ r.addresses, ∃ page, user (a / 4096) = some page ∧
    page.writable = true

structure UserSpace.Grows (user user' : UserSpace) : Prop where
  kept : ∀ n page, user n = some page → user' n = some page
  added : ∀ n page, user' n = some page → user n = some page ∨ page = zeroPage

theorem grows_zeroed {user : UserSpace} {c count : Nat}
    (missing : ∀ n, c ≤ n → n < c + count → user n = none) :
    user.Grows (user.zeroed c count) := by
  constructor
  · intro n page present
    rw [UserSpace.zeroed, if_neg]
    · exact present
    · intro inside
      rw [missing n inside.1 inside.2] at present
      cases present
  · intro n page present
    rw [UserSpace.zeroed] at present
    split at present
    · cases present
      exact .inr rfl
    · exact .inl present

section Ready

variable {root base budget sz : Nat} {p : Running} {free : List Nat} {user : UserSpace}
  {regions : List Region}

theorem HeapReady.fewer {more : Nat}
    (ready : HeapReady root base (more + budget) p free user regions) :
    HeapReady root base budget p free user regions where
  holds := ready.holds
  aligned := ready.aligned
  positive := ready.positive
  base_le := ready.base_le
  low := by
    have low := ready.low
    omega
  unmapped := ready.unmapped
  room := by
    have room := ready.room
    omega
  consistent := ready.consistent
  above := ready.above
  below := ready.below
  mapped := ready.mapped

theorem HeapReady.mapped_zeroed {r : Region} {count : Nat}
    (ready : HeapReady root base budget p free user regions)
    (start : r.start = p.system.addre.toNat) (size : r.size = 4096 * count)
    (grows : user.Grows (user.zeroed (p.system.addre.toNat / 4096) count)) :
    ∀ q ∈ r :: regions, ∀ a ∈ q.addresses, ∃ page,
      user.zeroed (p.system.addre.toNat / 4096) count (a / 4096) = some page ∧
        page.writable = true := by
  have aligned := ready.aligned
  rw [List.forall_mem_cons]
  constructor
  · intro a inside
    have ends : r.start ≤ a ∧ a < r.start + r.size := inside
    refine ⟨zeroPage, ?_, rfl⟩
    rw [UserSpace.zeroed, if_pos (by omega)]
  · intro q member a inside
    obtain ⟨page, present, writable⟩ := ready.mapped q member a inside
    exact ⟨page, grows.kept _ page present, writable⟩

theorem HeapReady.extended {s' : System} {free' : List Nat} {r : Region} {count : Nat}
    (ready : HeapReady root base (count + budget) p free user regions)
    (start : r.start = p.system.addre.toNat) (size : r.size = 4096 * count)
    (holds : HoldsUser root s'.kernel free' (user.zeroed (p.system.addre.toNat / 4096) count))
    (cost : free.length ≤ free'.length + 4 * count)
    (cursor : s'.addre.toNat = p.system.addre.toNat + 4096 * count)
    (grows : user.Grows (user.zeroed (p.system.addre.toNat / 4096) count)) :
    HeapReady root base budget ⟨s', ⟨p.system.addre.toNat, r.requested⟩, p.blocks⟩ free'
      (user.zeroed (p.system.addre.toNat / 4096) count) (r :: regions) := by
  have low := ready.low
  have room := ready.room
  have aligned := ready.aligned
  have positive := ready.positive
  have apart : ∀ q ∈ regions, Disjoint r.addresses q.addresses := by
    intro q member
    have under := ready.below q member
    exact Set.Ico_disjoint_Ico.mpr (by omega)
  have consistent := Program.enter_consistent ready.consistent apart
  rw [Program.enter, start] at consistent
  exact {
    holds := holds
    aligned := by rw [cursor]; omega
    positive := by rw [cursor]; omega
    base_le := by
      rw [cursor]
      exact ready.base_le.trans (Nat.le_add_right _ _)
    low := by rw [cursor]; omega
    unmapped := by
      intro i above under
      rw [cursor] at above
      rw [UserSpace.zeroed, if_neg (by omega)]
      exact ready.unmapped i (by omega) under
    room := by omega
    consistent := consistent
    above := List.forall_mem_cons.mpr ⟨start ▸ ready.base_le, ready.above⟩
    below := by
      rw [List.forall_mem_cons, cursor]
      refine ⟨by omega, fun q member => ?_⟩
      have under := ready.below q member
      omega
    mapped := ready.mapped_zeroed start size grows }

theorem HeapReady.enter (input : Input) {n : Nat} {len : UInt64}
    (ready : HeapReady root base (n + 1 + budget) p free user regions)
    (length : len.toNat = 4096 * n) :
    ∃ s' free' user' region, p.system.mmap input 0 len protReadWrite mapAnonymousPrivate (-1) 0 =
        some (s', p.system.addre) ∧
      HeapReady root base budget ⟨s', ⟨p.system.addre.toNat, 4096 * n⟩,
        p.blocks⟩ free' user' (region :: regions) ∧
      user.Grows user' := by
  have low := ready.low
  have room := ready.room
  have bound := p.system.addre.toNat_lt
  have vacant : ∀ i, p.system.addre.toNat / 4096 ≤ i → i < p.system.addre.toNat / 4096 + (n + 1) →
      user i = none := by
    intro i above under
    exact ready.unmapped i above (by omega)
  obtain ⟨s', free1, call, holds, cost, cursor⟩ :=
    mmap_region input ready.holds ready.aligned length (by omega) vacant (by omega)
  let region : Region := {
    start := p.system.addre.toNat
    size := 4096 * (n + 1)
    requested := 4096 * n
    enough := by omega
    aligned := ready.aligned
    nonnull := Nat.pos_iff_ne_zero.mp ready.positive
    fits := by omega }
  have grows := grows_zeroed vacant
  have extended := ready.extended (r := region) rfl rfl holds cost cursor grows
  exact ⟨s', free1, _, region, call, extended, grows⟩

theorem HeapReady.take (ready : HeapReady root base budget p free user regions)
    (small : sz ≤ 2 ^ 64 - 1 - 8192) (enough : roundUp sz 16 ≤ p.heap.spaceRemaining) :
    (sz ≠ 0 → (p.heap.grab (roundUp sz 16)).1 ≠ 0) ∧
      HeapReady root base budget ⟨p.system, (p.heap.grab (roundUp sz 16)).2,
        if sz = 0 ∨ (p.heap.grab (roundUp sz 16)).1 = 0 then p.blocks
        else ⟨(p.heap.grab (roundUp sz 16)).1, sz⟩ :: p.blocks⟩ free user regions := by
  have taken := Program.take_consistent ready.consistent small enough
  have nonnull : sz ≠ 0 → (p.heap.grab (roundUp sz 16)).1 ≠ 0 := by
    intro positive null
    have listed : (⟨(p.heap.grab (roundUp sz 16)).1, sz⟩ : Extent) ∈
        (Program.take sz ⟨p.heap, regions, p.blocks⟩).blocks := by
      simp only [Program.take, if_neg positive]
      exact List.mem_cons_self
    obtain ⟨r, _, inside⟩ := Program.placed_region taken (taken.blocks_placed _ listed)
    have first : (p.heap.grab (roundUp sz 16)).1 ∈ r.addresses :=
      inside ⟨le_refl _, Nat.lt_add_of_pos_right (Nat.pos_of_ne_zero positive)⟩
    have start := r.nonnull
    have above : r.start ≤ (p.heap.grab (roundUp sz 16)).1 := first.1
    omega
  have blocks : (if sz = 0 ∨ (p.heap.grab (roundUp sz 16)).1 = 0 then p.blocks
      else ⟨(p.heap.grab (roundUp sz 16)).1, sz⟩ :: p.blocks) =
      if sz = 0 then p.blocks else ⟨(p.heap.grab (roundUp sz 16)).1, sz⟩ :: p.blocks := by
    by_cases zero : sz = 0
    · rw [if_pos (.inl zero), if_pos zero]
    · rw [if_neg zero, if_neg (not_or.mpr ⟨zero, nonnull zero⟩)]
  refine ⟨nonnull, ?_⟩
  rw [blocks]
  exact { ready with consistent := taken }

theorem malloc_reuses (input : Input) (s : System) {h : Heap}
    (enough : ¬ h.spaceRemaining < roundUp sz 16) :
    s.malloc input h sz = some (s, h.grab (roundUp sz 16)) := by
  rw [System.malloc]
  simp only [if_neg enough]
  rfl

theorem malloc_enters {input : Input} {s s' : System} {h : Heap}
    (short : h.spaceRemaining < roundUp sz 16) (small : sz ≤ 2 ^ 31)
    (call : s.mmap input 0 (UInt64.ofNat (4096 * ((sz + 4095) / 4096))) protReadWrite
      mapAnonymousPrivate (-1) 0 = some (s', s.addre)) (nonnull : 0 < s.addre.toNat) :
    s.malloc input h sz =
      some (s', Heap.grab (roundUp sz 16) ⟨s.addre.toNat, 4096 * ((sz + 4095) / 4096)⟩) := by
  have positive : s.addre ≠ 0 := by
    intro zero
    rw [zero] at nonnull
    exact absurd nonnull (by decide)
  rw [System.malloc]
  simp only [if_pos short, roundUp_pages small, call, Option.bind_eq_bind, Option.bind_some,
    if_neg positive]
  rfl

/-- A call of `malloc` returns, and the program is ready for the next one. -/
theorem HeapReady.malloc (input : Input)
    (ready : HeapReady root base ((sz + 4095) / 4096 + 1 + budget) p free user regions) :
    ∃ s result h, p.system.malloc input p.heap sz = some (s, result, h) ∧ (sz ≠ 0 → result ≠ 0) ∧
      ∃ free' user' regions', HeapReady root base budget
        ⟨s, h, if sz = 0 ∨ result = 0 then p.blocks else ⟨result, sz⟩ :: p.blocks⟩ free'
          user' regions' ∧
        user.Grows user' := by
  have low := ready.low
  have small : sz ≤ 2 ^ 31 := by omega
  have smaller : sz ≤ 2 ^ 64 - 1 - 8192 := by omega
  by_cases short : p.heap.spaceRemaining < roundUp sz 16
  · have length : (UInt64.ofNat (4096 * ((sz + 4095) / 4096))).toNat =
        4096 * ((sz + 4095) / 4096) := by
      rw [UInt64.toNat_ofNat']
      exact Nat.mod_eq_of_lt (by omega)
    obtain ⟨s', free', user', region, call, entered, grows⟩ := ready.enter input length
    have room : roundUp sz 16 ≤ 4096 * ((sz + 4095) / 4096) := by
      rw [← roundUp_pages small]
      obtain ⟨_, close, _⟩ := roundUp_next (x := sz) (y := 16) (by decide) (by omega)
      exact (roundUp_next (x := roundUp sz 16) (y := 4096) (by decide) (by omega)).1
    obtain ⟨nonnull, taken⟩ := entered.take smaller room
    exact ⟨s', _, _, malloc_enters short small call ready.positive, nonnull, free', user', _,
      taken, grows⟩
  · obtain ⟨nonnull, taken⟩ := ready.fewer.take smaller (Nat.le_of_not_lt short)
    exact ⟨p.system, _, _, malloc_reuses input p.system short, nonnull, free, user, regions, taken,
      ⟨fun _ _ present => present, fun _ _ present => .inl present⟩⟩

theorem HeapReady.store {k : Kernel} {address : Nat} {byte : UInt8}
    (ready : HeapReady root base budget p free user regions) (low : address < 2 ^ 47)
    (stored : p.system.kernel.storeVirt address byte = some k) :
    ∃ page, user (address / 4096) = some page ∧
      HeapReady root base budget { p with system := { p.system with kernel := k } } free
        (Function.update user (address / 4096) (some (page.store (address % 4096) byte)))
          regions := by
  have holds := ready.holds
  obtain ⟨n, same, ⟨_, mapping, found, place⟩ | ⟨high, _⟩⟩ := storeVirt_effect stored
  · rw [holds.active] at found
    obtain ⟨page, present⟩ : ∃ page, user (address / 4096) = some page := by
      apply Option.ne_none_iff_exists'.mp
      intro absent
      rw [holds.absent address low absent] at found
      cases found
    rw [place] at same
    have after := holds.stored low present byte found
    rw [← same] at after
    refine ⟨page, present, { ready with holds := after, unmapped := ?_, mapped := ?_ }⟩
    · intro i above below
      have absent := ready.unmapped i above below
      have other : i ≠ address / 4096 := by
        intro here
        rw [here, present] at absent
        cases absent
      rw [Function.update_of_ne other]
      exact absent
    · intro r member a inside
      obtain ⟨old, held, writable⟩ := ready.mapped r member a inside
      by_cases here : a / 4096 = address / 4096
      · rw [here, present, Option.some.injEq] at held
        rw [here, Function.update_self]
        exact ⟨_, rfl, held ▸ writable⟩
      · rw [Function.update_of_ne here]
        exact ⟨old, held, writable⟩
  · exact absurd low high

end Ready

/-! Whole runs. -/

/-- `user'` is `user` with what the events stored, and with pages that were of zeros before. -/
structure Remembers (events : List HeapEvent) (user user' : UserSpace) : Prop where
  kept : ∀ n page, user n = some page → ∃ page', user' n = some page' ∧
    ∀ o < 4096, page'.byte o = (lastStored events (4096 * n + o)).getD (page.byte o)
  fresh : ∀ n page', user n = none → user' n = some page' →
    ∀ o < 4096, page'.byte o = (lastStored events (4096 * n + o)).getD 0

def requestedSizes : List HeapEvent → List Nat
  | [] => []
  | .malloc sz :: rest => if sz = 0 then requestedSizes rest else sz :: requestedSizes rest
  | .store .. :: rest => requestedSizes rest

section Runs

variable {root base budget : Nat} {p q : Running} {free : List Nat} {user user1 user' : UserSpace}
  {regions : List Region} {events : List HeapEvent}

theorem lastStored_malloc (sz : Nat) (rest : List HeapEvent) (a : Nat) :
    lastStored (.malloc sz :: rest) a = lastStored rest a := Option.or_none

theorem lastStored_store (b : Nat) (byte : UInt8) (rest : List HeapEvent) (a : Nat) :
    lastStored (.store b byte :: rest) a =
      (lastStored rest a).or (if b = a then some byte else none) := rfl

theorem Remembers.nil (user : UserSpace) : Remembers [] user user where
  kept := fun _ page present => ⟨page, present, fun _ _ => rfl⟩
  fresh := by
    intro n page absent present
    rw [absent] at present
    cases present

theorem Remembers.malloc (sz : Nat) (grows : user.Grows user1)
    (later : Remembers events user1 user') :
    Remembers (.malloc sz :: events) user user' where
  kept := by
    intro n page present
    obtain ⟨page', there, bytes⟩ := later.kept n page (grows.kept n page present)
    refine ⟨page', there, fun o bound => ?_⟩
    rw [lastStored_malloc]
    exact bytes o bound
  fresh := by
    intro n page' absent present o bound
    rw [lastStored_malloc]
    cases middle : user1 n with
    | none => exact later.fresh n page' middle present o bound
    | some page =>
        obtain ⟨other, there, bytes⟩ := later.kept n page middle
        rw [present, Option.some.injEq] at there
        rcases grows.added n page middle with old | zero
        · rw [absent] at old
          cases old
        · rw [there, bytes o bound, zero]
          rfl

theorem Remembers.store {b : Nat} {byte : UInt8} {page : UserPage}
    (present : user (b / 4096) = some page)
    (later : Remembers events
      (Function.update user (b / 4096) (some (page.store (b % 4096) byte))) user') :
    Remembers (.store b byte :: events) user user' where
  kept := by
    intro n old held
    by_cases here : n = b / 4096
    · obtain ⟨page', there, bytes⟩ :=
        later.kept n (page.store (b % 4096) byte) (by rw [here, Function.update_self])
      rw [here, present, Option.some.injEq] at held
      refine ⟨page', there, fun o bound => ?_⟩
      rw [bytes o bound, lastStored_store, ← held]
      by_cases same : b = 4096 * n + o
      · have offset : o = b % 4096 := by omega
        have value : (page.store (b % 4096) byte).byte o = byte := if_pos offset
        rw [if_pos same, value]
        cases lastStored events (4096 * n + o) <;> rfl
      · have offset : o ≠ b % 4096 := by omega
        have value : (page.store (b % 4096) byte).byte o = page.byte o := if_neg offset
        rw [if_neg same, Option.or_none, value]
    · obtain ⟨page', there, bytes⟩ := later.kept n old (by rw [Function.update_of_ne here, held])
      refine ⟨page', there, fun o bound => ?_⟩
      rw [bytes o bound, lastStored_store, if_neg (by omega), Option.or_none]
  fresh := by
    intro n page' absent there o bound
    have other : n ≠ b / 4096 := by
      intro here
      rw [here, present] at absent
      cases absent
    rw [lastStored_store, if_neg (by omega), Option.or_none]
    exact later.fresh n page' (by rw [Function.update_of_ne other, absent]) there o bound

theorem heapRun_ready (run : Run HeapStep p events q)
    (ready : HeapReady root base ((events.map HeapEvent.pages).sum + budget) p free user regions) :
    ∃ free' user' regions', HeapReady root base budget q free' user' regions' ∧
      Remembers events user user' ∧
      q.blocks.map Extent.size = (requestedSizes events).reverse ++ p.blocks.map Extent.size := by
  induction run generalizing free user regions with
  | nil p => exact ⟨free, user, regions, by simpa using ready, .nil user, rfl⟩
  | @cons p middle q e rest step later ih =>
      rw [List.map_cons, List.sum_cons, Nat.add_assoc] at ready
      cases step with
      | @malloc s h input sz result call =>
          obtain ⟨s1, result1, h1, call1, nonnull, free1, user1, regions1, ready1, grows⟩ :=
            ready.malloc input
          rw [call, Option.some.injEq, Prod.mk.injEq, Prod.mk.injEq] at call1
          obtain ⟨rfl, rfl, rfl⟩ := call1
          obtain ⟨free2, user2, regions2, ready2, remembers, sizes⟩ := ih ready1
          refine ⟨free2, user2, regions2, ready2, remembers.malloc sz grows, ?_⟩
          rw [sizes, requestedSizes]
          by_cases zero : sz = 0
          · rw [if_pos (.inl zero), if_pos zero]
          · rw [if_neg (not_or.mpr ⟨zero, nonnull zero⟩), if_neg zero, List.map_cons,
              List.reverse_cons, List.append_assoc, List.singleton_append]
      | @store k address byte low stored =>
          obtain ⟨page, present, ready1⟩ := ready.store low stored
          simp only [HeapEvent.pages, Nat.zero_add] at ready1
          obtain ⟨free2, user2, regions2, ready2, remembers, sizes⟩ := ih ready1
          exact ⟨free2, user2, regions2, ready2, remembers.store present, sizes⟩

theorem startingHeap_ready {s : System} (holds : HoldsUser root s.kernel free user)
    (aligned : s.addre.toNat % 4096 = 0) (positive : 0 < s.addre.toNat)
    (unmapped : ∀ n, s.addre.toNat / 4096 ≤ n → n < 2 ^ 19 → user n = none)
    (low : s.addre.toNat + 4096 * budget ≤ 2 ^ 31) (room : 4 * budget ≤ free.length) :
    HeapReady root s.addre.toNat budget ⟨s, ⟨0, 0⟩, []⟩ free user [] where
  holds := holds
  aligned := aligned
  positive := positive
  base_le := le_refl _
  low := low
  unmapped := unmapped
  room := room
  consistent := Program.start_consistent
  above := fun _ member => absurd member List.not_mem_nil
  below := fun _ member => absurd member List.not_mem_nil
  mapped := fun _ member => absurd member List.not_mem_nil

theorem HeapReady.loadVirt {a : Nat} (ready : HeapReady root base budget q free user' regions)
    (remembers : Remembers events user user') (low : a < 2 ^ 47) :
    (∀ page, user (a / 4096) = some page →
      q.system.kernel.loadVirt a = some ((lastStored events a).getD (page.byte (a % 4096)))) ∧
    (user (a / 4096) = none → ∀ page', user' (a / 4096) = some page' →
      q.system.kernel.loadVirt a = some ((lastStored events a).getD 0)) := by
  have place : 4096 * (a / 4096) + a % 4096 = a := Nat.div_add_mod a 4096
  have offset : a % 4096 < 4096 := Nat.mod_lt _ (by decide)
  have loaded := ready.holds.loadVirt low
  constructor
  · intro page present
    obtain ⟨page', there, bytes⟩ := remembers.kept _ page present
    rw [loaded, there, Option.map_some, bytes _ offset, place]
  · intro absent page' there
    rw [loaded, there, Option.map_some, remembers.fresh _ page' absent there _ offset, place]

/-- A program allocates and stores, in any order. Each block that it asks for it gets; the blocks
are aligned and apart, and they are memory of its own: every byte of a block can be written, and it
is the byte that was stored there last, or zero. What the program had before keeps its bytes too. As
long as there is memory, the next call returns. -/
theorem heap_memory {s : System} (holds : HoldsUser root s.kernel free user)
    (aligned : s.addre.toNat % 4096 = 0) (positive : 0 < s.addre.toNat)
    (unmapped : ∀ n, s.addre.toNat / 4096 ≤ n → n < 2 ^ 19 → user n = none)
    (run : Run HeapStep ⟨s, ⟨0, 0⟩, []⟩ events q)
    (low : s.addre.toNat + 4096 * ((events.map HeapEvent.pages).sum + budget) ≤ 2 ^ 31)
    (room : 4 * ((events.map HeapEvent.pages).sum + budget) ≤ free.length) :
    q.blocks.map Extent.size = (requestedSizes events).reverse ∧
      (∀ b ∈ q.blocks, b.start % 16 = 0 ∧ ∀ a ∈ b.addresses, q.system.kernel.writableAt a = true ∧
        q.system.kernel.loadVirt a = some ((lastStored events a).getD 0)) ∧
      (q.blocks.Pairwise fun b c => Disjoint b.addresses c.addresses) ∧
      (∀ a < 2 ^ 47, ∀ page, user (a / 4096) = some page →
        q.system.kernel.loadVirt a = some ((lastStored events a).getD (page.byte (a % 4096)))) ∧
      ∀ sz, (HeapEvent.malloc sz).pages ≤ budget → ∃ q', HeapStep q (.malloc sz) q' := by
  have start := startingHeap_ready holds aligned positive unmapped low room
  obtain ⟨free', user', regions, ready, remembers, sizes⟩ := heapRun_ready run start
  refine ⟨by simpa using sizes, ?_, ready.consistent.blocks_apart, ?_, ?_⟩
  · intro b member
    refine ⟨ready.consistent.blocks_aligned b member, ?_⟩
    intro a inside
    obtain ⟨r, listed, within⟩ :=
      Program.placed_region ready.consistent (ready.consistent.blocks_placed b member)
    have here : r.start ≤ a ∧ a < r.start + r.size := within inside
    have above := ready.above r listed
    have below := ready.below r listed
    have limit := ready.low
    obtain ⟨page, present, writable⟩ := ready.mapped r listed a here
    have absent := unmapped (a / 4096) (Nat.div_le_div_right (above.trans here.1)) (by omega)
    constructor
    · rw [ready.holds.writableAt (by omega) present, writable]
    · exact (ready.loadVirt remembers (by omega)).2 absent page present
  · intro a low page present
    exact (ready.loadVirt remembers low).1 page present
  · intro sz enough
    obtain ⟨left, rest⟩ := Nat.exists_eq_add_of_le enough
    rw [rest] at ready
    obtain ⟨s', result, h, call, _⟩ := ready.malloc idleInput
    exact ⟨_, .malloc call⟩

end Runs

theorem bare_heap_run :
    ∃ q, Run HeapStep ⟨bareSystem, ⟨0, 0⟩, []⟩ [.malloc 16, .store 0x60000003 7] q := by
  have holds := bare_emptyLower.holds
  have length : (UInt64.ofNat (4096 * ((16 + 4095) / 4096))).toNat = 4096 * 1 := rfl
  have cursor : bareSystem.addre.toNat = 0x60000000 := rfl
  obtain ⟨s', free', mapped, held, _, _⟩ :=
    mmap_region (s := bareSystem) (n := 1) idleInput holds (by decide) length
    (by decide) (fun _ _ _ => rfl) (by decide)
  have call := malloc_enters (h := ⟨0, 0⟩) (by decide) (by decide) mapped (by decide)
  have present : UserSpace.zeroed (fun _ => none) (bareSystem.addre.toNat / 4096) 2
      (0x60000003 / 4096) = some zeroPage := by
    rw [UserSpace.zeroed, cursor]
    exact if_pos (by decide)
  obtain ⟨k, stored, _⟩ := held.storeVirt_writable (v := 0x60000003) (by decide) present rfl 7
  exact ⟨_, .cons (.malloc call) (.cons (.store (by decide) stored) (.nil _))⟩

theorem bare_heap_memory :
    ∃ q, Run HeapStep ⟨bareSystem, ⟨0, 0⟩, []⟩ [.malloc 16, .store 0x60000003 7] q ∧
    q.blocks.map Extent.size = [16] ∧
      (∀ b ∈ q.blocks, b.start % 16 = 0 ∧ ∀ a ∈ b.addresses, q.system.kernel.writableAt a = true ∧
        q.system.kernel.loadVirt a =
          some ((lastStored [.malloc 16, .store 0x60000003 7] a).getD 0)) := by
  obtain ⟨q, run⟩ := bare_heap_run
  obtain ⟨sizes, blocks, _⟩ :=
    @heap_memory 0x1000 0 _ barePages _ _ bareSystem bare_emptyLower.holds (by decide) (by decide)
    (fun _ _ _ => rfl)
    run (by decide) (by decide)
  exact ⟨q, run, sizes, blocks⟩

end PaintKernel
