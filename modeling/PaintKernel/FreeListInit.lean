import Mathlib
import PaintKernel.PhysicalMemory

set_option autoImplicit false

/-! The free list that `freelist_init` builds from the memory map. -/

namespace PaintKernel

open ByteMemory LinkedList

def Usable (entries : List MemmapEntry) (page : Nat) : Prop :=
  ∃ entry ∈ entries, entry.memType = 1 ∧ entry.base ≤ page ∧ page + 4096 ≤ entry.base + entry.length

def UsablePage (entries : List MemmapEntry) (page : Nat) : Prop :=
  page % 4096 = 0 ∧ Usable entries page

namespace MemmapEntry

variable (e : MemmapEntry)

def Contains (n : Nat) : Prop := e.base ≤ n ∧ n < e.base + e.length

def Holds (page : Nat) : Prop := page % 4096 = 0 ∧ e.base ≤ page ∧ page + 4096 ≤ e.base + e.length

def padding : Nat := (4096 - e.base % 4096) % 4096

/-- The padding fits, and the `int` product `PAGE_SIZE * i` does not overflow. -/
def Collectable : Prop := e.padding ≤ e.length ∧ (e.length - e.padding) / 4096 ≤ 2 ^ 19

end MemmapEntry

/-- The usable entries have no byte in common, do not wrap around and leave out page 0. -/
structure DisjointMap (entries : List MemmapEntry) : Prop where
  fits : ∀ e ∈ entries, e.memType = 1 → e.base + e.length ≤ 2 ^ 64
  notNull : ∀ e ∈ entries, e.memType = 1 → ∀ n, e.Contains n → 4096 ≤ n
  apart : entries.Pairwise fun e f => e.memType = 1 → f.memType = 1 →
    ∀ n, ¬ (e.Contains n ∧ f.Contains n)

/-- The free list holds exactly these pages, each once and marked, and the rest of memory is as it
was. -/
structure Collected (m : Mem) (page : Nat → Prop) (k : Kernel) (pages : List Nat) : Prop where
  list : k.FreeList pages
  nodup : pages.Nodup
  exactly : ∀ p, p ∈ pages ↔ page p
  marked : ∀ p ∈ pages, readLE k.mem p 8 = serialNumber
  untouched : ∀ n, (∀ p ∈ pages, n < p ∨ p + 4096 ≤ n) → k.mem n = m n

section Nodes

def addedNode (m : Mem) (node prev : Nat) : Mem :=
  writeLE (writeLE m node 8 serialNumber) (node + 8) 8 prev

theorem addedNode_written (m : Mem) (node : Nat) {prev : Nat} (bounded : prev < 2 ^ 64) :
    nextNode (addedNode m node prev) node = prev ∧
      readLE (addedNode m node prev) node 8 = serialNumber ∧
      (∀ page, page + 16 ≤ node ∨ node + 16 ≤ page → nextNode (addedNode m node prev) page =
        nextNode m page) ∧
      ∀ n, n < node ∨ node + 16 ≤ n → addedNode m node prev n = m n := by
  refine ⟨readLE_writeLE _ _ _ _ bounded, ?_, fun page away => ?_, fun n away => ?_⟩
  · rw [addedNode, readLE_agree _ _ _ 8 node 8 (writeLE_agreeOutside _ _ _ _) (by omega)]
    exact readLE_writeLE _ _ _ _ (by decide)
  · calc
      nextNode (addedNode m node prev) page = nextNode (writeLE m node 8 serialNumber) page :=
        Kernel.nextNode_agree (writeLE_agreeOutside _ _ _ _) (by omega)
      _ = nextNode m page := Kernel.nextNode_agree (writeLE_agreeOutside _ _ _ _) (by omega)
  · calc
      addedNode m node prev n = writeLE m node 8 serialNumber n :=
        writeLE_outside _ _ _ _ _ (by omega)
      _ = m n := writeLE_outside _ _ _ _ _ (by omega)

/-- What `count` rounds of the loop leave of `m` and a list: the pages from index `i` on are in
front. -/
structure NodesAdded (base i count : Nat) (m : Mem) (pages : List Nat) (m' : Mem) (last : Nat)
    (added : List Nat) :
    Prop where
  list : Chain 0 (nextNode m') last (added ++ pages)
  bounded : last < 2 ^ 64
  origin : ∀ page, page ∈ added ↔ ∃ j, i ≤ j ∧ j < i + count ∧ page = base + 4096 * j
  marked : ∀ page ∈ added, readLE m' page 8 = serialNumber
  untouched : ∀ n, (∀ page ∈ added, n < page ∨ page + 16 ≤ n) → m' n = m n

theorem nodesAdded_none {base i prev : Nat} {m : Mem} {pages : List Nat}
    (list : Chain 0 (nextNode m) prev pages) (bounded : prev < 2 ^ 64) :
    NodesAdded base i 0 m pages m prev [] where
  list := list
  bounded := bounded
  origin := by
    intro page
    refine ⟨by simp, ?_⟩
    rintro ⟨j, lower, upper, _⟩
    omega
  marked := by simp
  untouched := fun _ _ => rfl

theorem NodesAdded.cons {base i count prev last : Nat} {m m' : Mem} {pages added : List Nat}
    (bounded : prev < 2 ^ 64)
    (rounds : NodesAdded base (i + 1) count (addedNode m (base + 4096 * i) prev)
      ((base + 4096 * i) :: pages) m' last
      added) : NodesAdded base i (count + 1) m pages m' last (added ++ [base + 4096 * i]) where
  list := by simpa using rounds.list
  bounded := rounds.bounded
  origin := by
    intro page
    rw [List.mem_append, List.mem_singleton, rounds.origin]
    constructor
    · rintro (⟨j, lower, upper, rfl⟩ | rfl)
      · exact ⟨j, by omega, by omega, rfl⟩
      · exact ⟨i, Nat.le_refl i, by omega, rfl⟩
    · rintro ⟨j, lower, upper, rfl⟩
      by_cases first : j = i
      · exact .inr (by rw [first])
      · exact .inl ⟨j, by omega, by omega, rfl⟩
  marked := by
    intro page member
    rcases List.mem_append.mp member with new | old
    · exact rounds.marked page new
    · rcases addedNode_written m (base + 4096 * i) bounded with ⟨_, mark, _, _⟩
      rw [List.mem_singleton.mp old, readLE_congr (addedNode m (base + 4096 * i) prev) m', mark]
      intro n lower upper
      refine rounds.untouched n fun other member => ?_
      rcases (rounds.origin other).mp member with ⟨j, after, _, rfl⟩
      omega
  untouched := by
    intro n outside
    rcases addedNode_written m (base + 4096 * i) bounded with ⟨_, _, _, elsewhere⟩
    have away := outside _ (List.mem_append_right _ (List.mem_singleton_self _))
    calc
      m' n = addedNode m (base + 4096 * i) prev n :=
        rounds.untouched n fun page member => outside page (List.mem_append_left _ member)
      _ = m n := elsewhere n away

theorem addNodes_spec (base remaining : Nat) {m : Mem} {prev i : Nat} {pages : List Nat}
    (list : Chain 0 (nextNode m) prev pages) (bounded : prev < 2 ^ 64)
    (positive : 0 < remaining → 0 < base) (fits : base + 4096 * (i + remaining) ≤ 2 ^ 64)
    (short : i + remaining ≤ 2 ^ 19) (apart : ∀ page ∈ pages, ∀ j, i ≤ j → j < i + remaining →
      page + 16 ≤ base + 4096 * j ∨ base + 4096 * j + 4096 ≤ page) :
    ∃ m' last added, Kernel.addNodes m base prev i remaining = some (m', last) ∧
      NodesAdded base i remaining m pages m' last added := by
  induction remaining generalizing m prev i pages with
  | zero => exact ⟨m, prev, [], rfl, nodesAdded_none list bounded⟩
  | succ remaining ih =>
      have node : (base + 4096 * i) % 2 ^ 64 = base + 4096 * i := Nat.mod_eq_of_lt (by omega)
      have notNull := positive (Nat.succ_pos remaining)
      rcases addedNode_written m (base + 4096 * i) bounded with ⟨here, _, others, _⟩
      have longer : Chain 0 (nextNode (addedNode m (base + 4096 * i) prev)) (base + 4096 * i)
          ((base + 4096 * i) :: pages) := by
        refine ⟨rfl, by omega, ?_⟩
        rw [here]
        refine chain_congr (fun page member => others page ?_) list
        have outside := apart page member i (Nat.le_refl i) (by omega)
        omega
      have further : ∀ page ∈ (base + 4096 * i) :: pages, ∀ j, i + 1 ≤ j → j < i + 1 + remaining →
          page + 16 ≤ base + 4096 * j ∨ base + 4096 * j + 4096 ≤ page := by
        intro page member j after before
        rcases List.mem_cons.mp member with rfl | old
        · omega
        · exact apart page old j (by omega) (by omega)
      rcases ih (i := i + 1) longer (by omega) (fun _ => notNull) (by omega) (by omega) further with
        ⟨m', last, added, result, rounds⟩
      refine ⟨m', last, added ++ [base + 4096 * i], ?_, rounds.cons bounded⟩
      rw [Kernel.addNodes, if_pos (by omega)]
      simp only [node]
      exact result

theorem addNodes_none (base remaining : Nat) {m : Mem} {prev i : Nat} (start : i ≤ 2 ^ 19)
    (long : 2 ^ 19 < i + remaining) : Kernel.addNodes m base prev i remaining = none := by
  induction remaining generalizing m prev i with
  | zero => omega
  | succ remaining ih =>
      rw [Kernel.addNodes]
      split
      · exact ih (by omega) (by omega)
      · rfl

end Nodes

section Entries

variable {k : Kernel} {e : MemmapEntry} {pages : List Nat} {m : Mem} {page : Nat → Prop}

theorem addMemory_eq (fits : e.base + e.length ≤ 2 ^ 64) (room : e.padding ≤ e.length) :
    ∃ start, start + 4096 * ((e.length - e.padding) / 4096) ≤ 2 ^ 64 ∧
      (0 < (e.length - e.padding) / 4096 → start = e.base + e.padding) ∧
      k.addMemory e.base e.length =
        (Kernel.addNodes k.mem start k.freelist 0 ((e.length - e.padding) / 4096)).map fun added =>
          { k with mem := added.1, freelist := added.2 } := by
  unfold MemmapEntry.padding at room ⊢
  by_cases aligned : e.base % 4096 = 0
  · have none : (4096 - e.base % 4096) % 4096 = 0 := by omega
    rw [none, Nat.sub_zero]
    refine ⟨e.base, by omega, fun _ => rfl, ?_⟩
    simp only [Kernel.addMemory, aligned, ne_eq, not_true_eq_false, if_false]
    cases Kernel.addNodes k.mem e.base k.freelist 0 (e.length / 4096) <;> rfl
  · have skip : (4096 - e.base % 4096) % 4096 = 4096 - e.base % 4096 := by omega
    rw [skip] at room ⊢
    have rest : (e.length + (2 ^ 64 - (4096 - e.base % 4096))) % 2 ^ 64 =
        e.length - (4096 - e.base % 4096) := by
      omega
    refine ⟨(e.base + (4096 - e.base % 4096)) % 2 ^ 64, by omega, fun _ => by omega, ?_⟩
    simp only [Kernel.addMemory, aligned, ne_eq, not_false_eq_true, if_true, rest]
    cases Kernel.addNodes k.mem ((e.base + (4096 - e.base % 4096)) % 2 ^ 64) k.freelist 0
      ((e.length - (4096 - e.base % 4096)) / 4096) <;> rfl

theorem MemmapEntry.holds_iff {start : Nat}
    (here : 0 < (e.length - e.padding) / 4096 → start = e.base + e.padding) (p : Nat) :
    e.Holds p ↔ ∃ j, 0 ≤ j ∧ j < 0 + (e.length - e.padding) / 4096 ∧ p = start + 4096 * j := by
  have within : e.padding < 4096 := Nat.mod_lt _ (by decide)
  have boundary : (e.base + e.padding) % 4096 = 0 := by
    unfold MemmapEntry.padding
    omega
  unfold MemmapEntry.Holds
  constructor
  · rintro ⟨aligned, low, high⟩
    have first := here (by omega)
    refine ⟨(p - start) / 4096, Nat.zero_le _, ?_, ?_⟩ <;> omega
  · rintro ⟨j, _, bound, rfl⟩
    rw [here (by omega)]
    omega

theorem addMemory_collected (collected : Collected m page k pages) (bounded : k.freelist < 2 ^ 64)
    (fits : e.base + e.length ≤ 2 ^ 64) (notNull : ∀ n, e.Contains n → 4096 ≤ n)
    (collectable : e.Collectable)
    (apart : ∀ p, page p → p + 4096 ≤ e.base ∨ e.base + e.length ≤ p) :
    ∃ k' pages', k.addMemory e.base e.length = some k' ∧
      Collected m (fun p => e.Holds p ∨ page p) k' pages' ∧ k'.freelist < 2 ^ 64 ∧
      k'.virtualOffset = k.virtualOffset := by
  rcases collectable with ⟨room, short⟩
  rcases addMemory_eq (k := k) fits room with ⟨start, inside, here, call⟩
  have pages_of := e.holds_iff here
  have separate : ∀ p q, page p → e.Holds q → p + 4096 ≤ q ∨ q + 4096 ≤ p := by
    rintro p q old ⟨_, low, high⟩
    have outside := apart p old
    omega
  have held : ∀ j < (e.length - e.padding) / 4096, e.Holds (start + 4096 * j) :=
    fun j bound => (pages_of _).mpr ⟨j, Nat.zero_le j, by omega, rfl⟩
  have positive : 0 < (e.length - e.padding) / 4096 → 0 < start := by
    intro some
    rcases held 0 some with ⟨_, low, high⟩
    have base := notNull e.base ⟨Nat.le_refl _, by omega⟩
    omega
  rcases addNodes_spec start ((e.length - e.padding) / 4096) (i := 0) collected.list
    bounded positive
    (by omega) (by omega) (fun p member j _ bound => by
      have away := separate p _ ((collected.exactly p).mp member) (held j (by omega))
      omega) with ⟨m', last, added, result, chain, small, origin, marked, untouched⟩
  have added_iff : ∀ p, p ∈ added ↔ e.Holds p := fun p => (origin p).trans (pages_of p).symm
  refine ⟨{ k with mem := m', freelist := last }, added ++ pages, ?_, ?_, small, rfl⟩
  · rw [call, result]
    rfl
  · refine ⟨chain, chain_nodup chain, ?_, ?_, ?_⟩
    · intro p
      rw [List.mem_append, added_iff, collected.exactly]
    · intro p member
      rcases List.mem_append.mp member with new | old
      · exact marked p new
      · rw [← collected.marked p old]
        refine readLE_congr k.mem m' p 8 fun n low high => untouched n fun q fresh => ?_
        have away := separate p q ((collected.exactly p).mp old) ((added_iff q).mp fresh)
        omega
    · intro n outside
      calc
        m' n = k.mem n := untouched n fun q fresh => by
          have away := outside q (List.mem_append_left _ fresh)
          omega
        _ = m n := collected.untouched n fun q old => outside q (List.mem_append_right _ old)

theorem collectable_of_addMemory {k' : Kernel} (fits : e.base + e.length ≤ 2 ^ 64)
    (call : k.addMemory e.base e.length = some k') : e.Collectable := by
  by_cases room : e.padding ≤ e.length
  · refine ⟨room, ?_⟩
    by_contra long
    rcases addMemory_eq (k := k) fits room with ⟨start, _, _, result⟩
    rw [result, addNodes_none _ _ (by decide) (by omega)] at call
    cases call
  · exfalso
    have unaligned : e.base % 4096 ≠ 0 := by
      unfold MemmapEntry.padding at room
      omega
    have skip : e.padding = 4096 - e.base % 4096 := by
      unfold MemmapEntry.padding
      omega
    have wrapped : 2 ^ 19 < 0 + (e.length + (2 ^ 64 - (4096 - e.base % 4096))) % 2 ^ 64 / 4096 := by
      omega
    simp only [Kernel.addMemory, unaligned, ne_eq, not_false_eq_true, if_true,
      addNodes_none _ _ (show 0 ≤ 2 ^ 19 by decide) wrapped] at call
    cases call

theorem usablePage_cons {rest : List MemmapEntry} (p : Nat) :
    UsablePage (e :: rest) p ↔ (e.memType = 1 ∧ e.Holds p) ∨ UsablePage rest p := by
  unfold UsablePage Usable MemmapEntry.Holds
  simp only [List.mem_cons, exists_eq_or_imp]
  tauto

theorem Collected.congr {other : Nat → Prop} (collected : Collected m page k pages)
    (same : ∀ p, page p ↔ other p) : Collected m other k pages :=
  { collected with exactly := fun p => (collected.exactly p).trans (same p) }

theorem holds_apart {f : MemmapEntry} (apart : ∀ n, ¬ (e.Contains n ∧ f.Contains n))
    (collectable : f.Collectable) {p : Nat} (held : e.Holds p) :
    p + 4096 ≤ f.base ∨ f.base + f.length ≤ p := by
  rcases held with ⟨aligned, low, high⟩
  have room := collectable.1
  unfold MemmapEntry.padding at room
  by_cases empty : f.length = 0
  · omega
  · have common := apart (max p f.base)
    unfold MemmapEntry.Contains at common
    omega

theorem DisjointMap.tail {rest : List MemmapEntry} (map : DisjointMap (e :: rest)) :
    DisjointMap rest where
  fits := fun f member => map.fits f (List.mem_cons_of_mem _ member)
  notNull := fun f member => map.notNull f (List.mem_cons_of_mem _ member)
  apart := (List.pairwise_cons.mp map.apart).2

/-- The loop over the memory map adds the pages of the usable entries. -/
theorem addEntries_collected {entries : List MemmapEntry} (map : DisjointMap entries)
    (collectable : ∀ e ∈ entries, e.memType = 1 → e.Collectable)
    (collected : Collected m page k pages) (bounded : k.freelist < 2 ^ 64)
    (apart : ∀ p, page p → ∀ e ∈ entries, e.memType = 1 → p + 4096 ≤ e.base ∨
      e.base + e.length ≤ p) :
    ∃ k' pages', k.addEntries entries = some k' ∧
      Collected m (fun p => UsablePage entries p ∨ page p) k' pages' ∧
      k'.virtualOffset = k.virtualOffset := by
  induction entries generalizing k pages page with
  | nil =>
      refine ⟨k, pages, rfl, collected.congr fun p => ?_, rfl⟩
      simp [UsablePage, Usable]
  | cons e rest ih =>
      have later := fun f member => collectable f (List.mem_cons_of_mem e member)
      by_cases usable : e.memType = 1
      · have here := collectable e List.mem_cons_self usable
        rcases addMemory_collected collected bounded (map.fits e List.mem_cons_self usable)
          (map.notNull e List.mem_cons_self usable) here
          (fun p old => apart p old e List.mem_cons_self usable) with ⟨k1, pages1, call, collected1,
            small, offset⟩
        rcases ih map.tail later collected1 small (by
          rintro p (held | old) f member kind
          · exact holds_apart ((List.pairwise_cons.mp map.apart).1 f member usable kind)
              (later f member kind) held
          · exact apart p old f (List.mem_cons_of_mem e member) kind) with ⟨k', pages', run,
              final, kept⟩
        refine ⟨k', pages', by simp [Kernel.addEntries, usable, call, run], final.congr fun p => ?_,
          kept.trans offset⟩
        rw [usablePage_cons]
        tauto
      · rcases ih map.tail later collected bounded (fun p old f member =>
          apart p old f (List.mem_cons_of_mem e member)) with ⟨k', pages', run, final, kept⟩
        refine ⟨k', pages', by simp [Kernel.addEntries, usable, run], final.congr fun p => ?_, kept⟩
        rw [usablePage_cons]
        tauto

theorem collectable_of_addEntries {entries : List MemmapEntry} {k' : Kernel}
    (map : DisjointMap entries) (run : k.addEntries entries = some k') :
    ∀ e ∈ entries, e.memType = 1 → e.Collectable := by
  induction entries generalizing k with
  | nil => exact fun _ none => nomatch none
  | cons e rest ih =>
      rw [Kernel.addEntries] at run
      rw [List.forall_mem_cons]
      split at run
      · rename_i usable
        split at run
        · cases run
        · rename_i call
          exact ⟨fun _ => collectable_of_addMemory (map.fits e List.mem_cons_self usable) call,
            ih map.tail run⟩
      · rename_i other
        exact ⟨fun usable => absurd usable other, ih map.tail run⟩

end Entries

section Init

variable {k : Kernel} {entries : List MemmapEntry} {virtual : Nat}

theorem freelistInit_collected (bound : virtual < 2 ^ 64) (map : DisjointMap entries)
    (collectable : ∀ e ∈ entries, e.memType = 1 → e.Collectable) (empty : k.freelist = 0) :
    ∃ k' pages, k.freelistInit virtual entries bound = some k' ∧
      Collected k.mem (UsablePage entries) k' pages ∧ k'.virtualOffset = virtual := by
  let start : Kernel :=
    { k with virtualOffset := virtual, cr0 := k.cr0 ||| 0x10000, offset_lt := bound }
  have none : Collected k.mem (fun _ => False) start [] :=
    ⟨empty, List.nodup_nil, by simp, by simp, fun _ _ => rfl⟩
  have bounded : start.freelist < 2 ^ 64 := by
    change k.freelist < 2 ^ 64
    omega
  rcases addEntries_collected map collectable none bounded (fun _ absurdity => absurdity.elim) with
    ⟨k', pages, run, collected, offset⟩
  exact ⟨k', pages, run, collected.congr fun p => by rw [or_false], offset⟩

/-- `freelist_init` collects every usable page exactly once, and nothing else, exactly when every
usable entry is collectable. -/
theorem freelist_collects_iff (bound : virtual < 2 ^ 64) (map : DisjointMap entries)
    (empty : k.freelist = 0) :
    (∃ k' pages, k.freelistInit virtual entries bound = some k' ∧
      Collected k.mem (UsablePage entries) k' pages) ↔ ∀ e ∈ entries, e.memType = 1 →
        e.Collectable := by
  constructor
  · rintro ⟨k', pages, run, _⟩
    exact collectable_of_addEntries map run
  · intro collectable
    rcases freelistInit_collected bound map collectable empty with ⟨k', pages, run, collected, _⟩
    exact ⟨k', pages, run, collected⟩

end Init

def bootKernel : Kernel where
  mem := fun _ => 0
  freelist := 0
  virtualOffset := 0
  cr0 := 0x80000011
  cr3 := 0x1000
  tlb := fun _ => none
  offset_lt := by decide

def raggedEntries : List MemmapEntry :=
  [⟨0x10010, 0x3000, 1⟩, ⟨0xF0000, 0x10000, 2⟩, ⟨0x100000, 0x80000000, 1⟩]

theorem ragged_collected :
    ∃ k' pages, bootKernel.freelistInit 0xFFFF800000000000 raggedEntries (by decide) = some k' ∧
      Collected bootKernel.mem (UsablePage raggedEntries) k' pages := by
  have map : DisjointMap raggedEntries := by
    constructor
    · decide
    · intro e member _ n inside
      simp only [raggedEntries, List.mem_cons, List.not_mem_nil, or_false] at member
      unfold MemmapEntry.Contains at inside
      rcases member with rfl | rfl | rfl <;> simp only at inside <;> omega
    · simp [raggedEntries, MemmapEntry.Contains]
      omega
  refine (freelist_collects_iff (by decide) map rfl).mpr ?_
  simp [raggedEntries, MemmapEntry.Collectable, MemmapEntry.padding]

def longEntries : List MemmapEntry := [⟨0x100000, 0x80001000, 1⟩]

/-- The last page of the entry is out of reach of the loop. -/
theorem long_not_collected :
    DisjointMap longEntries ∧
      ¬ ∃ k' pages, bootKernel.freelistInit 0xFFFF800000000000 longEntries (by decide) = some k' ∧
        Collected bootKernel.mem (UsablePage longEntries) k' pages := by
  have map : DisjointMap longEntries := by
    constructor
    · decide
    · simp [longEntries, MemmapEntry.Contains]
      omega
    · simp [longEntries]
  refine ⟨map, ?_⟩
  rintro ⟨k', pages, run, _⟩
  have collectable := collectable_of_addEntries map run _ List.mem_cons_self rfl
  exact absurd collectable.2 (by decide)

end PaintKernel
